/-!
  Byte sequences read as text.

  `Utf8.front` says what stands at the start of a byte sequence: a character, or the longest run
  of bytes that began one and failed.  Strict reading stops at the first failure and says where it
  is; lossy reading puts U+FFFD for each failed run and goes on.
-/

namespace OscHost.Text.Utf8

/-- What stands at the front of a non-empty byte sequence.  A failed run counts the bytes that
    could have begun a character; it is cut short when the input ended inside it. -/
inductive Front
  | scalar (c : Char) (width : Nat)
  | broken (width : Nat) (cutShort : Bool)

/-- The bytes that may follow a lead byte directly, and the count of bytes after the lead. -/
def leadRule (b : UInt8) : Option (Nat × UInt8 × UInt8) :=
  if 0xc2 ≤ b && b ≤ 0xdf then some (1, 0x80, 0xbf)
  else if b == 0xe0 then some (2, 0xa0, 0xbf)
  else if b == 0xed then some (2, 0x80, 0x9f)
  else if 0xe1 ≤ b && b ≤ 0xef then some (2, 0x80, 0xbf)
  else if b == 0xf0 then some (3, 0x90, 0xbf)
  else if 0xf1 ≤ b && b ≤ 0xf3 then some (3, 0x80, 0xbf)
  else if b == 0xf4 then some (3, 0x80, 0x8f)
  else none

/-- Collects `need` continuation bytes onto `code`; `seen` bytes have been read. -/
def continuation (code seen : Nat) : (need : Nat) → List UInt8 → Front
  | 0, _ => .scalar (Char.ofNat code) seen
  | _ + 1, [] => .broken seen true
  | need + 1, b :: rest =>
    if 0x80 ≤ b && b ≤ 0xbf then continuation (code * 64 + b.toNat % 64) (seen + 1) need rest
    else .broken seen false

/-- Reads the front of `b :: rest`. -/
def front (b : UInt8) (rest : List UInt8) : Front :=
  if b < 0x80 then .scalar (Char.ofNat b.toNat) 1
  else match leadRule b with
    | none => .broken 1 false
    | some (need, low, high) =>
      match rest with
      | [] => .broken 1 true
      | c :: rest =>
        if low ≤ c && c ≤ high then
          continuation (b.toNat % Nat.pow 2 (6 - need) * 64 + c.toNat % 64) 2 (need - 1) rest
        else .broken 1 false

/-- Why a byte sequence is not text: the failed run and where it starts. -/
structure Invalid where
  width : Nat
  cutShort : Bool
  index : Nat
  deriving Repr

/-- The wording of a failure. -/
def Invalid.message (e : Invalid) : String :=
  if e.cutShort then "incomplete utf-8 byte sequence from index " ++ toString e.index
  else "invalid utf-8 sequence of " ++ toString e.width ++ " bytes from index " ++ toString e.index

/-- The first failure in a byte sequence whose first byte has the given index. -/
def firstInvalid (index : Nat) : List UInt8 → Option Invalid
  | [] => none
  | b :: rest =>
    match front b rest with
    | .scalar _ width => firstInvalid (index + width) (rest.drop (width - 1))
    | .broken width cutShort => some ⟨width, cutShort, index⟩
termination_by bytes => bytes.length
decreasing_by all_goals (simp only [List.length_drop, List.length_cons]; omega)

/-- The characters of a byte sequence, U+FFFD for each failed run. -/
def lossyChars : List UInt8 → List Char
  | [] => []
  | b :: rest =>
    match front b rest with
    | .scalar c width => c :: lossyChars (rest.drop (width - 1))
    | .broken width _ => '\uFFFD' :: lossyChars (rest.drop (width - 1))
termination_by bytes => bytes.length
decreasing_by all_goals (simp only [List.length_drop, List.length_cons]; omega)

/-- Strict reading. -/
def decode (bytes : ByteArray) : Except Invalid String :=
  match String.fromUTF8? bytes with
  | some s => .ok s
  | none => .error ((firstInvalid 0 bytes.toList).getD ⟨1, false, 0⟩)

/-- Lossy reading: every byte sequence is some text. -/
def lossy (bytes : ByteArray) : String :=
  match String.fromUTF8? bytes with
  | some s => s
  | none => String.ofList (lossyChars bytes.toList)

end OscHost.Text.Utf8
