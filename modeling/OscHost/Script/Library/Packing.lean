import OscHost.Script.Library.Strings
/-!
  Binary layouts.

  A layout is a row of options, each of which stands for a value, for padding, or for a change of
  byte order or alignment.
-/

namespace OscHost.Script.Library.Packing

open Lib

/-- What an option stands for. -/
inductive Item
  | signed (size : Nat)
  | unsigned (size : Nat)
  | single
  | double
  | fixed (size : Nat)
  | prefixed (size : Nat)
  | zeroEnded
  | padding
  | alignTo (size : Nat)
  | nothing

/-- Byte order and alignment. -/
structure Order where
  little : Bool := true
  maxAlign : Nat := 1

/-- Why a layout cannot be used. -/
inductive Fault
  /-- The layout itself is refused as an argument. -/
  | layout (why : String)
  | other (text : String)

/-- The largest integer in bytes. -/
def maxSize : Nat := 16

/-- A number at the front of a layout. -/
def number? (s : List Char) : Option Nat × List Char :=
  let digits := s.takeWhile Char.isDigit
  if digits.isEmpty then (none, s)
  else (some (Number.Numeral.digitsValue 10 digits), s.dropWhile Char.isDigit)

/-- A size at the front of a layout, within limits. -/
def sizeOr (default : Nat) (s : List Char) : Except Fault (Nat × List Char) :=
  let (n, rest) := number? s
  let n := n.getD default
  if n = 0 ∨ maxSize < n then
    .error (.other ("integral size (" ++ toString n ++ ") out of limits [1,16]"))
  else .ok (n, rest)

/-- One option, with the order after it. -/
def option (o : Order) (c : Char) (rest : List Char) : Except Fault (Item × Order × List Char) := do
  match c with
  | 'b' => pure (.signed 1, o, rest)
  | 'B' => pure (.unsigned 1, o, rest)
  | 'h' => pure (.signed 2, o, rest)
  | 'H' => pure (.unsigned 2, o, rest)
  | 'l' | 'j' => pure (.signed 8, o, rest)
  | 'L' | 'J' | 'T' => pure (.unsigned 8, o, rest)
  | 'f' => pure (.single, o, rest)
  | 'd' | 'n' => pure (.double, o, rest)
  | 'i' => do
    let (n, rest) ← sizeOr 4 rest
    pure (.signed n, o, rest)
  | 'I' => do
    let (n, rest) ← sizeOr 4 rest
    pure (.unsigned n, o, rest)
  | 's' => do
    let (n, rest) ← sizeOr 8 rest
    pure (.prefixed n, o, rest)
  | 'c' =>
    match number? rest with
    | (some n, rest) => pure (.fixed n, o, rest)
    | (none, _) => throw (.other "missing size for format option 'c'")
  | 'z' => pure (.zeroEnded, o, rest)
  | 'x' => pure (.padding, o, rest)
  | 'X' => pure (.alignTo 0, o, rest)
  | ' ' => pure (.nothing, o, rest)
  | '<' | '=' => pure (.nothing, { o with little := true }, rest)
  | '>' => pure (.nothing, { o with little := false }, rest)
  | '!' => do
    let (n, rest) ← sizeOr 8 rest
    pure (.nothing, { o with maxAlign := n }, rest)
  | c => throw (.other ("invalid format option '" ++ String.singleton c ++ "'"))

/-- The size that decides the alignment of an item. -/
def Item.natural : Item → Nat
  | .signed n | .unsigned n | .prefixed n => n
  | .single => 4
  | .double => 8
  | _ => 0

/-- How many bytes bring a position to an alignment. -/
def gap (o : Order) (natural position : Nat) : Except Fault Nat :=
  let align := min natural o.maxAlign
  if align ≤ 1 then .ok 0
  else if align &&& (align - 1) ≠ 0 then .error (.layout "format asks for alignment not power of 2")
  else .ok ((align - position % align) % align)

/-- The next option that stands for something, with the padding before it. -/
def next (o : Order) (position : Nat) : List Char →
    Except Fault (Option (Item × Nat × Order × List Char))
  | [] => .ok none
  | c :: rest => do
    let (item, o, rest) ← option o c rest
    match item with
    | .alignTo _ =>
      match rest with
      | [] => throw (.layout "invalid next option for option 'X'")
      | d :: after => do
        let (following, o, after) ← option o d after
        if following.natural = 0 then throw (.layout "invalid next option for option 'X'")
        else pure (some (.nothing, ← gap o following.natural position, o, after))
    | item => pure (some (item, ← gap o item.natural position, o, rest))

/-- Reports a fault of a layout. -/
def useLayout {α : Type} (r : Except Fault α) : Lib α :=
  match r with
  | .ok a => pure a
  | .error (.layout why) => badArgument 1 why.toUTF8
  | .error (.other text) => raise text.toUTF8

/-- The low bytes of a number, the lowest first. -/
def lowBytes : (size n : Nat) → List UInt8
  | 0, _ => []
  | size + 1, n => (n % 256).toUInt8 :: lowBytes size (n / 256)

/-- Bytes of a number in some order. -/
def numberBytes (o : Order) (size : Nat) (n : Int) : Bytes :=
  let bytes := lowBytes size (n % (Nat.pow 2 (8 * size) : Nat)).toNat
  ⟨(if o.little then bytes else bytes.reverse).toArray⟩

/-- The number that bytes write in some order. -/
def bytesNumber (o : Order) (b : Bytes) : Nat :=
  let bytes := if o.little then b.toList.reverse else b.toList
  bytes.foldl (fun n c => n * 256 + c.toNat) 0

/-- Bytes of zeros. -/
def zeros (n : Nat) : Bytes := ⟨Array.replicate n 0⟩

/-- Packs the arguments from `n` on. -/
def packFrom (args : Args) : (fuel : Nat) → Order → (n : Nat) → List Char → Bytes → Lib Bytes
  | 0, _, _, _, acc => pure acc
  | fuel + 1, o, n, layout, acc => do
    match ← useLayout (next o acc.size layout) with
    | none => pure acc
    | some (item, padding, o, rest) =>
      let acc := acc ++ zeros padding
      let go (n : Nat) (b : Bytes) : Lib Bytes := packFrom args fuel o n rest (acc ++ b)
      match item with
      | .signed size => do
        let i := (← intArg args n).toInt
        if size < 8 ∧ (i < -(Nat.pow 2 (8 * size - 1) : Nat) ∨ (Nat.pow 2 (8 * size - 1) : Nat) ≤ i) then
          badArgument n "integer overflow"
        else go (n + 1) (numberBytes o size i)
      | .unsigned size => do
        let i ← intArg args n
        if size < 8 ∧ Nat.pow 2 (8 * size) ≤ i.toUInt64.toNat then badArgument n "unsigned overflow"
        else go (n + 1) (numberBytes o size (if size ≤ 8 then i.toInt else i.toUInt64.toNat))
      | .single => do
        let x ← floatArg args n
        go (n + 1) (numberBytes o 4 x.toFloat32.toBits.toNat)
      | .double => do
        let x ← floatArg args n
        go (n + 1) (numberBytes o 8 x.toBits.toNat)
      | .fixed size => do
        let s ← textArg args n
        if size < s.size then badArgument n "string longer than given size"
        else go (n + 1) (s ++ zeros (size - s.size))
      | .prefixed size => do
        let s ← textArg args n
        if size < 8 ∧ Nat.pow 2 (8 * size) ≤ s.size then
          badArgument n "string length does not fit in given size"
        else go (n + 1) (numberBytes o size s.size ++ s)
      | .zeroEnded => do
        let s ← textArg args n
        if s.toList.contains 0 then badArgument n "string contains zeros" else go (n + 1) (s.push 0)
      | .padding => go n (zeros 1)
      | _ => go n ByteArray.empty

def strPack (args : Args) : Lib (List Value) := do
  let layout := (← textArg args 1).toChars
  return [.string (← packFrom args (layout.length + 1) {} 2 layout ByteArray.empty)]

/-- The size of what a layout packs. -/
def sizeFrom : (fuel : Nat) → Order → List Char → (total : Nat) → Lib Nat
  | 0, _, _, total => pure total
  | fuel + 1, o, layout, total => do
    match ← useLayout (next o total layout) with
    | none => pure total
    | some (item, padding, o, rest) =>
      match item with
      | .prefixed _ | .zeroEnded => badArgument 1 "variable-length format"
      | .fixed n => sizeFrom fuel o rest (total + padding + n)
      | .padding => sizeFrom fuel o rest (total + padding + 1)
      | item => sizeFrom fuel o rest (total + padding + item.natural)

def strPackSize (args : Args) : Lib (List Value) := do
  let layout := (← textArg args 1).toChars
  return [.int (Int64.ofNat (← sizeFrom (layout.length + 1) {} layout 0))]

/-- The integer that bytes write. -/
def unpackInteger (o : Order) (isSigned : Bool) (b : Bytes) : Lib Value := do
  let n := bytesNumber o b
  let bits := 8 * b.size
  let i : Int := if isSigned ∧ Nat.pow 2 (bits - 1) ≤ n then n - (Nat.pow 2 bits : Nat) else n
  if 64 < bits ∧ (if isSigned then i < -0x8000000000000000 ∨ 0x8000000000000000 ≤ i else 0x10000000000000000 ≤ i) then
    raise (toString b.size ++ "-byte integer does not fit into Lua Integer").toUTF8
  else pure (.int (Int64.ofInt i))

/-- Unpacks values from a position on; yields them and the position after. -/
def unpackFrom (data : Bytes) : (fuel : Nat) → Order → List Char → (position : Nat) →
    (acc : List Value) → Lib (List Value × Nat)
  | 0, _, _, position, acc => pure (acc.reverse, position)
  | fuel + 1, o, layout, position, acc => do
    match ← useLayout (next o position layout) with
    | none => pure (acc.reverse, position)
    | some (item, padding, o, rest) =>
      let take (start size : Nat) : Lib Bytes :=
        if data.size < start + size then badArgument 2 "data string too short"
        else pure (data.extract start (start + size))
      let start := position + padding
      let go (v : Value) (position : Nat) := unpackFrom data fuel o rest position (v :: acc)
      match item with
      | .signed size => do go (← unpackInteger o true (← take start size)) (start + size)
      | .unsigned size => do go (← unpackInteger o false (← take start size)) (start + size)
      | .single => do
        let bits := bytesNumber o (← take start 4)
        go (.ofFloat (Float32.ofBits bits.toUInt32).toFloat) (start + 4)
      | .double => do
        let bits := bytesNumber o (← take start 8)
        go (.ofFloat (Float.ofBits bits.toUInt64)) (start + 8)
      | .fixed size => do go (.string (← take start size)) (start + size)
      | .prefixed size => do
        let n := bytesNumber o (← take start size)
        go (.string (← take (start + size) n)) (start + size + n)
      | .zeroEnded => do
        let s := (data.extract start data.size).toList.takeWhile (· != 0)
        if data.size ≤ start + s.length then badArgument 2 "unfinished string for format 'z'"
        else go (.string ⟨s.toArray⟩) (start + s.length + 1)
      | .padding => do
        let _ ← take start 1
        unpackFrom data fuel o rest (start + 1) acc
      | _ => do
        let _ ← take start 0
        unpackFrom data fuel o rest start acc

def strUnpack (args : Args) : Lib (List Value) := do
  let layout := (← textArg args 1).toChars
  let data ← textArg args 2
  let start := Strings.fromStart (← intArgOr args 3 1).toInt data.size - 1
  if data.size < start then badArgument 3 "initial position out of string"
  else
    let (values, position) ← unpackFrom data (layout.length + 1) {} layout start []
    return values ++ [.int (Int64.ofNat (position + 1))]

end OscHost.Script.Library.Packing
