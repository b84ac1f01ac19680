/-!
  Byte strings, the texts of the script language.

  A script text is any sequence of bytes.  Where its parts have a meaning, as in source code,
  patterns and formats, it is read as a list of characters below 256, one for each byte.
-/

namespace OscHost.Script

/-- The bytes of a text. -/
abbrev Bytes := ByteArray

namespace Bytes

/-- The bytes of a text in UTF-8. -/
def ofText (s : String) : Bytes := s.toUTF8

/-- The bytes that characters below 256 stand for. -/
def ofChars (cs : List Char) : Bytes := cs.foldl (fun b c => b.push c.toNat.toUInt8) ByteArray.empty

/-- One character for each byte. -/
def toChars (b : Bytes) : List Char := b.toList.map fun n => Char.ofNat n.toNat

/-- One byte. -/
def single (n : UInt8) : Bytes := ByteArray.empty.push n

/-- The bytes from index `i` up to but not including `j`. -/
def slice (b : Bytes) (i j : Nat) : Bytes := b.extract i j

/-- Whether one text comes before another: bytes in order, a shorter text before its extensions. -/
def less (a b : Bytes) : Bool := go 0 (a.size + 1)
where
  go (i : Nat) : Nat → Bool
    | 0 => false
    | fuel + 1 =>
      if hb : i < b.size then
        if ha : i < a.size then
          if a[i] < b[i] then true else if b[i] < a[i] then false else go (i + 1) fuel
        else true
      else false

/-- Texts put together. -/
def join (parts : List Bytes) : Bytes := parts.foldl (· ++ ·) ByteArray.empty

end Bytes

/-- The bytes of a text in UTF-8. -/
instance : Coe String Bytes := ⟨Bytes.ofText⟩

end OscHost.Script
