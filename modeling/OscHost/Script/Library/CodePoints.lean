import OscHost.Script.Library.Strings
import OscHost.Script.Token
/-!
  Texts as sequences of code points.

  Code points up to `2^31` have an encoding; strict functions accept only those of Unicode that are
  no surrogates.
-/

namespace OscHost.Script.Library.CodePoints

open Lib

/-- Whether a byte continues a sequence. -/
def continues (c : UInt8) : Bool := c &&& 0xC0 == 0x80

/-- The least code point that needs a sequence of so many bytes. -/
def least : Nat → Nat
  | 2 => 0x80
  | 3 => 0x800
  | 4 => 0x10000
  | 5 => 0x200000
  | 6 => 0x4000000
  | _ => 0

/-- How many bytes a sequence takes whose first byte is given; zero when it is no first byte. -/
def widthOf (c : UInt8) : Nat :=
  if c < 0x80 then 1
  else if c < 0xC0 then 0
  else if c < 0xE0 then 2
  else if c < 0xF0 then 3
  else if c < 0xF8 then 4
  else if c < 0xFC then 5
  else if c < 0xFE then 6
  else 0

/-- The code point at a place, and the place after it. -/
def decodeAt (s : Bytes) (i : Nat) (strict : Bool) : Option (Nat × Nat) :=
  let c := Pattern.at0 s i
  let width := widthOf c
  if width = 0 ∨ s.size < i + width then none
  else if width = 1 then some (c.toNat, i + 1)
  else
    let rest := (s.extract (i + 1) (i + width)).toList
    if ! rest.all continues then none
    else
      let value := rest.foldl (fun n b => n * 64 + b.toNat % 64) (c.toNat % Nat.pow 2 (7 - width))
      if value < least width then none
      else if strict ∧ (0x10FFFF < value ∨ (0xD800 ≤ value ∧ value ≤ 0xDFFF)) then none
      else some (value, i + width)

/-- The bytes of a code point. -/
def encode (n : Nat) : Bytes := Bytes.ofChars (Token.extendedUtf8 n)

/-- A place that counts from the end when it is negative. -/
def place (i : Int) (size : Nat) : Int :=
  if 0 ≤ i then i else if size < i.natAbs then 0 else size + i + 1

def utfChar (args : Args) : Lib (List Value) := do
  let rec go (n : Nat) : (count : Nat) → Bytes → Lib Bytes
    | 0, acc => pure acc
    | count + 1, acc => do
      let c := (← intArg args n).toUInt64.toNat
      if 0x7FFFFFFF < c then badArgument n "value out of range"
      else go (n + 1) count (acc ++ encode c)
  return [.string (← go 1 args.length ByteArray.empty)]

/-- The code points between two places, counted from zero. -/
def codesBetween (s : Bytes) (stop : Nat) (strict : Bool) : (fuel i : Nat) → (acc : List Nat) →
    Option (List Nat)
  | 0, _, acc => some acc.reverse
  | fuel + 1, i, acc =>
    if stop ≤ i then some acc.reverse
    else match decodeAt s i strict with
      | none => none
      | some (c, next) => codesBetween s stop strict fuel next (c :: acc)

def utfCodepoint (args : Args) : Lib (List Value) := do
  let s ← textArg args 1
  let first := place (← intArgOr args 2 1).toInt s.size
  let last := place (← intArgOr args 3 (Int64.ofInt first)).toInt s.size
  if first < 1 then badArgument 2 "out of bounds"
  else if (s.size : Int) < last then badArgument 3 "out of bounds"
  else if last < first then return []
  else
    match codesBetween s last.toNat (! (args.get 4).isTrue) (s.size + 1) (first.toNat - 1) [] with
    | some codes => return codes.map fun c => .int (Int64.ofNat c)
    | none => raise "invalid UTF-8 code"

/-- How many code points lie between two places, or the place of the first fault. -/
def countBetween (s : Bytes) (stop : Int) (strict : Bool) : (fuel i count : Nat) → Except Nat Nat
  | 0, _, count => .ok count
  | fuel + 1, i, count =>
    if stop < i then .ok count
    else match decodeAt s i strict with
      | none => .error i
      | some (_, next) => countBetween s stop strict fuel next (count + 1)

def utfLen (args : Args) : Lib (List Value) := do
  let s ← textArg args 1
  let first := place (← intArgOr args 2 1).toInt s.size
  let last := place (← intArgOr args 3 (-1)).toInt s.size
  if first < 1 ∨ (s.size : Int) < first - 1 then badArgument 2 "initial position out of bounds"
  else if (s.size : Int) ≤ last - 1 then badArgument 3 "final position out of bounds"
  else
    match countBetween s (last - 1) (! (args.get 4).isTrue) (s.size + 1) (first.toNat - 1) 0 with
    | .ok n => return [.int (Int64.ofNat n)]
    | .error i => return [.nil, .int (Int64.ofNat (i + 1))]

/-- Goes back to the first byte of a sequence. -/
def backToStart (s : Bytes) : (i : Nat) → Nat
  | 0 => 0
  | i + 1 => if continues (Pattern.at0 s (i + 1)) then backToStart s i else i + 1

/-- Goes back by some code points. -/
def back (s : Bytes) : (n i : Nat) → Option Nat
  | 0, i => some i
  | _ + 1, 0 => none
  | n + 1, i + 1 => back s n (backToStart s i)

/-- The place after the sequence at a place. -/
def skip (s : Bytes) : (fuel i : Nat) → Nat
  | 0, i => i
  | fuel + 1, i => if continues (Pattern.at0 s (i + 1)) then skip s fuel (i + 1) else i + 1

/-- Goes on by some code points. -/
def forward (s : Bytes) : (n i : Nat) → Option Nat
  | 0, i => some i
  | n + 1, i => if s.size ≤ i then none else forward s n (skip s s.size i)

def utfOffset (args : Args) : Lib (List Value) := do
  let s ← textArg args 1
  let n := (← intArg args 2).toInt
  let default : Int := if 0 < n then 1 else s.size + 1
  let start := place (← intArgOr args 3 (Int64.ofInt default)).toInt s.size
  if start < 1 ∨ (s.size : Int) < start - 1 then badArgument 3 "position out of bounds"
  else
    let i := start.toNat - 1
    let answer (r : Option Nat) : List Value :=
      match r with
      | some i => [.int (Int64.ofNat (i + 1))]
      | none => [.nil]
    if n = 0 then return answer (some (backToStart s i))
    else if continues (Pattern.at0 s i) then raise "initial position is a continuation byte"
    else if n < 0 then return answer (back s n.natAbs i)
    else return answer (forward s (n.toNat - 1) i)

def utfCodes (args : Args) : Lib (List Value) := do
  let s ← textArg args 1
  if continues (Pattern.at0 s 0) then badArgument 1 "invalid UTF-8 code"
  else return [.builtin (.utfCodesNext (args.get 2).isTrue), .string s, .int 0]

def utfCodesNext (lax : Bool) (args : Args) : Lib (List Value) := do
  let s ← textArg args 1
  let n := (← intArg args 2).toUInt64.toNat
  let i := if n = 0 then 0 else if n ≤ s.size then skip s s.size (n - 1) else n
  if s.size ≤ i then return []
  else
    match decodeAt s i (! lax) with
    | some (c, next) =>
      if continues (Pattern.at0 s next) then raise "invalid UTF-8 code"
      else return [.int (Int64.ofNat (i + 1)), .int (Int64.ofNat c)]
    | none => raise "invalid UTF-8 code"

end OscHost.Script.Library.CodePoints
