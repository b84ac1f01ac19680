import OscHost.Number.Binary
/-!
  Numerals read as numbers.

  A numeral is decimal or hexadecimal, whole or with a point and a scaling exponent.  Whole decimal
  numerals that fit 64 bits are integers and larger ones doubles; whole hexadecimal numerals are
  integers modulo `2^64`.  Doubles are the nearest to the exact value, ties to even.
-/

namespace OscHost.Number

/-- The double nearest to `m · 2^e`, ties to even. -/
def nearestDouble (m : Nat) (e : Int) : Float :=
  if m = 0 then 0.0
  else
    let last := max (e + (Nat.log2 m : Int) - 52) (-1074)
    if e < last then
      Float.scaleB (Float.ofNat (Binary.roundHalfEven m (Nat.pow 2 (last - e).toNat))) last
    else Float.scaleB (Float.ofNat m) e

/-- The double nearest to `m · 10^e`, ties to even. -/
def nearestDecimal (m : Nat) (e : Int) : Float :=
  let size := e + (Nat.log2 m : Int) / 3
  if m = 0 || size < -400 then 0.0
  else if 400 < e then 1.0 / 0.0
  else if 0 ≤ e then Float.ofScientific m false e.toNat
  else Float.ofScientific m true (-e).toNat

/-- A number with its kind. -/
inductive Numeral
  | int (n : Int64)
  | float (x : Float)

namespace Numeral

/-- The value of a digit in bases up to sixteen. -/
def digitValue (c : Char) : Nat :=
  if c.isDigit then c.toNat - '0'.toNat
  else if 'a' ≤ c ∧ c ≤ 'f' then c.toNat - 'a'.toNat + 10
  else if 'A' ≤ c ∧ c ≤ 'F' then c.toNat - 'A'.toNat + 10
  else 16

/-- Whether a character is a digit of the base. -/
def isDigitOf (base : Nat) (c : Char) : Bool := digitValue c < base

/-- The number some digits write. -/
def digitsValue (base : Nat) (digits : List Char) : Nat :=
  digits.foldl (fun n c => n * base + digitValue c) 0

/-- The blanks that may surround a numeral. -/
def isBlank (c : Char) : Bool := c == ' ' || ('\t' ≤ c && c ≤ '\r')

/-- A decimal exponent field, if one is well formed at the front. -/
def exponentField? (marks : List Char) (s : List Char) : Option (Int × List Char) :=
  match s with
  | [] => none
  | c :: rest =>
    if ¬ marks.contains c then none
    else
      let (down, rest) := match rest with
        | '-' :: rest => (true, rest)
        | '+' :: rest => (false, rest)
        | rest => (false, rest)
      let digits := rest.takeWhile Char.isDigit
      if digits.isEmpty then none
      else
        let n := digitsValue 10 digits
        some (if down then -(n : Int) else n, rest.dropWhile Char.isDigit)

/-- The unsigned number at the front of `s`, and what follows it. -/
def unsigned? (s : List Char) : Option (Numeral × List Char) :=
  let (base, marks, body) := match s with
    | '0' :: 'x' :: rest | '0' :: 'X' :: rest => (16, ['p', 'P'], rest)
    | s => (10, ['e', 'E'], s)
  let whole := body.takeWhile (isDigitOf base)
  let rest := body.dropWhile (isDigitOf base)
  let (point, places, rest) := match rest with
    | '.' :: rest => (true, rest.takeWhile (isDigitOf base), rest.dropWhile (isDigitOf base))
    | rest => (false, [], rest)
  if whole.isEmpty && places.isEmpty then none
  else
    let m := digitsValue base (whole ++ places)
    let scaled := exponentField? marks rest
    let float (e : Int) : Numeral :=
      .float (if base = 16 then nearestDouble m (e - 4 * places.length)
        else nearestDecimal m (e - places.length))
    match point, scaled with
    | _, some (e, rest) => some (float e, rest)
    | true, none => some (float 0, rest)
    | false, none =>
      if base = 16 then some (.int (Int64.ofNat m), rest)
      else if m < 0x8000000000000000 then some (.int (Int64.ofNat m), rest)
      else some (float 0, rest)

/-- The opposite number. -/
def negate : Numeral → Numeral
  | .int n => .int (-n)
  | .float x => .float (-x)

/-- A numeral with an optional sign and surrounding blanks, and nothing else. -/
def parse? (s : List Char) : Option Numeral :=
  let s := s.dropWhile isBlank
  let (negative, s) := match s with
    | '-' :: rest => (true, rest)
    | '+' :: rest => (false, rest)
    | s => (false, s)
  match unsigned? s with
  | none => none
  | some (n, rest) =>
    if rest.all isBlank then
      -- the least integer has no positive counterpart
      match negative, n with
      | true, .float x =>
        if s.all (fun c => c.isDigit || isBlank c) && digitsValue 10 (s.takeWhile Char.isDigit) = 0x8000000000000000
        then some (.int Int64.minValue) else some (.float (-x))
      | true, n => some n.negate
      | false, n => some n
    else none

end Numeral

end OscHost.Number
