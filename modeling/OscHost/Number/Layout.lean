import OscHost.Number.Shortest
/-!
  How numbers are written.

  `Layout` holds the decisions that differ between outputs; `Layout.json`,
  `Layout.jsonSingle` and `Layout.plain` are in use for shortest digits.  `general`, `fixed` and `scientific` write a set number of
  digits, rounded from the exact value with ties to even.
-/

namespace OscHost.Number

/-- Decisions of a written form: the decimal exponents written positionally (`none`: all of
    them), whether a whole number keeps one decimal place, and the words for special values. -/
structure Layout where
  positional : Option (Int × Int)
  keepPlace : Bool
  nan : String
  infinity : String

/-- Numbers inside JSON text: positional from `1e-5` to below `1e16`, else a signed exponent. -/
def Layout.json : Layout := ⟨some (-5, 16), true, "null", "null"⟩

/-- Single precision numbers inside JSON text: positional from `1e-6` to below `1e13`. -/
def Layout.jsonSingle : Layout := ⟨some (-6, 13), true, "null", "null"⟩

/-- Numbers as answers name them: the JSON form with words for the special values. -/
def Layout.exact : Layout := ⟨some (-5, 16), true, "nan", "inf"⟩

/-- Numbers shown to people: never an exponent, no needless decimal place. -/
def Layout.plain : Layout := ⟨none, false, "NaN", "inf"⟩

/-- A run of zeros. -/
def zeros (n : Nat) : String := String.ofList (List.replicate n '0')

/-- Digits with the point after the first `lead + 1` of them. -/
def placePoint (digits : String) (lead : Int) : String :=
  let count : Int := digits.length
  if lead < 0 then "0." ++ zeros (-lead - 1).toNat ++ digits
  else if count ≤ lead + 1 then digits ++ zeros (lead + 1 - count).toNat
  else
    let whole := (lead + 1).toNat
    String.ofList (digits.toList.take whole) ++ "." ++ String.ofList (digits.toList.drop whole)

/-- First digit, point, remaining digits if any. -/
def pointAfterFirst (digits : String) : String :=
  match digits.toList with
  | [] => ""
  | [c] => String.singleton c
  | c :: rest => String.singleton c ++ "." ++ String.ofList rest

namespace Layout

/-- The text of a positive decimal. -/
def decimal (l : Layout) (d : Decimal) : String :=
  let digits := toString d.digits
  let lead := d.exponent + (digits.length : Int) - 1
  let inRange := match l.positional with
    | none => true
    | some (low, high) => decide (low ≤ lead) && decide (lead < high)
  if inRange then
    let text := placePoint digits lead
    if l.keepPlace && decide (0 ≤ d.exponent) then text ++ ".0" else text
  else
    let sign := if lead < 0 then "-" else "+"
    pointAfterFirst digits ++ "e" ++ sign ++ toString lead.natAbs

/-- The text of a number of format `f`. -/
def binary (l : Layout) (f : Format) : Binary → String
  | .nan => l.nan
  | .infinite negative => (if negative && l.infinity != "null" then "-" else "") ++ l.infinity
  | .finite negative m e =>
    let sign := if negative then "-" else ""
    if m = 0 then sign ++ (if l.keepPlace then "0.0" else "0")
    else sign ++ l.decimal (shortest f m e)

/-- The text of a double. -/
def float (l : Layout) (x : Float) : String := l.binary .double (.ofFloat x)

/-- The text of a single. -/
def float32 (l : Layout) (x : Float32) : String := l.binary .single (.ofFloat32 x)

end Layout

/-- The nearest integer to `m · 2^e` in units of `10^k`, ties to even. -/
def roundedUnits (m : Nat) (e k : Int) : Nat :=
  let (num, den) := Binary.fraction m e
  let (num, den) := Decimal.inUnits num den k
  Binary.roundHalfEven num den

/-- Digits and leading exponent of `m · 2^e` rounded to `n` digits, for positive `m` and `n`. -/
def significant (m : Nat) (e : Int) (n : Nat) : String × Int :=
  let (num, den) := Binary.fraction m e
  let lead := Decimal.leadingExponent num den
  let d := roundedUnits m e (lead - n + 1)
  if d = Nat.pow 10 n then (toString (Nat.pow 10 (n - 1)), lead + 1) else (toString d, lead)

/-- The exponent field: sign and at least two digits. -/
def exponentField (k : Int) : String :=
  let digits := toString k.natAbs
  "e" ++ (if k < 0 then "-" else "+") ++ (if digits.length < 2 then "0" ++ digits else digits)

/-- Drops trailing zeros after a point, and then the point. -/
def dropPlaces (s : String) : String :=
  if s.contains '.' then
    let kept := s.toList.reverse.dropWhile (· == '0')
    String.ofList (match kept with
      | '.' :: rest => rest.reverse
      | _ => kept.reverse)
  else s

/-- `places` digits after the point. -/
def fixed (m : Nat) (e : Int) (places : Nat) : String :=
  let digits := toString (roundedUnits m e (-(places : Int)))
  if places = 0 then digits
  else
    let padded := zeros (places + 1 - digits.length) ++ digits
    let whole := padded.length - places
    String.ofList (padded.toList.take whole) ++ "." ++ String.ofList (padded.toList.drop whole)

/-- One digit, `places` more after the point, and an exponent. -/
def scientific (m : Nat) (e : Int) (places : Nat) : String :=
  let (digits, lead) := if m = 0 then (zeros (places + 1), 0) else significant m e (places + 1)
  pointAfterFirst digits ++ exponentField lead

/-- The shorter of the fixed and the scientific form at `n` significant digits; `keep` keeps
    trailing zeros. -/
def general (m : Nat) (e : Int) (n : Nat) (keep : Bool) : String :=
  let n := max n 1
  let (digits, lead) := if m = 0 then (zeros n, 0) else significant m e n
  let cut := fun s => if keep then s else dropPlaces s
  if lead < -4 || (n : Int) ≤ lead then
    cut (pointAfterFirst digits) ++ exponentField lead
  else cut (placePoint digits lead)

end OscHost.Number
