/-!
  Binary floating point numbers read as exact values.

  A finite number is `± m · 2^e` with natural `m`; nothing below this module rounds.  Texts,
  durations and integer conversions are all computed from the value found here, so that what they
  say about a number is plain integer arithmetic.
-/

namespace OscHost.Number

/-- The exact value behind the bits of a binary floating point number. -/
inductive Binary
  | nan
  | infinite (negative : Bool)
  | finite (negative : Bool) (mantissa : Nat) (exponent : Int)
  deriving DecidableEq, Repr

/-- The shape of an interchange format: stored fraction bits and exponent bits. -/
structure Format where
  fractionBits : Nat
  exponentBits : Nat

/-- Double precision. -/
def Format.double : Format := ⟨52, 11⟩

/-- Single precision. -/
def Format.single : Format := ⟨23, 8⟩

namespace Format

/-- The exponent of the last fraction bit of the smallest numbers. -/
def leastExponent (f : Format) : Int :=
  2 - (Nat.pow 2 (f.exponentBits - 1) : Nat) - (f.fractionBits : Int)

/-- Reads a bit pattern: sign, biased exponent, fraction with a hidden leading one unless the
    exponent field is zero. -/
def decode (f : Format) (bits : Nat) : Binary :=
  let fraction := bits % Nat.pow 2 f.fractionBits
  let biased := bits / Nat.pow 2 f.fractionBits % Nat.pow 2 f.exponentBits
  let negative := bits / Nat.pow 2 (f.fractionBits + f.exponentBits) % 2 == 1
  if biased = Nat.pow 2 f.exponentBits - 1 then
    if fraction = 0 then .infinite negative else .nan
  else if biased = 0 then .finite negative fraction f.leastExponent
  else .finite negative (Nat.pow 2 f.fractionBits + fraction) (f.leastExponent + (biased - 1 : Nat))

end Format

/-- The double nearest to an integer of 64 bits, halves going to the even neighbour. -/
def ofWord (n : Int64) : Float := .ofModel (.ofInt64 n)

namespace Binary

/-- The value of a double. -/
def ofFloat (x : Float) : Binary := Format.double.decode x.toBits.toNat

/-- The value of a single. -/
def ofFloat32 (x : Float32) : Binary := Format.single.decode x.toBits.toNat

/-- `m · 2^e` as a fraction `numerator / denominator`. -/
def fraction (m : Nat) (e : Int) : Nat × Nat :=
  match e with
  | .ofNat k => (m * Nat.pow 2 k, 1)
  | .negSucc k => (m, Nat.pow 2 (k + 1))

/-- Whether a number is finite and above zero. -/
def isPositive : Binary → Bool
  | .finite negative m _ => !negative && m != 0
  | _ => false

/-- The integer with the given sign and size. -/
def signed (negative : Bool) (n : Nat) : Int := if negative then -(n : Int) else n

/-- The nearest natural number to `num / den`, halves going up. -/
def roundHalfUp (num den : Nat) : Nat := (2 * num + den) / (2 * den)

/-- The nearest natural number to `num / den`, halves going to the even neighbour. -/
def roundHalfEven (num den : Nat) : Nat :=
  let q := num / den
  let r := num % den
  if 2 * r < den then q else if 2 * r > den then q + 1 else q + q % 2

/-- The integer nearest to a number, halves going away from zero; nothing for NaN and infinities. -/
def nearest : Binary → Option Int
  | .finite negative m e =>
    let (num, den) := fraction m e
    some (signed negative (roundHalfUp num den))
  | _ => none

/-- The exact integer a number is, if it is one. -/
def toInt? : Binary → Option Int
  | .finite negative m e =>
    let (num, den) := fraction m e
    if num % den = 0 then some (signed negative (num / den)) else none
  | _ => none

/-- The largest integer not above a finite number. -/
def floor? : Binary → Option Int
  | .finite negative m e =>
    let (num, den) := fraction m e
    some ((signed negative num).fdiv den)
  | _ => none

end Binary

/-- The truncated remainder of two doubles, exact: its sign is the sign of the dividend. -/
def remainder (x y : Float) : Float :=
  match Binary.ofFloat x, Binary.ofFloat y with
  | .finite negative m e, .finite _ m' e' =>
    if m' = 0 then 0.0 / 0.0
    else
      let low := min e e'
      let a := m * Nat.pow 2 (e - low).toNat
      let b := m' * Nat.pow 2 (e' - low).toNat
      let r := Float.scaleB (Float.ofNat (a % b)) low
      if negative then -r else r
  | .finite .., .infinite _ => x
  | _, _ => 0.0 / 0.0

end OscHost.Number
