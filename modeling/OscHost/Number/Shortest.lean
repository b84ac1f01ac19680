import OscHost.Number.Binary
/-!
  The shortest decimal that reads back as a given binary number.

  For one, two, … digits the two neighbours of the exact value on the grid of that many digits are
  tried; the first grid with a neighbour inside the interval of reals that round to the number
  wins, and of two such neighbours the nearer one.  All arithmetic is on natural numbers.
-/

namespace OscHost.Number

/-- A positive decimal `digits · 10^exponent`. -/
structure Decimal where
  digits : Nat
  exponent : Int
  deriving DecidableEq, Repr

namespace Decimal

/-- The count of decimal digits of a number; one for zero. -/
def width (n : Nat) : Nat := (Nat.toDigits 10 n).length

/-- The exponent of the leading digit: `10^k ≤ num / den < 10^(k+1)` for positive operands. -/
def leadingExponent (num den : Nat) : Int :=
  if den ≤ num then (width (num / den) : Int) - 1
  else
    let w := width (den / num)
    if den ≤ num * Nat.pow 10 (w - 1) then 1 - (w : Int) else -(w : Int)

/-- `num / den` in units of `10^k`, as a fraction. -/
def inUnits (num den : Nat) (k : Int) : Nat × Nat :=
  match k with
  | .ofNat j => (num, den * Nat.pow 10 j)
  | .negSucc j => (num * Nat.pow 10 (j + 1), den)

/-- Drops trailing zeros of the digits into the exponent. -/
def trim (fuel : Nat) (d : Decimal) : Decimal :=
  match fuel with
  | 0 => d
  | fuel + 1 => if d.digits % 10 = 0 ∧ d.digits ≠ 0 then trim fuel ⟨d.digits / 10, d.exponent + 1⟩ else d

end Decimal

/-- The reals that round to a number, scaled: everything from `low / den` to `high / den`, the ends
    included exactly when `closed`. -/
structure Interval where
  low : Nat
  value : Nat
  high : Nat
  den : Nat
  closed : Bool

/-- The rounding interval of `m · 2^e`.  Below a power of two the spacing halves. -/
def Interval.around (f : Format) (m : Nat) (e : Int) : Interval :=
  let narrow := m = Nat.pow 2 f.fractionBits ∧ f.leastExponent < e
  let (unit, den) := Binary.fraction 1 (e - 2)
  ⟨(4 * m - if narrow then 1 else 2) * unit, 4 * m * unit, (4 * m + 2) * unit, den, m % 2 == 0⟩

/-- Whether `d · 10^k` lies in the interval. -/
def Interval.holds (i : Interval) (d : Nat) (k : Int) : Bool :=
  let (low, base) := Decimal.inUnits i.low i.den k
  let (high, _) := Decimal.inUnits i.high i.den k
  if i.closed then low ≤ d * base && d * base ≤ high else low < d * base && d * base < high

/-- Tries grids of `n`, `n + 1`, … digits. -/
def shortestFrom (i : Interval) (lead : Int) (n : Nat) : Nat → Decimal
  | 0 => ⟨i.value / i.den, 0⟩
  | fuel + 1 =>
    let k := lead - n + 1
    let (value, base) := Decimal.inUnits i.value i.den k
    let below := value / base
    let twice := 2 * (value % base)
    match i.holds below k && below != 0, i.holds (below + 1) k with
    | true, true =>
      let up := base < twice || (twice == base && below % 2 == 1)
      ⟨if up then below + 1 else below, k⟩
    | true, false => ⟨below, k⟩
    | false, true => ⟨below + 1, k⟩
    | false, false => shortestFrom i lead (n + 1) fuel

/-- The shortest decimal of a positive number `m · 2^e` of format `f`. -/
def shortest (f : Format) (m : Nat) (e : Int) : Decimal :=
  let i := Interval.around f m e
  Decimal.trim 20 (shortestFrom i (Decimal.leadingExponent i.value i.den) 1 20)

end OscHost.Number
