import Mathlib.Algebra.Order.Field.Power
import Mathlib.Algebra.Order.Field.Rat
import Mathlib.Tactic.Linarith
import Mathlib.Tactic.NormNum.Pow
import Mathlib.Tactic.Positivity
import Mathlib.Tactic.Ring
import OscHost.Number.Shortest
/-!
  What the shortest digits stand for.

  The reals that round to a double `m · 2^e` are an interval around it, and the intervals of different
  doubles have no real in common (`Interval.around_apart`).  The shortest decimal is looked for on
  grids that grow finer, and eighteen digits are always enough: there the next point of the grid above
  the number is nearer than half the spacing of doubles.  So the decimal that is found lies in the
  interval (`contains_shortest`) and belongs to no other double.
-/

namespace OscHost.Number

/-! ## Powers and units -/

theorem zpow_eq_div {b : ℚ} (hb : b ≠ 0) (k : ℤ) : b ^ k = b ^ k.toNat / b ^ (-k).toNat := by
  have hk : k = k.toNat - (-k).toNat := by omega
  conv_lhs => rw [hk]
  rw [zpow_sub₀ hb, zpow_natCast, zpow_natCast]

theorem Binary.fraction_eq (m : Nat) (e : Int) :
    fraction m e = (m * 2 ^ e.toNat, 2 ^ (-e).toNat) := by
  cases e with
  | ofNat k =>
    rw [Int.ofNat_eq_natCast, show (-(k : Int)).toNat = 0 by omega]
    rfl
  | negSucc k => exact Prod.ext (Nat.mul_one m).symm rfl

namespace Decimal

theorem inUnits_eq (num den : Nat) (k : Int) :
    inUnits num den k = (num * 10 ^ (-k).toNat, den * 10 ^ k.toNat) := by
  cases k with
  | ofNat k =>
    rw [Int.ofNat_eq_natCast, show (-(k : Int)).toNat = 0 by omega, pow_zero, Nat.mul_one]
    rfl
  | negSucc k => exact Prod.ext rfl (Nat.mul_one den).symm

/-- The number that a decimal stands for. -/
def value (d : Decimal) : ℚ := d.digits * 10 ^ d.exponent

/-- Zeros at the end say nothing. -/
theorem value_trim (fuel : Nat) (d : Decimal) : (trim fuel d).value = d.value := by
  induction fuel generalizing d with
  | zero => rfl
  | succ fuel ih =>
    rw [trim]
    split
    · rename_i hd
      have hdigits : (d.digits : ℚ) = 10 * (d.digits / 10 : Nat) := by
        exact_mod_cast (show d.digits = 10 * (d.digits / 10) by omega)
      rw [ih, value, value, zpow_add_one₀ (by norm_num), hdigits]
      ring
    · rfl

theorem width_pos (n : Nat) : 0 < width n := Nat.length_toDigits_pos

theorem lt_pow_width (n : Nat) : n < 10 ^ width n :=
  (Nat.length_toDigits_le_iff (by decide) (width_pos n)).mp (Nat.le_refl _)

theorem pow_width_le {n : Nat} (hn : 0 < n) : 10 ^ (width n - 1) ≤ n := by
  by_cases hone : width n = 1
  · rw [hone]
    exact hn
  · have hpos := width_pos n
    by_contra hlt
    have hle : width n ≤ width n - 1 :=
      (Nat.length_toDigits_le_iff (by decide) (by omega)).mpr (Nat.lt_of_not_le hlt)
    omega

/-- A fraction is not below the power of ten of its leading digit. -/
theorem pow_leadingExponent_le (num den : Nat) (hnum : 0 < num) (hden : 0 < den) :
    (10 : ℚ) ^ leadingExponent num den * den ≤ num := by
  unfold leadingExponent
  split
  · rename_i hle
    -- one or more: the width of the whole part
    have hquot : 0 < num / den := Nat.div_pos hle hden
    have hwidth := width_pos (num / den)
    have hpow : 10 ^ (width (num / den) - 1) * den ≤ num :=
      Nat.le_trans (Nat.mul_le_mul_right den (pow_width_le hquot)) (Nat.div_mul_le_self num den)
    rw [show (width (num / den) : Int) - 1 = (width (num / den) - 1 : Nat) by omega, zpow_natCast]
    exact_mod_cast hpow
  · -- less than one: the width of the inverse, or one more
    have hwidth := width_pos (den / num)
    dsimp only
    generalize hw : width (den / num) = w at hwidth ⊢
    split
    · rename_i hle
      rw [show 1 - (w : Int) = -(w - 1 : Nat) by omega, zpow_neg, zpow_natCast,
        inv_mul_le_iff₀ (by positivity), mul_comm]
      exact_mod_cast hle
    · have hlt : den < num * 10 ^ w := by
        rw [Nat.mul_comm, ← Nat.div_lt_iff_lt_mul hnum, ← hw]
        exact lt_pow_width _
      rw [zpow_neg, zpow_natCast, inv_mul_le_iff₀ (by positivity), mul_comm]
      exact_mod_cast hlt.le

end Decimal

/-! ## Intervals -/

namespace Interval

variable {i : Interval} {q : ℚ} {d : Nat} {k : Int}

/-- Whether a number is in an interval. -/
def Contains (i : Interval) (q : ℚ) : Prop :=
  if i.closed then (i.low : ℚ) ≤ q * i.den ∧ q * i.den ≤ i.high
  else (i.low : ℚ) < q * i.den ∧ q * i.den < i.high

theorem units_eq (den d : Nat) (k : Int) :
    ((d * (den * 10 ^ k.toNat) : Nat) : ℚ) = d * 10 ^ k * den * 10 ^ (-k).toNat := by
  have hne : (10 : ℚ) ^ (-k).toNat ≠ 0 := by positivity
  rw [zpow_eq_div (by norm_num) k, ← mul_div_assoc, div_mul_eq_mul_div, div_mul_cancel₀ _ hne]
  push_cast
  ring

theorem units_le_iff (num den d : Nat) (k : Int) :
    num * 10 ^ (-k).toNat ≤ d * (den * 10 ^ k.toNat) ↔ (num : ℚ) ≤ d * 10 ^ k * den := by
  have hpos : (0 : ℚ) < 10 ^ (-k).toNat := by positivity
  rw [← Nat.cast_le (α := ℚ), units_eq]
  push_cast
  exact mul_le_mul_iff_of_pos_right hpos

theorem le_units_iff (num den d : Nat) (k : Int) :
    d * (den * 10 ^ k.toNat) ≤ num * 10 ^ (-k).toNat ↔ d * 10 ^ k * den ≤ (num : ℚ) := by
  have hpos : (0 : ℚ) < 10 ^ (-k).toNat := by positivity
  rw [← Nat.cast_le (α := ℚ), units_eq]
  push_cast
  exact mul_le_mul_iff_of_pos_right hpos

theorem holds_iff (i : Interval) (d : Nat) (k : Int) :
    i.holds d k = true ↔ i.Contains (d * 10 ^ k) := by
  unfold holds Contains
  rw [Decimal.inUnits_eq, Decimal.inUnits_eq]
  dsimp only
  split
  · rw [Bool.and_eq_true, decide_eq_true_iff, decide_eq_true_iff, units_le_iff, le_units_iff]
  · rw [Bool.and_eq_true, decide_eq_true_iff, decide_eq_true_iff, ← Nat.not_le, ← Nat.not_le,
      units_le_iff, le_units_iff, not_le, not_le]

/-- What is between the ends is in the interval. -/
theorem contains_of_lt (hlow : (i.low : ℚ) < q * i.den) (hhigh : q * i.den < i.high) :
    i.Contains q := by
  unfold Contains
  split
  · exact ⟨hlow.le, hhigh.le⟩
  · exact ⟨hlow, hhigh⟩

/-- The number of the points of a grid that are not above the number in the middle. -/
def below (i : Interval) (k : Int) : Nat :=
  (Decimal.inUnits i.value i.den k).1 / (Decimal.inUnits i.value i.den k).2

theorem below_le (i : Interval) (k : Int) : (i.below k : ℚ) * 10 ^ k * i.den ≤ i.value := by
  rw [← le_units_iff, below, Decimal.inUnits_eq]
  exact Nat.div_mul_le_self _ _

theorem lt_below_succ (i : Interval) (hden : 0 < i.den) (k : Int) :
    (i.value : ℚ) < (i.below k + 1 : Nat) * 10 ^ k * i.den := by
  rw [← not_le, ← le_units_iff, Nat.not_le, below, Decimal.inUnits_eq]
  exact Nat.lt_mul_of_div_lt (Nat.lt_succ_self _) (by positivity)

/-- Some grid holds a neighbour of the number in the middle that is in the interval. -/
theorem contains_shortestFrom {lead : Int} (last : Nat)
    (hlast : i.Contains ((i.below (lead - last + 1) + 1 : Nat) * 10 ^ (lead - last + 1)))
    (fuel n : Nat) (hn : n ≤ last) (hfuel : last < n + fuel) :
    i.Contains (shortestFrom i lead n fuel).value := by
  induction fuel generalizing n with
  | zero => omega
  | succ fuel ih =>
    rw [shortestFrom]
    dsimp only
    split
    · -- both neighbours are in the interval, so either choice is
      rename_i hbelow habove
      rw [Bool.and_eq_true, holds_iff] at hbelow
      rw [holds_iff] at habove
      rw [Decimal.value]
      split
      · exact habove
      · exact hbelow.1
    · rename_i hbelow _
      rw [Bool.and_eq_true, holds_iff] at hbelow
      exact hbelow.1
    · rename_i _ habove
      exact (holds_iff _ _ _).mp habove
    · rename_i _ habove
      -- no hit on this grid; on the last one the neighbour above would have been one
      rcases Nat.lt_or_eq_of_le hn with hlt | rfl
      · exact ih (n + 1) hlt (by omega)
      · exact absurd (((holds_iff _ _ _).mpr hlast).symm.trans habove) (by decide)

end Interval

/-! ## The interval of a number -/

/-- Whether `m · 2^e` is as a format keeps its numbers. -/
structure Format.Keeps (f : Format) (m : Nat) (e : Int) : Prop where
  short : m < 2 ^ (f.fractionBits + 1)
  least : f.leastExponent ≤ e
  full : 2 ^ f.fractionBits ≤ m ∨ e = f.leastExponent

/-- How far below a number its interval ends, in quarters of its last bit. -/
def Format.gap (f : Format) (m : Nat) (e : Int) : Nat :=
  if m = 2 ^ f.fractionBits ∧ f.leastExponent < e then 1 else 2

namespace Interval

variable {f : Format} {m m' : Nat} {e e' : Int}

theorem quarter_eq (num : Nat) (e : Int) :
    ((num * (Binary.fraction 1 e).1 : Nat) : ℚ) = num * 2 ^ e * (Binary.fraction 1 e).2 := by
  have hne : (2 : ℚ) ^ (-e).toNat ≠ 0 := by positivity
  rw [Binary.fraction_eq, zpow_eq_div (by norm_num) e]
  push_cast
  rw [one_mul, mul_assoc, div_mul_cancel₀ _ hne]

/-- The ends of an interval are some quarters of the last bit away; they are in it when the last bit is
    zero. -/
theorem contains_around_iff : (around f m e).Contains q ↔
    if m % 2 = 0 then ((4 * m - f.gap m e : Nat) : ℚ) * 2 ^ (e - 2) ≤ q ∧
      q ≤ (4 * m + 2 : Nat) * 2 ^ (e - 2)
    else ((4 * m - f.gap m e : Nat) : ℚ) * 2 ^ (e - 2) < q ∧
      q < (4 * m + 2 : Nat) * 2 ^ (e - 2) := by
  have hpos : (0 : ℚ) < (Binary.fraction 1 (e - 2)).2 := by
    rw [Binary.fraction_eq]
    positivity
  have hlow : (around f m e).low = (4 * m - f.gap m e) * (Binary.fraction 1 (e - 2)).1 := rfl
  have hhigh : (around f m e).high = (4 * m + 2) * (Binary.fraction 1 (e - 2)).1 := rfl
  have hden : (around f m e).den = (Binary.fraction 1 (e - 2)).2 := rfl
  rw [Contains, hlow, hhigh, hden, quarter_eq, quarter_eq]
  by_cases hm : m % 2 = 0
  · rw [if_pos (show (around f m e).closed = true from beq_iff_eq.mpr hm), if_pos hm,
      mul_le_mul_iff_of_pos_right hpos, mul_le_mul_iff_of_pos_right hpos]
  · rw [if_neg (show ¬ (around f m e).closed = true from fun h => hm (beq_iff_eq.mp h)), if_neg hm,
      mul_lt_mul_iff_of_pos_right hpos, mul_lt_mul_iff_of_pos_right hpos]

/-- Two intervals that have a number in common overlap, and do more than touch unless both end in it. -/
theorem le_of_contains (hq : (around f m e).Contains q) (hq' : (around f m' e').Contains q) :
    ((4 * m' - f.gap m' e' : Nat) : ℚ) * 2 ^ (e' - 2) ≤ (4 * m + 2 : Nat) * 2 ^ (e - 2) ∧
      (m % 2 = 1 ∨ m' % 2 = 1 → ((4 * m' - f.gap m' e' : Nat) : ℚ) * 2 ^ (e' - 2) <
        (4 * m + 2 : Nat) * 2 ^ (e - 2)) := by
  rw [contains_around_iff] at hq hq'
  split at hq <;> split at hq'
  · exact ⟨hq'.1.trans hq.2, fun hodd => by omega⟩
  · exact ⟨hq'.1.le.trans hq.2, fun _ => hq'.1.trans_le hq.2⟩
  · exact ⟨hq'.1.trans hq.2.le, fun _ => hq'.1.trans_lt hq.2⟩
  · exact ⟨(hq'.1.trans hq.2).le, fun _ => hq'.1.trans hq.2⟩

theorem gap_le (f : Format) (m : Nat) (e : Int) : f.gap m e ≤ 2 := by
  unfold Format.gap
  split <;> decide

/-- Numbers of one exponent have their intervals one beside the other. -/
theorem le_of_contains_same (hq : (around f m e).Contains q) (hq' : (around f m' e).Contains q) :
    m' ≤ m := by
  obtain ⟨hle, hlt⟩ := le_of_contains hq hq'
  have hpos : (0 : ℚ) < 2 ^ (e - 2) := by positivity
  rw [mul_le_mul_iff_of_pos_right hpos, Nat.cast_le] at hle
  rw [mul_lt_mul_iff_of_pos_right hpos, Nat.cast_lt] at hlt
  have hgap := gap_le f m' e
  -- the one after has the other parity
  by_contra hgt
  have hnext : m' = m + 1 := by omega
  have := hlt (by omega)
  omega

/-- Numbers of a greater exponent are greater, and so are all that round to them. -/
theorem exponent_le_of_contains (hm : f.Keeps m e) (hm' : f.Keeps m' e')
    (hq : (around f m e).Contains q) (hq' : (around f m' e').Contains q) : e' ≤ e := by
  by_contra hlt
  obtain ⟨hle, hstrict⟩ := le_of_contains hq hq'
  have hleast := hm.least
  have hshort := hm.short
  have hfull : 2 ^ f.fractionBits ≤ m' := hm'.full.resolve_right (by omega)
  have hgap : 4 * 2 ^ f.fractionBits - 1 ≤ 4 * m' - f.gap m' e' := by
    unfold Format.gap
    split <;> omega
  -- on the scale of the smaller one
  obtain ⟨j, hj⟩ : ∃ j : Nat, e' - 2 = e - 2 + (j + 1 : Nat) := ⟨(e' - e - 1).toNat, by omega⟩
  have hpos : (0 : ℚ) < 2 ^ (e - 2) := by positivity
  have hscale (n : Nat) : (n : ℚ) * 2 ^ (e' - 2) = (n * 2 ^ (j + 1) : Nat) * 2 ^ (e - 2) := by
    rw [hj, zpow_add₀ (by norm_num), zpow_natCast]
    push_cast
    ring
  rw [hscale, mul_le_mul_iff_of_pos_right hpos, Nat.cast_le] at hle
  rw [hscale, mul_lt_mul_iff_of_pos_right hpos, Nat.cast_lt] at hstrict
  have htwice : (4 * m' - f.gap m' e') * 2 ≤ (4 * m' - f.gap m' e') * 2 ^ (j + 1) :=
    Nat.mul_le_mul_left _ (by rw [Nat.pow_succ]; have := Nat.one_le_two_pow (n := j); omega)
  rw [Nat.pow_succ] at hshort
  have hodd : m % 2 = 0 := by
    by_contra h
    have := hstrict (.inl (by omega))
    omega
  omega

/-- The intervals of different numbers are apart. -/
theorem around_apart (hm : f.Keeps m e) (hm' : f.Keeps m' e') (hq : (around f m e).Contains q)
    (hq' : (around f m' e').Contains q) : m = m' ∧ e = e' := by
  obtain rfl : e = e' := le_antisymm (exponent_le_of_contains hm' hm hq' hq)
    (exponent_le_of_contains hm hm' hq hq')
  exact ⟨le_antisymm (le_of_contains_same hq' hq) (le_of_contains_same hq hq'), rfl⟩

end Interval

/-! ## Shortest digits -/

/-- The shortest digits of a number are in its interval: with eighteen of them the next point above the
    number is near enough. -/
theorem contains_shortest {f : Format} {m : Nat} (hf : f.fractionBits ≤ 52) (hpos : 0 < m)
    (hm : m < 2 ^ (f.fractionBits + 1)) (e : Int) :
    (Interval.around f m e).Contains (shortest f m e).value := by
  unfold shortest
  dsimp only
  rw [Decimal.value_trim]
  have hden : 0 < (Interval.around f m e).den := by
    show 0 < (Binary.fraction 1 (e - 2)).2
    rw [Binary.fraction_eq]
    positivity
  have hunit : 0 < (Binary.fraction 1 (e - 2)).1 := by
    rw [Binary.fraction_eq]
    positivity
  have hvalue : (Interval.around f m e).value = 4 * m * (Binary.fraction 1 (e - 2)).1 := rfl
  have hlow : (Interval.around f m e).low < (Interval.around f m e).value :=
    Nat.mul_lt_mul_of_pos_right (by split <;> omega) hunit
  have hhigh : (Interval.around f m e).value + 2 * (Binary.fraction 1 (e - 2)).1 =
    (Interval.around f m e).high := by
    rw [hvalue, ← Nat.add_mul]
    rfl
  have hlead := Decimal.pow_leadingExponent_le (Interval.around f m e).value _
    (hvalue ▸ Nat.mul_pos (by omega) hunit) hden
  generalize Decimal.leadingExponent _ _ = lead at hlead ⊢
  refine Interval.contains_shortestFrom 18 ?_ 20 1 (by decide) (by decide)
  generalize hk : lead - (18 : Nat) + 1 = k
  have hbelow := (Interval.around f m e).below_le k
  have habove := (Interval.around f m e).lt_below_succ hden k
  refine Interval.contains_of_lt ((Nat.cast_lt.mpr hlow).trans habove) ?_
  -- the grid is finer than half of the last bit
  have hfine : (10 : ℚ) ^ k * (Interval.around f m e).den < 2 * (Binary.fraction 1 (e - 2)).1 := by
    have hshort : m < 2 ^ 53 :=
      Nat.lt_of_lt_of_le hm (Nat.pow_le_pow_right (by decide) (by omega))
    have hsmall : ((Interval.around f m e).value : ℚ) <
        10 ^ 17 * (2 * (Binary.fraction 1 (e - 2)).1) := by
      rw [hvalue]
      exact_mod_cast (show 4 * m * (Binary.fraction 1 (e - 2)).1 <
        10 ^ 17 * (2 * (Binary.fraction 1 (e - 2)).1) by nlinarith)
    rw [show lead = k + (17 : Nat) by omega, zpow_add₀ (by norm_num), zpow_natCast] at hlead
    linarith
  rw [← hhigh]
  push_cast
  linarith

end OscHost.Number
