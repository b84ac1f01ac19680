import OscHost.Number.Binary
import OscHost.Proofs.Number.Shortest
/-!
  What numbers stand for, and how they are rounded.

  A number is a rational, an end of the line, or nothing (`Binary.value?`).  Two integers that are
  no farther than a half from numbers in order are themselves in order, unless both numbers are
  halfway between them (`halfway_of_lt`).  Any rule that says where halves go excludes that, so
  rounding is monotone: away from zero (`NearestAway.mono`) as well as to even
  (`NearestEven.mono`).
-/

namespace OscHost.Number

/-! ## Values -/

/-- The rationals with both ends of the line. -/
abbrev ExtRat := WithBot (WithTop ℚ)

/-- A rational on the line. -/
def ExtRat.of (q : ℚ) : ExtRat := ((q : WithTop ℚ) : WithBot (WithTop ℚ))

theorem ExtRat.of_le_of {p q : ℚ} : of p ≤ of q ↔ p ≤ q :=
  WithBot.coe_le_coe.trans WithTop.coe_le_coe

theorem ExtRat.of_inj {p q : ℚ} : of p = of q ↔ p = q := WithBot.coe_inj.trans WithTop.coe_inj

namespace Binary

/-- What a number stands for: a rational or an end of the line; nothing for NaN. -/
def value? : Binary → Option ExtRat
  | .nan => none
  | .infinite negative => some (if negative then ⊥ else ⊤)
  | .finite negative m e =>
    let size := (m : ℚ) * 2 ^ e
    some (.of (if negative then -size else size))

variable {m : Nat} {e : Int} {q : ℚ}

theorem fraction_den_pos (m : Nat) (e : Int) : 0 < (fraction m e).2 := by
  rw [fraction_eq]
  positivity

/-- The fraction is the size of the number. -/
theorem fraction_value (m : Nat) (e : Int) :
    ((fraction m e).1 : ℚ) / (fraction m e).2 = m * 2 ^ e := by
  rw [fraction_eq, zpow_eq_div (by norm_num) e]
  push_cast
  rw [mul_div_assoc]

@[simp] theorem value?_finite (negative : Bool) (m : Nat) (e : Int) :
    (finite negative m e).value? =
      some (.of (if negative then -((m : ℚ) * 2 ^ e) else (m : ℚ) * 2 ^ e)) := rfl

/-- What stands for a rational is a finite number. -/
theorem of_value {b : Binary} (h : b.value? = some (.of q)) :
    ∃ negative m e, b = finite negative m e ∧
      q = if negative then -((m : ℚ) * 2 ^ e) else (m : ℚ) * 2 ^ e := by
  cases b with
  | nan => cases h
  | infinite negative => cases negative <;> cases h
  | finite negative m e =>
    exact ⟨negative, m, e, rfl, (ExtRat.of_inj.mp (Option.some.inj h)).symm⟩

theorem isPositive_iff {b : Binary} (h : b.value? = some (.of q)) :
    b.isPositive = true ↔ 0 < q := by
  obtain ⟨negative, m, e, rfl, rfl⟩ := of_value h
  have hpow : (0 : ℚ) < 2 ^ e := by positivity
  cases negative with
  | true =>
    rw [if_pos rfl, neg_pos]
    exact ⟨fun h => (Bool.false_ne_true h).elim, fun h => absurd h (not_lt.mpr (by positivity))⟩
  | false =>
    rw [if_neg (by decide), mul_pos_iff_of_pos_right hpow, Nat.cast_pos, Nat.pos_iff_ne_zero]
    exact bne_iff_ne

/-- What stands for an end of the line is infinite. -/
theorem of_value_infinite {b : Binary} {negative : Bool}
    (h : b.value? = (infinite negative).value?) : b = infinite negative := by
  cases b with
  | nan => cases h
  | infinite negative' =>
    cases negative <;> cases negative'
    · rfl
    · cases h
    · cases h
    · rfl
  | finite negative' m e => cases negative <;> cases h

/-- What is monotone on rationals, and least and greatest at the ends of the line, is monotone on
    all values. -/
theorem le_of_value_le {β : Type} [Preorder β] {f : Binary → β}
    (hleast : ∀ b, f (infinite true) ≤ f b) (hgreatest : ∀ b, f b ≤ f (infinite false))
    (hmono : ∀ (a b : Binary) (p q : ℚ), a.value? = some (.of p) →
      b.value? = some (.of q) → p ≤ q → f a ≤ f b)
    {a b : Binary} {u v : ExtRat} (ha : a.value? = some u) (hb : b.value? = some v)
    (huv : u ≤ v) : f a ≤ f b := by
  -- least and greatest are the two infinities; all between are rationals
  cases u using WithBot.recBotCoe with
  | bot =>
    obtain rfl : a = infinite true := of_value_infinite ha
    exact hleast b
  | coe u =>
    cases v using WithBot.recBotCoe with
    | bot => exact absurd huv (WithBot.not_coe_le_bot u)
    | coe v =>
      cases v with
      | top =>
        obtain rfl : b = infinite false := of_value_infinite hb
        exact hgreatest a
      | coe q =>
        cases u with
        | top => exact absurd (WithBot.coe_le_coe.mp huv) (WithTop.not_top_le_coe q)
        | coe p => exact hmono a b p q ha hb (ExtRat.of_le_of.mp huv)

end Binary

/-! ## Rounding -/

section

variable {p q : ℚ} {m n : ℤ}

/-- Nearest integers of numbers in order are in order, or else both numbers are halfway between
    them. -/
theorem halfway_of_lt (hpq : p ≤ q) (hp : |p - m| ≤ 1 / 2) (hq : |q - n| ≤ 1 / 2) (hlt : n < m) :
    m = n + 1 ∧ p = n + 1 / 2 ∧ q = n + 1 / 2 := by
  have hlow := (abs_le.mp hp).1
  have hhigh := (abs_le.mp hq).2
  have hnext : (n : ℚ) + 1 ≤ m := by exact_mod_cast hlt
  have heq : (m : ℚ) = n + 1 := by linarith
  exact ⟨by exact_mod_cast heq, by linarith, by linarith⟩

theorem abs_int_sub_self (n : ℤ) : |(n : ℚ) - n| < 1 / 2 := by
  rw [sub_self, abs_zero]
  norm_num

/-- The integer nearest to a number, halves going away from zero. -/
structure NearestAway (q : ℚ) (n : ℤ) : Prop where
  near : |q - n| ≤ 1 / 2
  away : |q - n| = 1 / 2 → |q| < |(n : ℚ)|

/-- The integer nearest to a number, halves going to the even neighbour. -/
structure NearestEven (q : ℚ) (n : ℤ) : Prop where
  near : |q - n| ≤ 1 / 2
  even : |q - n| = 1 / 2 → Even n

namespace NearestAway

theorem neg (h : NearestAway q n) : NearestAway (-q) (-n) := by
  have hflip : |(-q) - ((-n : ℤ) : ℚ)| = |q - n| := by
    rw [Int.cast_neg, neg_sub_neg, abs_sub_comm]
  refine ⟨hflip ▸ h.near, fun htie => ?_⟩
  rw [abs_neg, Int.cast_neg, abs_neg]
  exact h.away (hflip ▸ htie)

theorem of_int (n : ℤ) : NearestAway n n :=
  ⟨(abs_int_sub_self n).le, fun htie => absurd htie (abs_int_sub_self n).ne⟩

/-- Halfway between two neighbours, only one of them is farther from zero. -/
theorem mono (hpq : p ≤ q) (hp : NearestAway p m) (hq : NearestAway q n) : m ≤ n := by
  by_contra hlt
  obtain ⟨rfl, hpn, hqn⟩ := halfway_of_lt hpq hp.near hq.near (not_le.mp hlt)
  have hup : |(n : ℚ) + 1 / 2| < |(n : ℚ) + 1| := by
    have := hp.away (by rw [hpn]; push_cast; norm_num [abs_div])
    rwa [hpn, Int.cast_add, Int.cast_one] at this
  have hdown : |(n : ℚ) + 1 / 2| < |(n : ℚ)| := by
    have := hq.away (by rw [hqn]; norm_num [abs_div])
    rwa [hqn] at this
  rcases Int.lt_or_le n 0 with hneg | hpos
  · have hle : (n : ℚ) + 1 ≤ 0 := by exact_mod_cast hneg
    rw [abs_of_nonpos hle, abs_of_nonpos (by linarith)] at hup
    linarith
  · have hge : (0 : ℚ) ≤ n := by exact_mod_cast hpos
    rw [abs_of_nonneg hge, abs_of_nonneg (by linarith)] at hdown
    linarith

/-- So there is one such integer. -/
theorem unique (h : NearestAway q m) (h' : NearestAway q n) : m = n :=
  le_antisymm (h.mono le_rfl h') (h'.mono le_rfl h)

end NearestAway

namespace NearestEven

theorem of_int (n : ℤ) : NearestEven n n :=
  ⟨(abs_int_sub_self n).le, fun htie => absurd htie (abs_int_sub_self n).ne⟩

/-- Of two neighbours only one is even. -/
theorem mono (hpq : p ≤ q) (hp : NearestEven p m) (hq : NearestEven q n) : m ≤ n := by
  by_contra hlt
  obtain ⟨rfl, hpn, hqn⟩ := halfway_of_lt hpq hp.near hq.near (not_le.mp hlt)
  have hup : Even (n + 1) := hp.even (by rw [hpn]; push_cast; norm_num [abs_div])
  have hdown : Even n := hq.even (by rw [hqn]; norm_num [abs_div])
  exact Int.even_add_one.mp hup hdown

theorem unique (h : NearestEven q m) (h' : NearestEven q n) : m = n :=
  le_antisymm (h.mono le_rfl h') (h'.mono le_rfl h)

end NearestEven

end

/-! ## Rounding of fractions -/

namespace Binary

variable {num den : Nat}

/-- How far an integer is from a fraction, in halves of its unit. -/
theorem abs_fraction_sub (hden : 0 < den) (n : Nat) :
    |(num : ℚ) / den - (n : ℤ)| = (2 * ((num : ℤ) - (n * den : Nat))).natAbs / (2 * den) := by
  have hpos : (0 : ℚ) < den := by exact_mod_cast hden
  have hscaled : ((num : ℚ) / den - n) * (2 * den) = 2 * (num - n * den) := by
    rw [sub_mul, mul_left_comm _ 2, mul_left_comm _ 2, div_mul_cancel₀ _ hpos.ne', mul_sub]
  rw [eq_div_iff (by positivity), Nat.cast_natAbs, Int.cast_abs, Int.cast_natCast]
  conv_lhs => rw [← abs_of_pos (show (0 : ℚ) < 2 * den by positivity), ← abs_mul, hscaled]
  push_cast
  rfl

theorem near_fraction_iff (hden : 0 < den) (n : Nat) :
    |(num : ℚ) / den - (n : ℤ)| ≤ 1 / 2 ↔ (2 * ((num : ℤ) - (n * den : Nat))).natAbs ≤ den := by
  have hpos : (0 : ℚ) < 2 * den := by positivity
  rw [abs_fraction_sub hden, div_le_iff₀ hpos, one_div, inv_mul_cancel_left₀ two_ne_zero,
    Nat.cast_le]

theorem halfway_fraction_iff (hden : 0 < den) (n : Nat) :
    |(num : ℚ) / den - (n : ℤ)| = 1 / 2 ↔ (2 * ((num : ℤ) - (n * den : Nat))).natAbs = den := by
  have hpos : (0 : ℚ) < 2 * den := by positivity
  rw [abs_fraction_sub hden, div_eq_iff hpos.ne', one_div, inv_mul_cancel_left₀ two_ne_zero,
    Nat.cast_inj]

theorem nearestAway_roundHalfUp (num : Nat) (hden : 0 < den) :
    NearestAway ((num : ℚ) / den) (roundHalfUp num den) := by
  have hlow : roundHalfUp num den * (2 * den) ≤ 2 * num + den := Nat.div_mul_le_self _ _
  have hhigh : 2 * num + den < (roundHalfUp num den + 1) * (2 * den) :=
    Nat.lt_mul_of_div_lt (Nat.lt_succ_self _) (by omega)
  generalize roundHalfUp num den = n at hlow hhigh ⊢
  rw [Nat.mul_left_comm] at hlow hhigh
  have hnext : (n + 1) * den = n * den + den := Nat.succ_mul n den
  refine ⟨(near_fraction_iff hden n).mpr (by omega), fun htie => ?_⟩
  -- a half is below the integer that it goes to
  have hlt : num < n * den := by
    have := (halfway_fraction_iff hden n).mp htie
    omega
  rw [abs_of_nonneg (by positivity), abs_of_nonneg (by positivity), Int.cast_natCast,
    div_lt_iff₀ (by exact_mod_cast hden)]
  exact_mod_cast hlt

/-- A number that stands for a rational is rounded as the rational is. -/
theorem nearest_of_value {b : Binary} {q : ℚ} (h : b.value? = some (.of q)) :
    ∃ n, b.nearest = some n ∧ NearestAway q n := by
  obtain ⟨negative, m, e, rfl, rfl⟩ := of_value h
  have hround := nearestAway_roundHalfUp (fraction m e).1 (fraction_den_pos m e)
  rw [fraction_value] at hround
  refine ⟨_, rfl, ?_⟩
  cases negative with
  | false => exact hround
  | true => exact hround.neg

theorem nearestEven_roundHalfEven (num : Nat) (hden : 0 < den) :
    NearestEven ((num : ℚ) / den) (roundHalfEven num den) := by
  have hsplit := Nat.div_add_mod num den
  have hrest := Nat.mod_lt num hden
  rw [Nat.mul_comm] at hsplit
  unfold roundHalfEven
  dsimp only
  generalize num / den = n at hsplit ⊢
  generalize num % den = r at hsplit hrest ⊢
  -- the number stands between two neighbours, and the remainder says how far from the lower one
  have hnext : (n + 1) * den = n * den + den := Nat.succ_mul n den
  split
  · refine ⟨(near_fraction_iff hden n).mpr (by omega), fun htie => ?_⟩
    have := (halfway_fraction_iff hden n).mp htie
    omega
  · split
    · refine ⟨(near_fraction_iff hden (n + 1)).mpr (by omega), fun htie => ?_⟩
      have := (halfway_fraction_iff hden (n + 1)).mp htie
      omega
    · -- a tie goes to whichever neighbour is even
      have heven : Even (n + n % 2) := Nat.even_iff.mpr (by omega)
      refine ⟨(near_fraction_iff hden (n + n % 2)).mpr ?_, fun _ => (Int.even_coe_nat _).mpr heven⟩
      obtain h | h := Nat.mod_two_eq_zero_or_one n
      · rw [h, Nat.add_zero]
        omega
      · rw [h]
        omega

end Binary

end OscHost.Number
