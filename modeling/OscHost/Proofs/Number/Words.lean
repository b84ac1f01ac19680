import OscHost.Proofs.Number.Values
/-!
  Integers as doubles.

  The conversion shifts the integer to 53 bits and rounds what falls off.  Each shift keeps two bits
  of what has fallen off so far, and they are enough to tell it from a half (`Shifted`), so the
  rounding is that of `Binary.roundHalfEven`.  What comes out are the bits of the rounded integer
  (`value_ofWord`): integers of 53 bits stay what they are, and no other falls below them in size.
-/

namespace OscHost.Number

open Float.Model UnpackedFloat

/-! ## Bits that fall off -/

/-- A mantissa `m` of which `n` bits have fallen off: the two bits that are kept say how twice of
    these is to `2^n`. -/
structure Shifted (m n : Nat) (em : ExtendedMantissa) : Prop where
  mantissa : em.mantissa = m / 2 ^ n
  roundBit : em.roundBit = true ↔ 2 ^ n ≤ 2 * (m % 2 ^ n)
  stickyBit : em.stickyBit = true ↔ 2 * (m % 2 ^ n) ≠ 0 ∧ 2 * (m % 2 ^ n) ≠ 2 ^ n

namespace Shifted

variable {m n : Nat} {em : ExtendedMantissa}

theorem shiftRightOne (h : Shifted m n em) : Shifted m (n + 1) em.shiftRightOne := by
  have hmod : m % 2 ^ (n + 1) = m % 2 ^ n + 2 ^ n * (m / 2 ^ n % 2) := Nat.mod_pow_succ
  have hlt : m % 2 ^ n < 2 ^ n := Nat.mod_lt _ (by positivity)
  have hpow : 2 ^ (n + 1) = 2 * 2 ^ n := Nat.pow_succ'
  refine ⟨?_, ?_, ?_⟩
  · show em.mantissa / 2 = _
    rw [h.mantissa, Nat.div_div_eq_div_mul, Nat.pow_succ]
  · show (em.mantissa % 2 != 0) = true ↔ _
    rw [h.mantissa, hmod, hpow, bne_iff_ne]
    obtain hbit | hbit := Nat.mod_two_eq_zero_or_one (m / 2 ^ n) <;> rw [hbit] <;> omega
  · show (em.roundBit || em.stickyBit) = true ↔ _
    rw [Bool.or_eq_true, h.roundBit, h.stickyBit, hmod, hpow]
    obtain hbit | hbit := Nat.mod_two_eq_zero_or_one (m / 2 ^ n) <;> rw [hbit] <;> omega

theorem shiftRight (m n : Nat) :
    Shifted m n (ExtendedMantissa.ofMantissaAndAccuracy m .exact >>> n) := by
  induction n with
  | zero =>
    have hmod : m % 2 ^ 0 = 0 := Nat.mod_one m
    refine ⟨(Nat.div_one m).symm, ?_, ?_⟩
    · rw [hmod]
      exact ⟨fun h => (Bool.false_ne_true h).elim, fun h => absurd h (by decide)⟩
    · rw [hmod]
      exact ⟨fun h => (Bool.false_ne_true h).elim, fun h => absurd rfl h.1⟩
  | succ n ih => exact ih.shiftRightOne

/-- The two bits decide as the remainder does. -/
theorem roundedMantissa (h : Shifted m n em) :
    em.roundedMantissa = Binary.roundHalfEven m (2 ^ n) := by
  have hround := h.roundBit
  have hsticky := h.stickyBit
  have hmantissa := h.mantissa
  have hpos : 0 < 2 ^ n := by positivity
  obtain ⟨mantissa, roundBit, stickyBit⟩ := em
  dsimp only at hround hsticky hmantissa
  subst hmantissa
  unfold Binary.roundHalfEven
  dsimp only
  -- nothing, less than a half, a half, more than a half
  cases roundBit <;> cases stickyBit
  · rw [if_pos (by simp at hround hsticky; omega)]
    rfl
  · rw [if_pos (by simp at hround hsticky; omega)]
    rfl
  · rw [if_neg (by simp at hround hsticky; omega), if_neg (by simp at hround hsticky; omega)]
    rfl
  · rw [if_neg (by simp at hround hsticky; omega), if_pos (by simp at hround hsticky; omega)]
    rfl

end Shifted

/-! ## Rounding to 53 bits -/

theorem Binary.le_roundHalfEven (num den : Nat) : num / den ≤ roundHalfEven num den := by
  unfold roundHalfEven
  dsimp only
  split
  · exact Nat.le_refl _
  · split <;> omega

theorem Binary.roundHalfEven_le (num den : Nat) : roundHalfEven num den ≤ num / den + 1 := by
  unfold roundHalfEven
  dsimp only
  split
  · omega
  · split <;> omega

theorem Binary.roundHalfEven_one (num : Nat) : roundHalfEven num 1 = num := by
  unfold roundHalfEven
  rw [Nat.div_one, Nat.mod_one]
  rfl

section

variable {m : Nat} {e : Int}

/-- The exponent at which a number of full width has 53 bits. -/
theorem targetExponent_eq (h : -1022 ≤ m.log2 + e) :
    Float.Model.Format.binary64.targetExponent (totalExponent m e) = m.log2 - 52 + e := by
  have hbits : (Float.Model.Format.binary64.mantissaBits : Int) = 53 := rfl
  have hleast : Float.Model.Format.binary64.minExponent = -1074 := rfl
  unfold Float.Model.Format.targetExponent totalExponent
  omega

theorem shiftToTargetExponent_eq (h : -1022 ≤ m.log2 + e) :
    shiftToTargetExponent .binary64 m e .exact =
      (ExtendedMantissa.ofMantissaAndAccuracy m .exact >>> (m.log2 - 52),
        e + (m.log2 - 52 : Nat)) := by
  unfold shiftToTargetExponent shiftToExponent
  rw [targetExponent_eq h]
  dsimp only
  rw [show ((m.log2 : Int) - 52 + e - e).toNat = m.log2 - 52 by omega]

/-- The bits beyond 53 are rounded away; a carry into a new bit moves the exponent. -/
theorem roundWithAccuracy_eq (s : Sign) (hm : 2 ^ 52 ≤ m) (he : -1074 ≤ e) :
    ∃ M E, ∃ h : 0 < M, roundWithAccuracy .binary64 s m e .exact = .finite s M E h ∧
      2 ^ 52 ≤ M ∧ M < 2 ^ 53 ∧ e ≤ E ∧ E ≤ m.log2 - 51 + e ∧
      (M : ℚ) * 2 ^ E =
        Binary.roundHalfEven m (2 ^ (m.log2 - 52)) * 2 ^ (e + (m.log2 - 52 : Nat)) := by
  have hlog : 52 ≤ m.log2 := (Nat.le_log2 (by omega)).mpr hm
  generalize hk : m.log2 - 52 = k
  -- what is left after the shift has 53 bits
  have hquot : 2 ^ 52 ≤ m / 2 ^ k ∧ m / 2 ^ k < 2 ^ 53 := by
    have hlow := Nat.log2_self_le (n := m) (by omega)
    have hhigh := Nat.lt_log2_self (n := m)
    rw [show m.log2 = 52 + k by omega, Nat.pow_add] at hlow
    rw [show m.log2 + 1 = 53 + k by omega, Nat.pow_add] at hhigh
    exact ⟨(Nat.le_div_iff_mul_le (by positivity)).mpr hlow,
      (Nat.div_lt_iff_lt_mul (by positivity)).mpr hhigh⟩
  have hlow := Binary.le_roundHalfEven m (2 ^ k)
  have hhigh := Binary.roundHalfEven_le m (2 ^ k)
  unfold roundWithAccuracy
  rw [shiftToTargetExponent_eq (by omega), hk]
  dsimp only
  rw [(Shifted.shiftRight m k).roundedMantissa]
  generalize Binary.roundHalfEven m (2 ^ k) = r at hlow hhigh ⊢
  have hlogr : 52 ≤ r.log2 := (Nat.le_log2 (by omega)).mpr (by omega)
  rw [shiftToTargetExponent_eq (by omega)]
  dsimp only
  rw [(Shifted.shiftRight r (r.log2 - 52)).mantissa]
  -- rounding up may carry into a bit more, and then only to the power of two itself
  rcases Nat.lt_or_ge r (2 ^ 53) with hlt | hge
  · have hlog52 : r.log2 - 52 = 0 := by
      have := (Nat.log2_lt (n := r) (k := 53) (by omega)).mpr hlt
      omega
    have hsame : r / 2 ^ (r.log2 - 52) = r := by rw [hlog52, Nat.pow_zero, Nat.div_one]
    refine ⟨r, e + k, by omega, ?_, by omega, hlt, by omega, by omega, rfl⟩
    rw [dif_neg (by omega)]
    congr 1
    omega
  · obtain rfl : r = 2 ^ 53 := by omega
    refine ⟨2 ^ 52, e + k + 1, by decide, ?_, Nat.le_refl _, by decide, by omega, by omega, ?_⟩
    · rw [Nat.log2_two_pow, dif_neg (by decide)]
      rfl
    · rw [zpow_add_one₀ (by norm_num)]
      push_cast
      ring

/-- An integer is rounded to 53 bits. -/
theorem round_eq (s : Sign) (hm : 0 < m) :
    ∃ M E, ∃ h : 0 < M, UnpackedFloat.round .binary64 s m 0 = .finite s M E h ∧
      2 ^ 52 ≤ M ∧ M < 2 ^ 53 ∧ -52 ≤ E ∧ E ≤ m.log2 - 51 ∧
      (M : ℚ) * 2 ^ E = Binary.roundHalfEven m (2 ^ (m.log2 - 52)) * 2 ^ (m.log2 - 52) := by
  generalize hj : 52 - m.log2 = j
  have hlow := Nat.log2_self_le (n := m) (by omega)
  have hhigh := Nat.lt_log2_self (n := m)
  -- bits are added below, or some are dropped
  have hlog : (m * 2 ^ j).log2 = m.log2 + j := by
    refine (Nat.log2_eq_iff (by positivity)).mpr ⟨?_, ?_⟩
    · rw [Nat.pow_add]
      exact Nat.mul_le_mul_right _ hlow
    · rw [Nat.add_right_comm, Nat.pow_add]
      exact Nat.mul_lt_mul_of_pos_right hhigh (by positivity)
  have hfull : 2 ^ 52 ≤ m * 2 ^ j := (Nat.le_log2 (by positivity)).mp (by omega)
  have hround : UnpackedFloat.round .binary64 s m 0 =
      roundWithAccuracy .binary64 s (m * 2 ^ j) (-j) .exact := by
    unfold UnpackedFloat.round decreaseExponent
    rw [targetExponent_eq (by omega)]
    dsimp only
    rw [show (0 - ((m.log2 : Int) - 52 + 0)).toNat = j by omega, Nat.shiftLeft_eq, zero_sub]
  obtain ⟨M, E, h, heq, hM, hM', hE, hE', hvalue⟩ :=
    roundWithAccuracy_eq s hfull (e := -j) (by omega)
  rw [hlog] at hE' hvalue
  refine ⟨M, E, h, hround.trans heq, hM, hM', by omega, by omega, hvalue.trans ?_⟩
  rcases Nat.le_total m.log2 52 with hle | hge
  · rw [show m.log2 + j - 52 = 0 by omega, show m.log2 - 52 = 0 by omega, pow_zero, pow_zero,
      Binary.roundHalfEven_one, Binary.roundHalfEven_one, Nat.cast_zero, add_zero, zpow_neg,
      zpow_natCast]
    push_cast
    rw [mul_one, mul_inv_cancel_right₀ (by positivity)]
  · obtain rfl : j = 0 := by omega
    rw [Nat.add_zero, pow_zero, Nat.mul_one, Nat.cast_zero, neg_zero, zero_add, zpow_natCast]

end

/-! ## Bits of a number -/

theorem toNat_packComponents (s : Sign) (exponent : BitVec 11) (mantissa : BitVec 52) :
    (packComponents .binary64 s exponent mantissa).toNat =
      (s.toBitVec.toNat * 2 ^ 11 + exponent.toNat) * 2 ^ 52 + mantissa.toNat := by
  unfold packComponents
  rw [BitVec.toNat_append, BitVec.toNat_append, ← Nat.shiftLeft_add_eq_or_of_lt mantissa.isLt,
    ← Nat.shiftLeft_add_eq_or_of_lt exponent.isLt, Nat.shiftLeft_eq, Nat.shiftLeft_eq]

/-- Parts put together as bits are read as these parts, when the exponent is that of a number of
    full width. -/
theorem Format.decode_parts {f : Format} {sign biased fraction : Nat} (hsign : sign < 2)
    (hleast : 0 < biased) (hbiased : biased < 2 ^ f.exponentBits - 1)
    (hfraction : fraction < 2 ^ f.fractionBits) :
    f.decode ((sign * 2 ^ f.exponentBits + biased) * 2 ^ f.fractionBits + fraction) =
      .finite (sign == 1) (2 ^ f.fractionBits + fraction)
        (f.leastExponent + (biased - 1 : Nat)) := by
  have hpow (n : Nat) : Nat.pow 2 n = 2 ^ n := rfl
  -- each part is a remainder or a quotient of the whole
  have hlow : ((sign * 2 ^ f.exponentBits + biased) * 2 ^ f.fractionBits + fraction) %
      2 ^ f.fractionBits = fraction := Nat.mul_add_mod_of_lt hfraction
  have hhigh : ((sign * 2 ^ f.exponentBits + biased) * 2 ^ f.fractionBits + fraction) /
      2 ^ f.fractionBits = sign * 2 ^ f.exponentBits + biased := by
    rw [Nat.mul_comm, Nat.mul_add_div (by positivity), Nat.div_eq_of_lt hfraction, Nat.add_zero]
  have hexponent : (sign * 2 ^ f.exponentBits + biased) % 2 ^ f.exponentBits = biased :=
    Nat.mul_add_mod_of_lt (by omega)
  have htop : (sign * 2 ^ f.exponentBits + biased) / 2 ^ f.exponentBits = sign := by
    rw [Nat.mul_comm, Nat.mul_add_div (by positivity), Nat.div_eq_of_lt (by omega), Nat.add_zero]
  unfold Format.decode
  simp only [hpow]
  rw [hlow, Nat.pow_add, ← Nat.div_div_eq_div_mul, hhigh, hexponent, htop,
    Nat.mod_eq_of_lt hsign, if_neg (by omega), if_neg (by omega)]

/-- The bits of a number of 53 bits are read as the number. -/
theorem decode_pack {M : Nat} {E : Int} (s : Sign) (hM : 2 ^ 52 ≤ M) (hM' : M < 2 ^ 53)
    (hE : -1074 ≤ E) (hE' : E ≤ 971) (h : 0 < M) :
    Format.double.decode (UnpackedFloat.pack .binary64 (.finite s M E h)).toNat =
      .finite (s.toBitVec.toNat == 1) M E := by
  have hlog : M.log2 = 52 := (Nat.log2_eq_iff (by omega)).mpr ⟨hM, hM'⟩
  have hbias : (Float.Model.Format.binary64.exponentBias : Int) +
      (Float.Model.Format.binary64.mantissaBitsWithoutImplicit : Int) = 1075 := rfl
  -- 53 bits leave 52 when the hidden one is taken off
  have hbits : (UnpackedFloat.pack .binary64 (.finite s M E h)).toNat =
      (s.toBitVec.toNat * 2 ^ 11 + (E + 1075).toNat) * 2 ^ 52 + (M - 2 ^ 52) := by
    unfold UnpackedFloat.pack
    dsimp only
    rw [add_assoc, hbias, hlog, if_neg (by omega),
      if_pos (show 52 + 1 = Float.Model.Format.binary64.mantissaBits from rfl),
      toNat_packComponents, BitVec.toNat_ofNat, BitVec.toNat_ofNat]
    omega
  have hleastBiased : 0 < (E + 1075).toNat := by omega
  have hbiased : (E + 1075).toNat < 2 ^ 11 - 1 := by omega
  have hfraction : M - 2 ^ 52 < 2 ^ 52 := by omega
  have hparts := Format.decode_parts (f := .double) s.toBitVec.isLt hleastBiased hbiased hfraction
  have hhidden : 2 ^ Format.double.fractionBits + (M - 2 ^ 52) = M := Nat.add_sub_cancel' hM
  have hleast : Format.double.leastExponent + ((E + 1075).toNat - 1 : Nat) = E := by
    have : Format.double.leastExponent = -1074 := rfl
    omega
  rw [hhidden, hleast] at hparts
  rw [hbits]
  exact hparts

/-! ## Integers of 64 bits -/

/-- An integer held to 53 bits, halves going to even. -/
def held53 (n : ℤ) : ℤ :=
  let unit := 2 ^ (n.natAbs.log2 - 52)
  n.sign * (Binary.roundHalfEven n.natAbs unit * unit : Nat)

theorem held53_zero : held53 0 = 0 := by decide

theorem held53_neg (n : ℤ) : held53 (-n) = -held53 n := by
  unfold held53
  rw [Int.natAbs_neg, Int.sign_neg, neg_mul]

/-- What is read from a rounded integer. -/
theorem value_pack_round (s : Sign) {m : Nat} (hm : 0 < m) (hm' : m < 2 ^ 64) :
    (Format.double.decode
      (UnpackedFloat.pack .binary64 (UnpackedFloat.round .binary64 s m 0)).toNat).value? =
      some (.of (s.apply (held53 m) : ℤ)) := by
  have hlog : m.log2 < 64 := (Nat.log2_lt (by omega)).mpr hm'
  obtain ⟨M, E, h, hround, hM, hM', hE, hE', hvalue⟩ := round_eq s hm
  have hheld : ((held53 m : ℤ) : ℚ) = M * 2 ^ E := by
    unfold held53
    rw [hvalue, Int.natAbs_natCast, Int.sign_natCast_of_ne_zero (by omega), one_mul]
    push_cast
    rfl
  rw [hround, decode_pack s hM hM' (by omega) (by omega), Binary.value?_finite]
  cases s with
  | negative => rw [if_pos (by decide), Sign.apply, Int.cast_neg, hheld]
  | positive => rw [if_neg (by decide), Sign.apply, hheld]

/-- The double of an integer stands for the integer held to 53 bits. -/
theorem value_ofWord (n : Int64) :
    (Binary.ofFloat (ofWord n)).value? = some (.of (held53 n.toInt)) := by
  have hbits : (ofWord n).toBits.toNat =
    (UnpackedFloat.pack .binary64
      (UnpackedFloat.normalize .binary64 n.toInt 0 .positive)).toNat := rfl
  have hlow := n.le_toInt
  have hhigh := n.toInt_lt
  unfold Binary.ofFloat
  rw [hbits]
  unfold UnpackedFloat.normalize
  generalize n.toInt = n at hlow hhigh ⊢
  -- a negative number is packed as its size with the sign set, and zero has a form of its own
  rcases lt_trichotomy n 0 with hneg | rfl | hpos
  · rw [compare_lt_iff_lt.mpr hneg]
    dsimp only
    rw [value_pack_round _ (by omega) (by omega), Int.toNat_of_nonneg (by omega), held53_neg,
      Sign.apply, neg_neg]
  · rw [compare_eq_iff_eq.mpr rfl]
    dsimp only
    have hzero : Format.double.decode (UnpackedFloat.pack .binary64 (.zero .positive)).toNat =
      .finite false 0 (-1074) := by decide
    rw [hzero, Binary.value?_finite, held53_zero, if_neg (by decide), Nat.cast_zero, zero_mul,
      Int.cast_zero]
  · rw [compare_gt_iff_gt.mpr hpos]
    dsimp only
    rw [value_pack_round _ (by omega) (by omega), Int.toNat_of_nonneg (by omega), Sign.apply]

/-- Integers of 53 bits stay what they are. -/
theorem held53_of_lt {n : ℤ} (hn : n.natAbs < 2 ^ 53) : held53 n = n := by
  have hunit : n.natAbs.log2 - 52 = 0 := by
    rcases Nat.eq_zero_or_pos n.natAbs with hzero | hpos
    · rw [hzero]
      decide
    · have := (Nat.log2_lt (k := 53) (by omega)).mpr hn
      omega
  unfold held53
  dsimp only
  rw [hunit, pow_zero, Binary.roundHalfEven_one, Nat.mul_one]
  exact Int.sign_mul_natAbs n

/-- The others stay as great as the least of them. -/
theorem le_held53 {n : ℤ} (hn : 2 ^ 53 ≤ n) : 2 ^ 53 ≤ held53 n := by
  have hlog : 53 ≤ n.natAbs.log2 := (Nat.le_log2 (by omega)).mpr (by omega)
  have hpow := Nat.log2_self_le (n := n.natAbs) (by omega)
  have hquot : 2 ^ 52 ≤ n.natAbs / 2 ^ (n.natAbs.log2 - 52) := by
    rw [Nat.le_div_iff_mul_le (by positivity), ← Nat.pow_add, Nat.add_sub_cancel' (by omega)]
    exact hpow
  have hround : 2 ^ 52 * 2 ^ 1 ≤ Binary.roundHalfEven n.natAbs (2 ^ (n.natAbs.log2 - 52)) *
      2 ^ (n.natAbs.log2 - 52) :=
    Nat.mul_le_mul (hquot.trans (Binary.le_roundHalfEven _ _))
      (Nat.pow_le_pow_right (by decide) (by omega))
  unfold held53
  rw [Int.sign_eq_one_of_pos (by omega), one_mul]
  exact_mod_cast hround

/-- So a cut to less than 53 bits does not see the conversion. -/
theorem cut_held53 {low high : ℤ} (hlow : -2 ^ 53 ≤ low) (hhigh : high ≤ 2 ^ 53) (n : ℤ) :
    max low (min (held53 n) high) = max low (min n high) := by
  rcases Nat.lt_or_ge n.natAbs (2 ^ 53) with hlt | hge
  · rw [held53_of_lt hlt]
  · rcases Int.le_total 0 n with hpos | hneg
    · have := le_held53 (n := n) (by omega)
      omega
    · have := le_held53 (n := -n) (by omega)
      rw [held53_neg] at this
      omega

end OscHost.Number
