import Mathlib
import OscHost.Proofs.Number.Texts
/-!
  Doubles by their texts.

  The bits of a double are a sign, an exponent and a fraction, and what they are read as says all three
  unless it is no number.  There is one double only that is none.  So a double is what it is read as,
  and by `plain_binary_inj` it is what it is written as (`plain_float_inj`).
-/

namespace OscHost.Number

variable {f : Format} {bits bits' : Nat}

/-! ## Bits -/

theorem bits_eq (p q bits : Nat) :
    bits = bits % 2 ^ p + 2 ^ p * (bits / 2 ^ p % 2 ^ q + 2 ^ q * (bits / 2 ^ (p + q))) := by
  rw [Nat.pow_add, ← Nat.div_div_eq_div_mul, Nat.mod_add_div, Nat.mod_add_div]

theorem fraction_lt (f : Format) (bits : Nat) :
    bits % 2 ^ f.fractionBits < 2 ^ f.fractionBits := Nat.mod_lt _ (by positivity)

/-- Whatever the bits, a number is read as the format keeps it. -/
theorem Format.holds_decode (f : Format) (bits : Nat) : f.Holds (f.decode bits) := by
  have hfraction := fraction_lt f bits
  unfold Format.decode
  dsimp only
  split
  · split <;> trivial
  · split
    · refine ⟨?_, Int.le_refl _, .inr rfl⟩
      rw [Nat.pow_succ]
      exact Nat.lt_of_lt_of_le hfraction (by omega)
    · refine ⟨?_, by omega, .inl (Nat.le_add_right _ _)⟩
      rw [Nat.pow_succ]
      exact (by omega : 2 ^ f.fractionBits + bits % 2 ^ f.fractionBits < 2 ^ f.fractionBits * 2)

/-- The bits of a number. -/
def Format.encode (f : Format) : Binary → Nat
  | .nan => 0
  | .infinite negative =>
    2 ^ f.fractionBits * (2 ^ f.exponentBits - 1 + 2 ^ f.exponentBits * negative.toNat)
  | .finite negative m e =>
    let biased := if m < 2 ^ f.fractionBits then 0 else (e - f.leastExponent).toNat + 1
    m % 2 ^ f.fractionBits + 2 ^ f.fractionBits * (biased + 2 ^ f.exponentBits * negative.toNat)

/-- What bits are read as says all of them, if it is a number or infinite. -/
theorem Format.encode_decode (hb : bits < 2 * 2 ^ (f.fractionBits + f.exponentBits))
    (hnan : f.decode bits ≠ .nan) : f.encode (f.decode bits) = bits := by
  have hfraction := fraction_lt f bits
  have hsign : (bits / 2 ^ (f.fractionBits + f.exponentBits) % 2 == 1).toNat =
      bits / 2 ^ (f.fractionBits + f.exponentBits) := by
    have hlt : bits / 2 ^ (f.fractionBits + f.exponentBits) < 2 :=
      Nat.div_lt_of_lt_mul (by omega)
    generalize bits / 2 ^ (f.fractionBits + f.exponentBits) = sign at hlt ⊢
    obtain rfl | rfl : sign = 0 ∨ sign = 1 := by omega
    · rfl
    · rfl
  -- sign, exponent and fraction together are the bits
  conv_rhs => rw [bits_eq f.fractionBits f.exponentBits bits]
  have hpow (n : Nat) : Nat.pow 2 n = 2 ^ n := rfl
  unfold Format.decode at hnan ⊢
  simp only [hpow] at hnan ⊢
  split
  · -- the greatest exponent: infinite if the fraction is zero, else not a number
    rename_i hbiased
    rw [if_pos hbiased] at hnan
    split
    · rename_i hzero
      rw [Format.encode, hsign, hbiased, hzero, Nat.zero_add]
    · rename_i hzero
      exact absurd (if_neg hzero) hnan
  · split
    · -- the least exponent has no hidden bit
      rename_i hbiased
      rw [Format.encode, hsign, if_pos hfraction, Nat.mod_mod, hbiased]
    · -- any other has one, which is taken off again
      rename_i hbiased
      rw [Format.encode, hsign, if_neg (Nat.not_lt.mpr (Nat.le_add_right _ _)),
        Nat.add_mod_left, Nat.mod_mod]
      congr 3
      omega

/-! ## Doubles -/

theorem ofFloat_holds (x : Float) : Format.double.Holds (.ofFloat x) := Format.holds_decode _ _

/-- What is no number has all bits of the exponent set, and some of the fraction. -/
theorem Format.of_decode_nan (h : f.decode bits = .nan) :
    bits / 2 ^ f.fractionBits % 2 ^ f.exponentBits = 2 ^ f.exponentBits - 1 ∧
      bits % 2 ^ f.fractionBits ≠ 0 := by
  unfold Format.decode at h
  dsimp only at h
  split at h
  · split at h
    · cases h
    · exact ⟨‹_›, ‹_›⟩
  · split at h <;> cases h

open Float.Model UnpackedFloat in
/-- There is one double only that is no number. -/
theorem toBits_of_nan {x : Float} (hx : Binary.ofFloat x = .nan) :
    x.toBits.toBitVec = packedNaN .binary64 := by
  obtain ⟨hbiased, hfraction⟩ := Format.of_decode_nan hx
  have hexponent : @unpackExponent .binary64 x.toBits.toBitVec = -1#_ := by
    refine BitVec.eq_of_toNat_eq ?_
    have htoNat : (@unpackExponent .binary64 x.toBits.toBitVec).toNat =
      x.toBits.toNat / 2 ^ 52 % 2 ^ 11 := by
      simp [unpackExponent, Nat.shiftRight_eq_div_pow]
    rw [htoNat]
    exact hbiased
  have hmantissa : @unpackMantissa .binary64 x.toBits.toBitVec ≠ 0#_ := by
    intro h
    have htoNat : (@unpackMantissa .binary64 x.toBits.toBitVec).toNat = x.toBits.toNat % 2 ^ 52 := by
      simp [unpackMantissa]
    rw [h] at htoNat
    exact hfraction htoNat.symm
  exact x.toModel.valid.eq_packedNaN hexponent hmantissa

/-- A double is what it is read as. -/
theorem ofFloat_injective {x y : Float} (h : Binary.ofFloat x = .ofFloat y) : x = y := by
  rw [← Float.toBits_inj]
  by_cases hnan : Binary.ofFloat x = .nan
  · exact UInt64.toBitVec_inj.mp ((toBits_of_nan hnan).trans (toBits_of_nan (h ▸ hnan)).symm)
  · have hsize (x : Float) : x.toBits.toNat < 2 * 2 ^ (52 + 11) := x.toBits.toNat_lt
    have hbits := Format.encode_decode (f := .double) (hsize x) hnan
    have hbits' := Format.encode_decode (f := .double) (hsize y) fun hy => hnan (h.trans hy)
    refine UInt64.toNat_inj.mp ?_
    rw [← hbits, ← hbits']
    exact congrArg _ h

/-! ## Texts -/

/-- Different doubles have different texts. -/
theorem plain_float_inj {x y : Float} (h : Layout.plain.float x = Layout.plain.float y) : x = y :=
  ofFloat_injective (plain_binary_inj (by decide) (ofFloat_holds x) (ofFloat_holds y) h)

/-- A double is written as an integer of 64 bits only if it is one. -/
theorem toInt?_of_plain_float {x : Float} {n : Int64} (h : Layout.plain.float x = toString n.toInt) :
    ∃ k, (Binary.ofFloat x).toInt? = some k ∧ -2 ^ 63 ≤ k ∧ k < 2 ^ 63 := by
  have hholds := ofFloat_holds x
  have htext := toString_int n.toInt
  unfold Layout.float at h
  cases hx : Binary.ofFloat x with
  | nan =>
    rw [hx, plain_nan, htext] at h
    exact absurd h.symm (signed_ne_of_mem (c := 'N') (figures_toString _) (by decide) (by decide))
  | infinite negative =>
    rw [hx, plain_infinite, htext] at h
    exact absurd h.symm (signed_ne_of_mem (c := 'i') (figures_toString _)
      (by cases negative <;> decide) (by decide))
  | finite negative m e =>
    rw [hx] at h hholds
    exact toInt?_of_plain hholds ⟨n.le_toInt, n.toInt_lt⟩ h

/-- No number is written as a truth value. -/
theorem plain_float_ne_bool (x : Float) (b : Bool) :
    Layout.plain.float x ≠ if b then "true" else "false" := by
  unfold Layout.float
  cases Binary.ofFloat x with
  | nan => cases b <;> decide
  | infinite negative => cases negative <;> cases b <;> decide
  | finite negative m e =>
    rw [plain_finite]
    refine signed_ne_of_mem (c := 'e') (figures_sizeText _ m e) ?_ (by decide)
    cases b <;> decide

theorem toString_int_ne_bool (n : Int) (b : Bool) :
    toString n ≠ if b then "true" else "false" := by
  rw [toString_int]
  refine signed_ne_of_mem (c := 'e') (figures_toString _) ?_ (by decide)
  cases b <;> decide

end OscHost.Number
