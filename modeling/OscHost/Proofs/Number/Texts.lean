import Mathlib.Data.List.TakeWhile
import Mathlib.Tactic.FieldSimp
import OscHost.Number.Layout
import OscHost.Proofs.Number.Shortest
/-!
  What plain texts of numbers say.

  A plain text is a sign perhaps and then digits with a point among them or none, so it says a number
  (`reading`), and that is the decimal it was written for (`reading_decimal`).  The decimal lies in the
  interval of the number that was to be written and of no other one, so different numbers have
  different texts (`plain_binary_inj`).

  A double that is written as an integer of 64 bits is such an integer itself (`toInt?_of_plain`): one
  with places cannot be that near to a whole number, and `2^63` is written as a greater number.
-/

namespace OscHost.Number

/-! ## Reading digits with a point -/

/-- The number that digits say, with a point among them or none. -/
def reading (s : List Char) : ℚ :=
  let whole := s.takeWhile (· != '.')
  let places := (s.dropWhile (· != '.')).drop 1
  Nat.ofDigitChars 10 (whole ++ places) 0 / 10 ^ places.length

theorem forall_ne_point {s : List Char} (hs : '.' ∉ s) : ∀ c ∈ s, (c != '.') = true :=
  fun _ hc => bne_iff_ne.mpr fun h => hs (h ▸ hc)

theorem reading_whole {s : List Char} (hs : '.' ∉ s) : reading s = Nat.ofDigitChars 10 s 0 := by
  unfold reading
  rw [List.takeWhile_eq_self_iff.mpr (forall_ne_point hs),
    List.dropWhile_eq_nil_iff.mpr (forall_ne_point hs)]
  simp

theorem reading_point {a b : List Char} (ha : '.' ∉ a) :
    reading (a ++ '.' :: b) = Nat.ofDigitChars 10 (a ++ b) 0 / 10 ^ b.length := by
  unfold reading
  rw [List.takeWhile_append_of_pos (forall_ne_point ha),
    List.dropWhile_append_of_pos (forall_ne_point ha)]
  simp

theorem toList_zeros (n : Nat) : (zeros n).toList = List.replicate n '0' := String.toList_ofList

/-- Digits with a point somewhere say the digits' number, scaled. -/
theorem reading_placePoint {digits : String} (hd : '.' ∉ digits.toList) (lead : Int) :
    reading (placePoint digits lead).toList =
      Nat.ofDigitChars 10 digits.toList 0 * 10 ^ (lead + 1 - digits.length) := by
  have hlength : digits.toList.length = digits.length := String.length_toList
  unfold placePoint
  dsimp only
  split
  · -- the point comes before all digits, with zeros between
    rename_i hneg
    have htext : ("0." ++ zeros (-lead - 1).toNat ++ digits).toList =
        ['0'] ++ '.' :: (List.replicate (-lead - 1).toNat '0' ++ digits.toList) := by
      simp [toList_zeros]
    have hzeros : Nat.ofDigitChars 10
        (['0'] ++ (List.replicate (-lead - 1).toNat '0' ++ digits.toList)) 0 =
        Nat.ofDigitChars 10 digits.toList 0 := by
      rw [Nat.ofDigitChars_append, Nat.ofDigitChars_append, Nat.ofDigitChars_replicate_zero]
      rfl
    rw [htext, reading_point (by decide), hzeros, div_eq_mul_inv, ← zpow_natCast, ← zpow_neg]
    congr 2
    rw [List.length_append, List.length_replicate, hlength]
    omega
  · split
    · -- the point would come behind all digits: zeros fill up, and none is written
      have hnone : '.' ∉ digits.toList ++ List.replicate (lead + 1 - digits.length).toNat '0' := by
        simp [hd]
      rw [String.toList_append, toList_zeros, reading_whole hnone, Nat.ofDigitChars_append,
        Nat.ofDigitChars_replicate_zero]
      push_cast
      rw [mul_comm, ← zpow_natCast]
      congr 2
      omega
    · -- the point divides the digits
      have hnone : '.' ∉ digits.toList.take (lead + 1).toNat := fun h => hd (List.mem_of_mem_take h)
      have htext : (String.ofList (digits.toList.take (lead + 1).toNat) ++ "." ++
          String.ofList (digits.toList.drop (lead + 1).toNat)).toList =
          digits.toList.take (lead + 1).toNat ++ '.' :: digits.toList.drop (lead + 1).toNat := by
        simp
      rw [htext, reading_point hnone, List.take_append_drop, div_eq_mul_inv, ← zpow_natCast,
        ← zpow_neg]
      congr 2
      rw [List.length_drop, hlength]
      omega

/-! ## Texts of decimals -/

theorem toList_toString (n : Nat) : (toString n).toList = Nat.toDigits 10 n := by
  rw [Nat.toString_eq_ofList_toDigits, String.toList_ofList]

theorem isDigit_of_mem {n : Nat} {c : Char} (hc : c ∈ (toString n).toList) : c.isDigit = true :=
  Nat.isDigit_of_mem_toDigits (by decide) (by decide) (toList_toString n ▸ hc)

theorem point_not_mem (n : Nat) : '.' ∉ (toString n).toList :=
  fun h => absurd (isDigit_of_mem h) (by decide)

theorem reading_toString (n : Nat) : reading (toString n).toList = n := by
  rw [reading_whole (point_not_mem n), toList_toString, Nat.ofDigitChars_ten_toDigits]

/-- A decimal is read back as the number that it stands for. -/
theorem reading_decimal (d : Decimal) : reading (Layout.plain.decimal d).toList = d.value := by
  have htext : Layout.plain.decimal d =
      placePoint (toString d.digits) (d.exponent + ((toString d.digits).length : Int) - 1) := rfl
  rw [htext, reading_placePoint (point_not_mem _), toList_toString, Nat.ofDigitChars_ten_toDigits,
    Decimal.value]
  congr 2
  omega

/-! ## What texts are made of -/

/-- Whether a text is made of digits and points. -/
def Figures (s : String) : Prop := ∀ c ∈ s.toList, c = '.' ∨ c.isDigit = true

theorem Figures.append {s t : String} (hs : Figures s) (ht : Figures t) : Figures (s ++ t) := by
  intro c hc
  rw [String.toList_append, List.mem_append] at hc
  exact hc.elim (hs c) (ht c)

theorem figures_ofList {l : List Char} (hl : ∀ c ∈ l, c.isDigit = true) :
    Figures (String.ofList l) := by
  intro c hc
  rw [String.toList_ofList] at hc
  exact .inr (hl c hc)

theorem figures_zeros (n : Nat) : Figures (zeros n) :=
  figures_ofList fun c hc => by rw [List.eq_of_mem_replicate hc]; rfl

theorem figures_point : Figures "." := by
  intro c hc
  rw [show ".".toList = ['.'] from rfl, List.mem_singleton] at hc
  exact .inl hc

theorem figures_toString (n : Nat) : Figures (toString n) := fun _ hc => .inr (isDigit_of_mem hc)

theorem figures_decimal (d : Decimal) : Figures (Layout.plain.decimal d) := by
  show Figures (placePoint (toString d.digits) _)
  unfold placePoint
  dsimp only
  split
  · have hzero : Figures "0." := (figures_zeros 1).append figures_point
    exact (hzero.append (figures_zeros _)).append (figures_toString _)
  · split
    · exact (figures_toString _).append (figures_zeros _)
    · refine ((figures_ofList fun c hc => ?_).append figures_point).append (figures_ofList fun c hc => ?_)
      · exact isDigit_of_mem (List.mem_of_mem_take hc)
      · exact isDigit_of_mem (List.mem_of_mem_drop hc)

/-- A text with a sign perhaps. -/
def signed (negative : Bool) (s : String) : String := (if negative then "-" else "") ++ s

theorem toList_signed (negative : Bool) (s : String) :
    (signed negative s).toList = (if negative then ['-'] else []) ++ s.toList := by
  unfold signed
  rw [String.toList_append]
  cases negative <;> rfl

/-- A sign is none of the figures. -/
theorem signed_inj {a b : Bool} {s t : String} (hs : Figures s) (ht : Figures t)
    (h : signed a s = signed b t) : a = b ∧ s = t := by
  have hdash : ¬ ('-' = '.' ∨ '-'.isDigit = true) := by decide
  have hlist := congrArg String.toList h
  rw [toList_signed, toList_signed] at hlist
  cases a <;> cases b
  · exact ⟨rfl, String.toList_injective hlist⟩
  · exact absurd (hs '-' (by simp [show s.toList = '-' :: t.toList from hlist])) hdash
  · exact absurd (ht '-' (by simp [show t.toList = '-' :: s.toList from hlist.symm])) hdash
  · exact ⟨rfl, String.toList_injective (List.cons.inj hlist).2⟩

/-- What is made of figures, with a sign perhaps, is no word. -/
theorem signed_ne_of_mem {negative : Bool} {s t : String} {c : Char} (hs : Figures s)
    (hc : c ∈ t.toList) (hword : c ≠ '-' ∧ c ≠ '.' ∧ c.isDigit = false) : signed negative s ≠ t := by
  rintro rfl
  rw [toList_signed, List.mem_append] at hc
  rcases hc with hc | hc
  · cases negative
    · cases hc
    · exact hword.1 (List.mem_singleton.mp hc)
  · rcases hs c hc with hpoint | hdigit
    · exact hword.2.1 hpoint
    · rw [hword.2.2] at hdigit
      cases hdigit

/-! ## Texts of numbers -/

variable {f : Format} {m m' : Nat} {e e' : Int} {negative negative' : Bool}

/-- The text of a number's size. -/
def sizeText (f : Format) (m : Nat) (e : Int) : String :=
  if m = 0 then "0" else Layout.plain.decimal (shortest f m e)

theorem plain_finite (f : Format) (negative : Bool) (m : Nat) (e : Int) :
    Layout.plain.binary f (.finite negative m e) = signed negative (sizeText f m e) := by
  unfold Layout.binary signed sizeText
  dsimp only
  split <;> rfl

theorem plain_nan (f : Format) : Layout.plain.binary f .nan = "NaN" := rfl

theorem plain_infinite (f : Format) (negative : Bool) :
    Layout.plain.binary f (.infinite negative) = signed negative "inf" := by
  cases negative <;> rfl

theorem figures_sizeText (f : Format) (m : Nat) (e : Int) : Figures (sizeText f m e) := by
  unfold sizeText
  split
  · exact figures_toString 0
  · exact figures_decimal _

/-- The text of a size says something that rounds to it. -/
theorem reading_sizeText (hf : f.fractionBits ≤ 52) (hm : f.Keeps m e) (hpos : 0 < m) :
    (Interval.around f m e).Contains (reading (sizeText f m e).toList) := by
  rw [sizeText, if_neg (Nat.ne_of_gt hpos), reading_decimal]
  exact contains_shortest hf hpos hm.short e

theorem reading_sizeText_zero (f : Format) (e : Int) : reading (sizeText f 0 e).toList = 0 := by
  rw [sizeText, if_pos rfl, show "0" = toString 0 from rfl, reading_toString]
  rfl

theorem pos_of_contains (hpos : 0 < m) {q : ℚ} (hq : (Interval.around f m e).Contains q) :
    0 < q := by
  rw [Interval.contains_around_iff] at hq
  have hgap := Interval.gap_le f m e
  have hlow : (0 : ℚ) < (4 * m - f.gap m e : Nat) * 2 ^ (e - 2) :=
    mul_pos (Nat.cast_pos.mpr (by omega)) (by positivity)
  split at hq
  · exact hlow.trans_le hq.1
  · exact hlow.trans hq.1

/-- Different sizes have different texts. -/
theorem sizeText_inj (hf : f.fractionBits ≤ 52) (hm : f.Keeps m e) (hm' : f.Keeps m' e')
    (h : sizeText f m e = sizeText f m' e') : m = m' ∧ e = e' := by
  have hzero (e : Int) (hm : f.Keeps 0 e) : e = f.leastExponent :=
    hm.full.resolve_left (Nat.not_le.mpr (by positivity))
  rcases Nat.eq_zero_or_pos m with rfl | hpos
  · rcases Nat.eq_zero_or_pos m' with rfl | hpos'
    · exact ⟨rfl, (hzero e hm).trans (hzero e' hm').symm⟩
    · have hq := pos_of_contains hpos' (reading_sizeText hf hm' hpos')
      rw [← h, reading_sizeText_zero] at hq
      exact absurd hq (lt_irrefl 0)
  · have hq := reading_sizeText hf hm hpos
    rcases Nat.eq_zero_or_pos m' with rfl | hpos'
    · have hzero := pos_of_contains hpos hq
      rw [h, reading_sizeText_zero] at hzero
      exact absurd hzero (lt_irrefl 0)
    · exact Interval.around_apart hm hm' hq (h ▸ reading_sizeText hf hm' hpos')

/-- Whether a number is as a format keeps it. -/
def Format.Holds (f : Format) : Binary → Prop
  | .finite _ m e => f.Keeps m e
  | _ => True

/-- Different numbers have different texts. -/
theorem plain_binary_inj (hf : f.fractionBits ≤ 52) {b b' : Binary} (hb : f.Holds b)
    (hb' : f.Holds b') (h : Layout.plain.binary f b = Layout.plain.binary f b') : b = b' := by
  have hnan (negative : Bool) (m : Nat) (e : Int) : signed negative (sizeText f m e) ≠ "NaN" :=
    signed_ne_of_mem (c := 'N') (figures_sizeText f m e) (by decide) (by decide)
  have hinf (negative negative' : Bool) (m : Nat) (e : Int) :
      signed negative (sizeText f m e) ≠ signed negative' "inf" :=
    signed_ne_of_mem (c := 'i') (figures_sizeText f m e) (by cases negative' <;> decide) (by decide)
  have hnanInf (negative : Bool) : "NaN" ≠ signed negative "inf" := by cases negative <;> decide
  -- the words for what is no number and for infinity have letters, which no digits have
  cases b with
  | nan =>
    rw [plain_nan] at h
    cases b' with
    | nan => rfl
    | infinite negative' => exact absurd (h.trans (plain_infinite f _)) (hnanInf _)
    | finite negative' m' e' => exact absurd (h.trans (plain_finite f _ _ _)).symm (hnan _ _ _)
  | infinite negative =>
    rw [plain_infinite] at h
    cases b' with
    | nan => exact absurd h.symm (hnanInf _)
    | infinite negative' =>
      rw [plain_infinite] at h
      cases negative <;> cases negative' <;> first | rfl | exact absurd h (by decide)
    | finite negative' m' e' => exact absurd (h.trans (plain_finite f _ _ _)).symm (hinf _ _ _ _)
  | finite negative m e =>
    rw [plain_finite] at h
    cases b' with
    | nan => exact absurd h (hnan _ _ _)
    | infinite negative' => exact absurd (h.trans (plain_infinite f _)) (hinf _ _ _ _)
    | finite negative' m' e' =>
      rw [plain_finite] at h
      obtain ⟨rfl, hsize⟩ := signed_inj (figures_sizeText f m e) (figures_sizeText f m' e') h
      obtain ⟨rfl, rfl⟩ := sizeText_inj hf hb hb' hsize
      rfl

/-! ## Texts of integers -/

theorem toString_int (n : Int) : toString n = signed (decide (n < 0)) (toString n.natAbs) := by
  have hrepr : toString n = n.repr := rfl
  rw [hrepr, Int.repr_eq_if]
  split
  · rename_i hn
    rw [decide_eq_false (by omega), show n.toNat = n.natAbs by omega]
    exact String.empty_append.symm
  · rename_i hn
    rw [decide_eq_true (by omega), show (-n).toNat = n.natAbs by omega]
    rfl

theorem quarters_mul (num : Nat) (e : Int) :
    (num : ℚ) * 2 ^ (e - 2) * (4 * 2 ^ (-e).toNat) = (num * 2 ^ e.toNat : Nat) := by
  have hne : (2 : ℚ) ^ (-e).toNat ≠ 0 := by positivity
  rw [zpow_sub₀ (by norm_num), zpow_eq_div (by norm_num) e]
  push_cast
  field_simp

/-- A natural number in the interval of another one is within half of the last bit. -/
theorem quarters_of_contains {n : Nat} (hq : (Interval.around f m e).Contains n) :
    (4 * m - f.gap m e) * 2 ^ e.toNat ≤ n * (4 * 2 ^ (-e).toNat) ∧
      n * (4 * 2 ^ (-e).toNat) ≤ (4 * m + 2) * 2 ^ e.toNat := by
  have hpos : (0 : ℚ) < 4 * 2 ^ (-e).toNat := by positivity
  have hends : ((4 * m - f.gap m e : Nat) : ℚ) * 2 ^ (e - 2) ≤ n ∧
      (n : ℚ) ≤ (4 * m + 2 : Nat) * 2 ^ (e - 2) := by
    rw [Interval.contains_around_iff] at hq
    split at hq
    · exact hq
    · exact ⟨hq.1.le, hq.2.le⟩
  rw [← mul_le_mul_iff_of_pos_right hpos, quarters_mul,
    ← mul_le_mul_iff_of_pos_right (b := (n : ℚ)) hpos, quarters_mul] at hends
  exact_mod_cast hends

/-- The number `2^63` is not written as an integer of 64 bits. -/
theorem shortest_limit : shortest .double (2 ^ 52) 11 = ⟨9223372036854776, 3⟩ := by decide

/-- A whole number that is too large for 64 bits is not written as an integer of 64 bits. -/
theorem size_le_of_sizeText {n : Nat} (hm : Format.double.Keeps m e) (he : 0 ≤ e)
    (hn : n ≤ 2 ^ 63) (h : sizeText .double m e = toString n) :
    m * 2 ^ e.toNat ≤ 2 ^ 63 ∧ (n < 2 ^ 63 → m * 2 ^ e.toNat < 2 ^ 63) := by
  rcases Nat.eq_zero_or_pos m with rfl | hpos
  · simp
  have hq := reading_sizeText (f := .double) (by decide) hm hpos
  rw [h, reading_toString] at hq
  have hlow := (quarters_of_contains hq).1
  have hgap := Interval.gap_le .double m e
  have hleast : Format.double.leastExponent = -1074 := by decide
  have hfull : 2 ^ 52 ≤ m := hm.full.resolve_right (by omega)
  have hshort : m < 2 ^ 53 := hm.short
  rw [show (-e).toNat = 0 by omega] at hlow
  generalize hk : e.toNat = k at hlow ⊢
  have hsmall : k ≤ 11 := by
    by_contra hlt
    have hpow : 2 ^ 12 ≤ 2 ^ k := Nat.pow_le_pow_right (by decide) (by omega)
    have := Nat.mul_le_mul (show 2 ^ 54 - 2 ≤ 4 * m - Format.double.gap m e by omega) hpow
    omega
  rcases Nat.lt_or_eq_of_le hsmall with hlt | rfl
  · have hpow : 2 ^ k ≤ 2 ^ 10 := Nat.pow_le_pow_right (by decide) (by omega)
    have := Nat.mul_le_mul_left m hpow
    omega
  · have hm52 : m = 2 ^ 52 := by omega
    refine ⟨Nat.le_of_eq (by rw [hm52, ← Nat.pow_add]), fun hn => ?_⟩
    -- what is written is a greater number
    have hread := congrArg (fun s : String => reading s.toList) h
    rw [hm52, show e = 11 by omega, sizeText, if_neg (by decide), reading_decimal, shortest_limit,
      reading_toString, Decimal.value] at hread
    dsimp only at hread
    have hwhole : 9223372036854776 * 10 ^ 3 = n := by exact_mod_cast hread
    omega

/-- A number with places is not written as a whole one: half of its last bit is less than a half. -/
theorem size_eq_of_sizeText {n : Nat} (hm : Format.double.Keeps m e) (he : e < 0)
    (h : sizeText .double m e = toString n) : m = n * 2 ^ (-e).toNat := by
  rcases Nat.eq_zero_or_pos m with rfl | hpos
  · have hread := congrArg (fun s : String => reading s.toList) h
    rw [reading_sizeText_zero, reading_toString] at hread
    have hn : n = 0 := by exact_mod_cast hread.symm
    rw [hn, Nat.zero_mul]
  · have hq := reading_sizeText (f := .double) (by decide) hm hpos
    rw [h, reading_toString] at hq
    obtain ⟨hlow, hhigh⟩ := quarters_of_contains hq
    have hgap := Interval.gap_le .double m e
    rw [show e.toNat = 0 by omega, pow_zero, Nat.mul_one, Nat.mul_left_comm] at hlow hhigh
    omega

theorem Binary.toInt?_finite (negative : Bool) (m : Nat) (e : Int) :
    (Binary.finite negative m e).toInt? =
      if m * 2 ^ e.toNat % 2 ^ (-e).toNat = 0 then
        some (Binary.signed negative (m * 2 ^ e.toNat / 2 ^ (-e).toNat))
      else none := by
  unfold Binary.toInt?
  dsimp only
  rw [fraction_eq]

/-- A double is written as an integer of 64 bits only if it is one. -/
theorem toInt?_of_plain {n : Int} (hm : Format.double.Keeps m e)
    (hn : -2 ^ 63 ≤ n ∧ n < 2 ^ 63)
    (h : Layout.plain.binary .double (.finite negative m e) = toString n) :
    ∃ k, (Binary.finite negative m e).toInt? = some k ∧ -2 ^ 63 ≤ k ∧ k < 2 ^ 63 := by
  rw [plain_finite, toString_int] at h
  obtain ⟨rfl, hsize⟩ := signed_inj (figures_sizeText .double m e) (figures_toString _) h
  rw [Binary.toInt?_finite]
  -- a whole multiple of a power of two; or the text without a point says that nothing is left of
  -- the fraction
  by_cases he : 0 ≤ e
  · obtain ⟨hle, hlt⟩ := size_le_of_sizeText hm he (by omega) hsize
    rw [show (-e).toNat = 0 by omega, pow_zero, Nat.mod_one, if_pos rfl, Nat.div_one]
    refine ⟨_, rfl, ?_⟩
    unfold Binary.signed
    split
    · omega
    · rename_i hneg
      rw [decide_eq_true_iff] at hneg
      omega
  · have hwhole := size_eq_of_sizeText hm (by omega) hsize
    rw [show e.toNat = 0 by omega, pow_zero, Nat.mul_one, hwhole, Nat.mul_mod_left, if_pos rfl,
      Nat.mul_div_cancel _ (by positivity)]
    refine ⟨n, congrArg some ?_, hn⟩
    unfold Binary.signed
    split
    · rename_i hneg
      rw [decide_eq_true_iff] at hneg
      omega
    · rename_i hneg
      rw [decide_eq_true_iff] at hneg
      omega

end OscHost.Number
