import OscHost.Proofs.Number.Words
import OscHost.Runner
/-!
  How long a number of seconds is.

  What is no positive number takes one way, what overflows a duration another, and all else is
  converted and cut.  The three meet: a number that stands for `q` sleeps for the nanoseconds nearest
  to `max q 0`, cut at a year (`sleepNs_of_value`), so more seconds are never a shorter sleep.
  Integers of 64 bits sleep for exactly the seconds they say (`sleepNs_word`): what the conversion
  to a double changes is far longer than a year, or negative.
-/

namespace OscHost

open Number Binary

variable {x y : Binary} {q : ℚ}

/-- What overflows a duration is cut at a year in any case. -/
theorem cut_overflow (n : Nat) :
    min ((if n / secondNs < 0x10000000000000000 then some n else none).getD maxSleep) maxSleep =
      min n maxSleep := by
  split
  · rfl
  · rename_i hlong
    have hyear : maxSleep ≤ n :=
      Nat.le_trans (by decide) (Nat.mul_le_of_le_div secondNs _ _ (Nat.not_lt.mp hlong))
    rw [Option.getD_none, min_self, min_eq_right hyear]

theorem cut_durationNs? (m : Nat) (e : Int) :
    min ((durationNs? (.finite false m e)).getD maxSleep) maxSleep =
      min (roundHalfEven ((fraction m e).1 * secondNs) (fraction m e).2) maxSleep := by
  rw [durationNs?]
  exact cut_overflow _

/-- A number that stands for a rational sleeps for the nanoseconds nearest to it, if it is not
    negative, for a year at most. -/
theorem sleepNs_of_value (h : x.value? = some (.of q)) :
    ∃ n : Nat, NearestEven (max q 0 * secondNs) n ∧ sleepNs x = min n maxSleep := by
  have hpositive := isPositive_iff h
  obtain ⟨negative, m, e, rfl, hq⟩ := of_value h
  unfold sleepNs
  split
  · rename_i htrue
    have hpos := hpositive.mp htrue
    -- only a number without sign is positive
    have hsign : negative = false := by
      cases negative with
      | false => rfl
      | true => cases htrue
    subst hsign
    have hround := nearestEven_roundHalfEven ((fraction m e).1 * secondNs) (fraction_den_pos m e)
    rw [Nat.cast_mul, mul_div_right_comm, fraction_value] at hround
    rw [max_eq_left hpos.le, hq, if_neg (by decide)]
    exact ⟨_, hround, cut_durationNs? m e⟩
  · rename_i hfalse
    have hneg := not_lt.mp fun hpos => hfalse (hpositive.mpr hpos)
    refine ⟨0, ?_, (if_neg (by rintro ⟨⟩)).trans (Nat.zero_min _).symm⟩
    rw [max_eq_right hneg, zero_mul]
    exact_mod_cast NearestEven.of_int 0

/-- More seconds are never a shorter sleep. -/
theorem sleepNs_mono {u v : ExtRat} (hx : x.value? = some u) (hy : y.value? = some v) (huv : u ≤ v) :
    sleepNs x ≤ sleepNs y := by
  refine le_of_value_le (fun b => Nat.zero_le _) (fun b => sleepNs_le_maxSleep b) ?_ hx hy huv
  intro a b p q ha hb hpq
  obtain ⟨m, hm, hsleep⟩ := sleepNs_of_value ha
  obtain ⟨n, hn, hsleep'⟩ := sleepNs_of_value hb
  have hscaled : max p 0 * secondNs ≤ max q 0 * secondNs :=
    mul_le_mul_of_nonneg_right (max_le_max_right 0 hpq) (by positivity)
  have hmn : m ≤ n := by exact_mod_cast hm.mono hscaled hn
  rw [hsleep, hsleep']
  exact min_le_min_right _ hmn

/-- Whole seconds are slept for exactly, up to a year. -/
theorem sleepNs_of_int {n : ℤ} (h : x.value? = some (.of n)) :
    (sleepNs x : ℤ) = max 0 (min n (365 * 24 * 60 * 60)) * secondNs := by
  obtain ⟨ns, hns, hsleep⟩ := sleepNs_of_value h
  have hexact : NearestEven (max (n : ℚ) 0 * secondNs) (max n 0 * secondNs : ℤ) := by
    have := NearestEven.of_int (max n 0 * secondNs)
    push_cast at this ⊢
    exact this
  have heq := hns.unique hexact
  rw [hsleep]
  unfold maxSleep
  unfold secondNs at *
  omega

/-- Integers of 64 bits are slept for as if they were not converted. -/
theorem sleepNs_word (n : Int64) :
    (sleepNs (Runner.seconds (.int n)) : ℤ) =
      max 0 (min n.toInt (365 * 24 * 60 * 60)) * secondNs := by
  rw [← cut_held53 (by decide) (by decide)]
  exact sleepNs_of_int (value_ofWord n)

/-- Up to a year a sleep is as near to its seconds as nanoseconds are. -/
theorem sleepNs_near (h : x.value? = some (.of q)) (hpos : 0 < q) (hyear : q ≤ 365 * 24 * 60 * 60) :
    |(sleepNs x : ℚ) / 10 ^ 9 - q| ≤ 1 / 2 / 10 ^ 9 := by
  obtain ⟨n, hn, hsleep⟩ := sleepNs_of_value h
  rw [max_eq_left hpos.le] at hn
  have hunit : (secondNs : ℚ) = 10 ^ 9 := by norm_num [secondNs]
  have hcut : n ≤ maxSleep := by
    have hle : q * secondNs ≤ (maxSleep : ℤ) := by
      rw [hunit, Int.cast_natCast]
      norm_num [maxSleep, secondNs]
      linarith
    exact_mod_cast hn.mono hle (NearestEven.of_int maxSleep)
  have hnear := hn.near
  rw [hunit, Int.cast_natCast, abs_sub_comm] at hnear
  rw [hsleep, min_eq_left hcut, div_sub' (by norm_num), abs_div, mul_comm,
    abs_of_pos (show (0 : ℚ) < 10 ^ 9 by positivity)]
  exact div_le_div_of_nonneg_right hnear (by positivity)

/-- Whatever the seconds are, the sleep lasts a year at most; more seconds are never a shorter sleep;
    up to a year it is off by half a nanosecond at most; and integers are no worse for being
    converted. -/
theorem sleepNs_follows_seconds :
    (∀ x : Binary, sleepNs x ≤ maxSleep) ∧
    (∀ (x y : Binary) (u v : ExtRat), x.value? = some u → y.value? = some v → u ≤ v →
      sleepNs x ≤ sleepNs y) ∧
    (∀ (x : Binary) (q : ℚ), x.value? = some (.of q) → 0 < q → q ≤ 365 * 24 * 60 * 60 →
      |(sleepNs x : ℚ) / 10 ^ 9 - q| ≤ 1 / 2 / 10 ^ 9) ∧
    ∀ n : Int64, (sleepNs (Runner.seconds (.int n)) : ℤ) =
      max 0 (min n.toInt (365 * 24 * 60 * 60)) * 10 ^ 9 :=
  ⟨sleepNs_le_maxSleep, fun _ _ _ _ => sleepNs_mono, fun _ _ => sleepNs_near, sleepNs_word⟩

/-- A quarter of a second is slept for as such, which is less than forever. -/
theorem quarter_slept :
    (finite false 1 (-2)).value? = some (.of (1 / 4)) ∧
      |(sleepNs (finite false 1 (-2)) : ℚ) / 10 ^ 9 - 1 / 4| ≤ 1 / 2 / 10 ^ 9 ∧
      sleepNs (finite false 1 (-2)) ≤ sleepNs (infinite false) := by
  have hvalue : (finite false 1 (-2)).value? = some (.of (1 / 4)) := by
    rw [value?_finite, if_neg (by decide)]
    norm_num
  refine ⟨hvalue, ?_, ?_⟩
  · exact sleepNs_follows_seconds.2.2.1 _ _ hvalue (by norm_num) (by norm_num)
  · exact sleepNs_follows_seconds.2.1 _ (infinite false) _ _ hvalue rfl le_top

end OscHost
