import OscHost.Proofs.Number.Words
import OscHost.Proofs.Sending
/-!
  Numbers sent as integers.

  A number for an endpoint of integers is rounded and held to 32 bits.  Which integer goes on the
  wire depends on what the number stands for and on nothing else (`resolved_wireInt`), and greater
  numbers never go as smaller integers (`wireInt_mono`).  A script's integer is a double for a while,
  but what that may change of it is far beyond 32 bits, so on the wire it is the integer itself, held
  to the range (`wireInt_ofWord`).
-/

namespace OscHost.Osc

open Number Binary

/-- The integer on the wire for what a number stands for. -/
inductive Resolved : Option ExtRat → ℤ → Prop
  | nan : Resolved none 0
  | low : Resolved (some ⊥) (-2 ^ 31)
  | high : Resolved (some ⊤) (2 ^ 31 - 1)
  | nearest {q : ℚ} {n : ℤ} (away : NearestAway q n) :
    Resolved (some (.of q)) (max (-2 ^ 31) (min n (2 ^ 31 - 1)))

theorem clampWire_eq (n : ℤ) : clampWire n = max (-2 ^ 31) (min n (2 ^ 31 - 1)) := by
  unfold clampWire wireMin wireMax
  omega

theorem wireInt_of_value {b : Binary} {q : ℚ} (h : b.value? = some (.of q)) :
    ∃ n, NearestAway q n ∧ wireInt b = clampWire n := by
  obtain ⟨n, hn, haway⟩ := nearest_of_value h
  obtain ⟨negative, m, e, rfl, -⟩ := of_value h
  refine ⟨n, haway, ?_⟩
  rw [wireInt, hn, Option.getD_some]
  · rintro ⟨⟩
  · rintro _ ⟨⟩

/-- A number goes as the integer for what it stands for. -/
theorem resolved_wireInt (b : Binary) : Resolved b.value? (wireInt b) := by
  cases b with
  | nan => exact .nan
  | infinite negative =>
    cases negative with
    | true => exact .low
    | false => exact .high
  | finite negative m e =>
    obtain ⟨n, haway, hwire⟩ := wireInt_of_value (value?_finite negative m e)
    rw [hwire, clampWire_eq]
    exact .nearest haway

theorem wireInt_range (b : Binary) : -2 ^ 31 ≤ wireInt b ∧ wireInt b < 2 ^ 31 := by
  have h := resolved_wireInt b
  generalize b.value? = v at h
  generalize wireInt b = k at h ⊢
  cases h <;> omega

/-- Greater numbers go as no smaller integers. -/
theorem wireInt_mono {a b : Binary} {u v : ExtRat} (ha : a.value? = some u) (hb : b.value? = some v)
    (huv : u ≤ v) : wireInt a ≤ wireInt b := by
  refine le_of_value_le (fun b => (wireInt_range b).1) (fun b => Int.le_of_lt_add_one ?_) ?_
    ha hb huv
  · exact (wireInt_range b).2
  · intro a b p q ha hb hpq
    obtain ⟨m, hm, hwire⟩ := wireInt_of_value ha
    obtain ⟨n, hn, hwire'⟩ := wireInt_of_value hb
    rw [hwire, hwire']
    exact max_le_max_left _ (min_le_min_right _ (hm.mono hpq hn))

/-- An integer goes as itself, held to the range. -/
theorem wireInt_ofWord (n : Int64) :
    wireInt (.ofFloat (ofWord n)) = max (-2 ^ 31) (min n.toInt (2 ^ 31 - 1)) := by
  obtain ⟨k, haway, hwire⟩ := wireInt_of_value (value_ofWord n)
  obtain rfl : k = held53 n.toInt := haway.unique (.of_int _)
  rw [hwire, clampWire_eq, cut_held53 (by decide) (by decide)]

theorem toInt_wireInt (b : Binary) : (Int32.ofInt (wireInt b)).toInt = wireInt b :=
  Int32.toInt_ofInt_of_le (wireInt_range b).1 (wireInt_range b).2

end OscHost.Osc

namespace OscHost.Script

open Number Osc

/-- A call with an integer for an endpoint of integers hands over this integer, held to the range. -/
theorem sendAnswer_int (site : Site) (h : Heap) (address : Bytes) (n : Int64) {s : Host}
    (hconnected : s.transport.connected = true)
    (htype : s.transport.registry.get? (Text.Utf8.lossy address) = some .int) :
    ∃ k : Int32, k.toInt = max (-2 ^ 31) (min n.toInt (2 ^ 31 - 1)) ∧
      (sendAnswer site h [.string address, .int n] s).1 = .done [.bool true, .nil] h ∧
      (sendAnswer site h [.string address, .int n] s).2.transport =
        { s.transport with sent := s.transport.sent.push ⟨Text.Utf8.lossy address, .int k⟩ } := by
  refine ⟨.ofInt (wireInt (.ofFloat (ofWord n))), (toInt_wireInt _).trans (wireInt_ofWord n), ?_⟩
  have hmessage : messageOf s.transport.registry.get? [.string address, .int n] =
      some ⟨Text.Utf8.lossy address, .int (.ofInt (wireInt (.ofFloat (ofWord n))))⟩ := by
    rw [messageOf, argOf, htype]
    rfl
  rcases sendAnswer_cases site h [.string address, .int n] s with
    ⟨m, hm, -, hanswer, hafter⟩ | ⟨hno, -, -⟩
  · obtain rfl := Option.some.inj (hm.symm.trans hmessage)
    exact ⟨hanswer, hafter⟩
  · rw [hconnected, hmessage] at hno
    rcases hno with hno | hno <;> cases hno

/-- What a script sends to an endpoint of integers saturates and does nothing worse: an integer goes
    as itself, held to 32 bits; any number as the nearest integer, halves away from zero, held to 32
    bits, with NaN as zero; and never does the greater of two numbers go as the smaller integer. -/
theorem integers_saturate :
    (∀ (site : Site) (h : Heap) (address : Bytes) (n : Int64) (s : Host),
      s.transport.connected = true →
      s.transport.registry.get? (Text.Utf8.lossy address) = some .int →
      ∃ k : Int32, k.toInt = max (-2 ^ 31) (min n.toInt (2 ^ 31 - 1)) ∧
        (sendAnswer site h [.string address, .int n] s).1 = .done [.bool true, .nil] h ∧
        (sendAnswer site h [.string address, .int n] s).2.transport =
          { s.transport with
            sent := s.transport.sent.push ⟨Text.Utf8.lossy address, .int k⟩ }) ∧
    (∀ (address : String) (x : Float), ∃ k : Int32,
      resolveNumber address x (some .int) = .ok (.int k) ∧
        Resolved (Binary.ofFloat x).value? k.toInt) ∧
    ∀ (address : String) (x y : Float) (u v : ExtRat) (j k : Int32),
      (Binary.ofFloat x).value? = some u → (Binary.ofFloat y).value? = some v → u ≤ v →
      resolveNumber address x (some .int) = .ok (.int j) →
      resolveNumber address y (some .int) = .ok (.int k) → j.toInt ≤ k.toInt := by
  refine ⟨fun site h address n s => sendAnswer_int site h address n, fun address x => ?_, ?_⟩
  · refine ⟨_, rfl, ?_⟩
    rw [toInt_wireInt]
    exact resolved_wireInt _
  · rintro address x y u v j k hx hy huv ⟨⟩ ⟨⟩
    rw [toInt_wireInt, toInt_wireInt]
    exact wireInt_mono hx hy huv

/-- A host whose one endpoint takes integers. -/
def countingHost : Host :=
  { plainHost with transport := { registry := ⟨[("/count", .int)]⟩ } }

/-- The first integer that is no double, and two halves. -/
theorem saturated_samples :
    (∃ k : Int32, k.toInt = 2 ^ 31 - 1 ∧
      (sendAnswer Machine.hostSite {} [.text "/count", .int 9007199254740993] countingHost).1 =
        .done [.bool true, .nil] {} ∧
      (sendAnswer Machine.hostSite {} [.text "/count", .int 9007199254740993]
        countingHost).2.transport =
          { countingHost.transport with
            sent := #[⟨Text.Utf8.lossy (Bytes.ofText "/count"), .int k⟩] }) ∧
    (Binary.ofFloat (Float.ofBits 0x4004000000000000)).value? = some (.of (5 / 2)) ∧
    (Binary.ofFloat (Float.ofBits 0x400C000000000000)).value? = some (.of (7 / 2)) ∧
    (3 : Int32).toInt ≤ (4 : Int32).toInt := by
  have htype : countingHost.transport.registry.get? (Text.Utf8.lossy (Bytes.ofText "/count")) =
      some .int := by decide +kernel
  have hfive : (Binary.ofFloat (Float.ofBits 0x4004000000000000)).value? = some (.of (5 / 2)) := by
    rw [show Binary.ofFloat (Float.ofBits 0x4004000000000000) =
      .finite false (5 * 2 ^ 50) (-51) by decide +kernel, Binary.value?_finite, if_neg (by decide)]
    norm_num
  have hseven : (Binary.ofFloat (Float.ofBits 0x400C000000000000)).value? = some (.of (7 / 2)) := by
    rw [show Binary.ofFloat (Float.ofBits 0x400C000000000000) =
      .finite false (7 * 2 ^ 50) (-51) by decide +kernel, Binary.value?_finite, if_neg (by decide)]
    norm_num
  refine ⟨?_, hfive, hseven, ?_⟩
  · obtain ⟨k, hk, hanswer, hafter⟩ :=
      integers_saturate.1 Machine.hostSite {} (Bytes.ofText "/count") 9007199254740993 countingHost
        rfl htype
    exact ⟨k, hk.trans (by decide), hanswer, hafter⟩
  · exact integers_saturate.2.2 "/count" _ _ _ _ 3 4 hfive hseven
      (ExtRat.of_le_of.mpr (by norm_num)) rfl rfl

end OscHost.Script
