import OscHost.Proofs.Script.Sequences
import OscHost.Proofs.Script.Slots
/-!
  Tables that hold together.

  An integer key is looked for in the array part first, and the entries outside are traversed after
  that part.  So a table is a map from keys to values only as long as no key stands for something in
  both of its parts, and its length is a border only as long as nothing outside continues the array
  part.  `Table.Lawful` says that it is so; `Lawful.mem_entries_iff` and `Lawful.entries_distinct` that
  a traversal then lists the keys that are there, each once with its value.

  Every operation keeps a table lawful, and does to the map what its name says (`Lawful.get_set`).
-/

namespace OscHost.Script

/-- Whether a key is in the form that it has as a key: a number that is an integer of 64 bits is that
    integer. -/
def Key.Proper : Key → Prop
  | .float bits => ∃ x : Float, bits = x.toBits ∧ floatToInt? x = none
  | _ => True

/-- The key of a place of the array part. -/
def Key.place (i : Nat) : Key := .int (Int64.ofNat (i + 1))

namespace Table

variable {t u : Table} {k k' : Key} {v : Value} {i : Nat} {n : Int64}

/-! ## Places of the array part -/

theorem toInt_ofNat_succ (hi : i < lastPlace) : (Int64.ofNat (i + 1)).toInt = i + 1 := by
  unfold lastPlace at hi
  exact toInt_place (by omega)

theorem place_inj {i j : Nat} (hi : i < lastPlace) (hj : j < lastPlace) (h : Key.place i = .place j) :
    i = j := by
  have hint := congrArg Int64.toInt (Key.int.inj h)
  rw [toInt_ofNat_succ hi, toInt_ofNat_succ hj] at hint
  omega

/-- The key of an integer that is the number of a place. -/
theorem int_eq_place (h : n.toInt = i + 1) : Key.int n = .place i ∧ i < lastPlace := by
  have hi : i < lastPlace := by
    have := Int64.toInt_lt n
    unfold lastPlace
    omega
  unfold Key.place
  rw [← Int64.toInt_inj.mp (h.trans (toInt_ofNat_succ hi).symm)]
  exact ⟨rfl, hi⟩

theorem seqIndex?_eq_some_iff : t.seqIndex? n = some i ↔ n.toInt = i + 1 ∧ i < t.seq.size := by
  have hone : (1 : Int64) ≤ n ↔ 1 ≤ n.toInt := Int64.le_iff_toInt_le
  unfold seqIndex?
  rw [Option.ite_none_right_eq_some, Bool.and_eq_true, decide_eq_true_iff, decide_eq_true_iff, hone,
    Option.some.injEq]
  omega

/-- The place of a key in the array part. -/
def seqPlace? (t : Table) : Key → Option Nat
  | .int n => t.seqIndex? n
  | _ => none

theorem seqPlace?_eq_some_iff (hfits : t.seq.size ≤ lastPlace) :
    t.seqPlace? k = some i ↔ k = .place i ∧ i < t.seq.size := by
  cases k with
  | int n =>
    refine seqIndex?_eq_some_iff.trans (and_congr_left fun hi => ⟨fun h => (int_eq_place h).1, ?_⟩)
    intro h
    rw [Key.int.inj h]
    exact toInt_ofNat_succ (Nat.lt_of_lt_of_le hi hfits)
  | _ => exact iff_of_false nofun fun h => nomatch h.1

theorem seqPlace?_eq_none_iff (hfits : t.seq.size ≤ lastPlace) :
    t.seqPlace? k = none ↔ ∀ i < t.seq.size, k ≠ .place i := by
  rw [Option.eq_none_iff_forall_ne_some]
  refine forall_congr' fun i => ?_
  rw [ne_eq, seqPlace?_eq_some_iff hfits]
  tauto

/-- What a key stands for is found in one of the two parts. -/
theorem get_eq (t : Table) (k : Key) : t.get k = match t.seqPlace? k with
    | some i => t.seq.getD i .nil
    | none => t.slotValue k := by
  cases k <;> rfl

theorem get_place (hfits : t.seq.size ≤ lastPlace) (hi : i < t.seq.size) :
    t.get (.place i) = t.seq[i] := by
  rw [get_eq, (seqPlace?_eq_some_iff hfits).mpr ⟨rfl, hi⟩]
  simp [Array.getD, hi]

theorem get_of_not_place (hfits : t.seq.size ≤ lastPlace) (hk : ∀ i < t.seq.size, k ≠ .place i) :
    t.get k = t.slotValue k := by
  rw [get_eq, (seqPlace?_eq_none_iff hfits).mpr hk]

/-! ## The invariant -/

/-- Whether no key stands for something in both parts of a table. -/
structure Coherent (t : Table) : Prop where
  indexed : t.Indexed
  proper : ∀ k, t.slotValue k ≠ .nil → k.Proper
  fits : t.seq.size ≤ lastPlace
  /-- The array part does not end in nil. -/
  ends : t.seq.back? ≠ some .nil
  /-- Its keys stand for nothing outside. -/
  apart : ∀ i < t.seq.size, t.slotValue (.place i) = .nil

/-- Whether moreover nothing outside continues the array part. -/
structure Lawful (t : Table) : Prop extends Coherent t where
  border : t.seq.size < lastPlace → t.slotValue (.place t.seq.size) = .nil

theorem coherent_empty : ({} : Table).Coherent where
  indexed := indexed_empty
  proper := fun _ h => absurd (slotValue_of_not_mem (by simp)) h
  fits := Nat.zero_le _
  ends := nofun
  apart := fun _ h => absurd h (Nat.not_lt_zero _)

theorem lawful_empty : ({} : Table).Lawful where
  toCoherent := coherent_empty
  border := fun _ => slotValue_of_not_mem (by simp)

@[simp] theorem get_empty (k : Key) : ({} : Table).get k = .nil := by
  rw [get_of_not_place (Nat.zero_le _) fun _ h => absurd h (Nat.not_lt_zero _)]
  exact slotValue_of_not_mem (by simp)

/-- Without entries outside there is nothing else to show. -/
theorem Coherent.lawful_of_vacant (ht : t.Coherent) (h : ∀ k, t.slotValue k = .nil) : t.Lawful :=
  { ht with border := fun _ => h _ }

/-! ## Traversal -/

/-- The entries of the array part with their keys. -/
theorem mem_zipIdx_seq (t : Table) : (∃ a ∈ t.seq.toList.zipIdx 1,
      (if a.1.isNil then none else some (Key.int (Int64.ofNat a.2), a.1)) = some (k, v)) ↔
    v ≠ .nil ∧ ∃ i, t.seq[i]? = some v ∧ k = .place i := by
  constructor
  · rintro ⟨⟨w, m⟩, hmem, h⟩
    obtain ⟨hle, hw⟩ := List.mk_mem_zipIdx_iff_le_and_getElem?_sub.mp hmem
    rw [Array.getElem?_toList] at hw
    by_cases hnil : w.isNil
    · rw [if_pos hnil] at h
      cases h
    · rw [if_neg hnil] at h
      cases h
      refine ⟨fun hv => hnil (Value.isNil_iff.mpr hv), m - 1, hw, ?_⟩
      unfold Key.place
      rw [Nat.sub_add_cancel hle]
  · rintro ⟨hv, i, hi, rfl⟩
    refine ⟨(v, i + 1), List.mk_mem_zipIdx_iff_le_and_getElem?_sub.mpr ⟨Nat.le_add_left 1 i, ?_⟩, ?_⟩
    · rw [Array.getElem?_toList]
      exact hi
    · rw [Value.isNil_eq_false_iff.mpr hv]
      rfl

theorem mem_entries (t : Table) : (k, v) ∈ t.entries ↔
    v ≠ .nil ∧ ((∃ i, t.seq[i]? = some v ∧ k = .place i) ∨ (k, v) ∈ t.slots) := by
  unfold entries
  rw [List.mem_append, List.mem_filterMap, mem_zipIdx_seq, List.mem_filter, Array.mem_toList_iff,
    and_or_left]
  refine or_congr_right (and_comm.trans (and_congr_left fun _ => ?_))
  rw [decide_eq_true_iff, Value.isNil_iff]

/-- A traversal lists the keys that are there with what they stand for. -/
theorem Coherent.mem_entries_iff (ht : t.Coherent) :
    (k, v) ∈ t.entries ↔ v ≠ .nil ∧ t.get k = v := by
  rw [mem_entries]
  refine and_congr_right fun hv => ?_
  rw [ht.indexed.mem_slots_iff hv]
  constructor
  · rintro (⟨i, hi, rfl⟩ | hslot)
    · obtain ⟨hlt, hi⟩ := Array.getElem?_eq_some_iff.mp hi
      rw [get_place ht.fits hlt, hi]
    · rw [get_of_not_place ht.fits, hslot]
      -- a key of the array part would stand for nothing outside
      rintro i hi rfl
      exact hv (hslot.symm.trans (ht.apart i hi))
  · intro hget
    by_cases hplace : ∀ i < t.seq.size, k ≠ .place i
    · rw [get_of_not_place ht.fits hplace] at hget
      exact .inr hget
    · push Not at hplace
      obtain ⟨i, hi, rfl⟩ := hplace
      rw [get_place ht.fits hi] at hget
      exact .inl ⟨i, Array.getElem?_eq_some_iff.mpr ⟨hi, hget⟩, rfl⟩

/-- No key is listed twice. -/
theorem Coherent.entries_distinct (ht : t.Coherent) : (t.entries.map (·.1)).Nodup := by
  have hfits : 1 + t.seq.toList.length ≤ 0x8000000000000000 := by
    have := ht.fits
    unfold lastPlace at this
    rw [Array.length_toList]
    omega
  have hseq : (((t.seq.toList.zipIdx 1).filterMap fun e =>
      if e.1.isNil then none else some (Key.int (Int64.ofNat e.2), e.1)).map (·.1)).Nodup := by
    rw [live_places]
    have hplaces : (((t.seq.toList.zipIdx 1).map place).map (·.1)).Nodup :=
      places_distinct t.seq.toList 1 hfits
    exact hplaces.sublist (List.filter_sublist.map _)
  unfold entries
  dsimp only
  rw [List.map_append, List.nodup_append']
  refine ⟨hseq, ht.indexed.slots_distinct.sublist (List.filter_sublist.map _), ?_⟩
  -- a key that is listed in both parts would stand for something outside
  intro k hk hk'
  obtain ⟨⟨_, v⟩, hmem, rfl⟩ := List.mem_map.mp hk
  obtain ⟨⟨k', w⟩, hmem', hsame⟩ := List.mem_map.mp hk'
  obtain ⟨-, i, hi, hplace⟩ := t.mem_zipIdx_seq.mp (List.mem_filterMap.mp hmem)
  obtain ⟨hslot, hw⟩ := List.mem_filter.mp hmem'
  have hw : w ≠ .nil := fun h => by simp [h, Value.isNil] at hw
  have hvalue := (ht.indexed.mem_slots_iff hw).mp (Array.mem_toList_iff.mp hslot)
  obtain ⟨hlt, -⟩ := Array.getElem?_eq_some_iff.mp hi
  dsimp only at hsame hplace
  rw [hsame, hplace, ht.apart i hlt] at hvalue
  exact hw hvalue.symm

theorem Coherent.get_eq_seq (ht : t.Coherent) (hi : i < t.seq.size) :
    t.get (.place i) = t.seq[i] := get_place ht.fits hi

theorem Coherent.get_eq_slot (ht : t.Coherent) (hk : ∀ i < t.seq.size, k ≠ .place i) :
    t.get k = t.slotValue k := get_of_not_place ht.fits hk

/-- The key behind the array part is none of that part. -/
theorem Coherent.place_size_ne (ht : t.Coherent) (hsize : t.seq.size < lastPlace)
    (hi : i < t.seq.size) : Key.place t.seq.size ≠ .place i := fun h =>
  absurd (place_inj hsize (Nat.lt_of_lt_of_le hi ht.fits) h) (Nat.ne_of_gt hi)

/-- The length is a border. -/
theorem Lawful.length_border (ht : t.Lawful) :
    (t.length = 0 ∨ t.get (.place (t.length - 1)) ≠ .nil) ∧
      (t.length < lastPlace → t.get (.place t.length) = .nil) := by
  unfold Table.length
  constructor
  · by_cases hzero : t.seq.size = 0
    · exact .inl hzero
    · have hlast : t.seq.size - 1 < t.seq.size := by omega
      rw [ht.get_eq_seq hlast]
      refine .inr fun hnil => ht.ends ?_
      rw [Array.back?_eq_getElem?, Array.getElem?_eq_getElem hlast, hnil]
  · intro hsize
    rw [ht.get_eq_slot fun i hi => ht.place_size_ne hsize hi]
    exact ht.border hsize

/-! ## Entries outside the array part -/

/-- Setting an entry outside the array part, of a key that is not of that part or is given nothing. -/
theorem Coherent.setSlot (ht : t.Coherent) (hk : v ≠ .nil → k.Proper)
    (hv : v = .nil ∨ ∀ i < t.seq.size, k ≠ .place i) : (t.setSlot k v).Coherent where
  indexed := ht.indexed.setSlot k v
  proper := by
    intro k' hk'
    rw [ht.indexed.slotValue_setSlot] at hk'
    split at hk'
    · rename_i hsame
      exact hsame ▸ hk hk'
    · exact ht.proper k' hk'
  fits := by
    rw [seq_setSlot]
    exact ht.fits
  ends := by
    rw [seq_setSlot]
    exact ht.ends
  apart := by
    rw [seq_setSlot]
    intro i hi
    rw [ht.indexed.slotValue_setSlot]
    split
    · rename_i hplace
      rcases hv with rfl | hk
      · rfl
      · exact absurd hplace.symm (hk i hi)
    · exact ht.apart i hi

/-- Then it stands for its value, and nothing else changes. -/
theorem Coherent.get_setSlot (ht : t.Coherent) (hk : ∀ i < t.seq.size, k ≠ .place i) (v : Value)
    (k' : Key) : (t.setSlot k v).get k' = if k' = k then v else t.get k' := by
  have hseq : (t.setSlot k v).seq = t.seq := seq_setSlot t k v
  by_cases hplace : ∀ i < t.seq.size, k' ≠ .place i
  · rw [get_of_not_place (by rw [hseq]; exact ht.fits) (by rw [hseq]; exact hplace),
      ht.indexed.slotValue_setSlot, ht.get_eq_slot hplace]
  · push Not at hplace
    obtain ⟨i, hi, rfl⟩ := hplace
    rw [if_neg (hk i hi).symm, get_eq, get_eq]
    have hsame : (t.setSlot k v).seqPlace? (.place i) = t.seqPlace? (.place i) := by
      unfold seqPlace? seqIndex?
      rw [hseq]
    rw [hsame, hseq, (seqPlace?_eq_some_iff ht.fits).mpr ⟨rfl, hi⟩]

/-! ## The array part -/

theorem size_trimmed_le (a : Array Value) : (trimmed a).size ≤ a.size := by
  fun_induction trimmed a with
  | case1 a ha hn ih => exact Nat.le_trans ih (Array.size_pop ▸ Nat.sub_le ..)
  | case2 a ha hn => exact Nat.le_refl _
  | case3 a ha => exact Nat.le_refl _

theorem back?_trimmed (a : Array Value) : (trimmed a).back? ≠ some .nil := by
  fun_induction trimmed a with
  | case1 a ha hn ih => exact ih
  | case2 a ha hn =>
    rw [Array.back?_eq_getElem?, Array.getElem?_eq_getElem ha]
    exact fun hnil => hn (Option.some.inj hnil)
  | case3 a ha =>
    rw [Array.back?_eq_getElem?, Array.getElem?_eq_none (Nat.not_lt.mp ha)]
    exact (Option.some_ne_none _).symm

theorem getD_pop (a : Array Value) (j : Nat) :
    a.pop.getD j .nil = if j + 1 = a.size then .nil else a.getD j .nil := by
  rw [Array.getD_eq_getD_getElem?, Array.getElem?_pop]
  split
  · rw [if_neg (by omega)]
    exact (Array.getD_eq_getD_getElem? ..).symm
  · split
    · rfl
    · rw [Array.getD_eq_getD_getElem?, Array.getElem?_eq_none (by omega)]

theorem getD_setIfInBounds {a : Array Value} (hi : i < a.size) (v : Value) (j : Nat) :
    (a.setIfInBounds i v).getD j .nil = if j = i then v else a.getD j .nil := by
  rw [Array.getD_eq_getD_getElem?, Array.getD_eq_getD_getElem?, Array.getElem?_setIfInBounds]
  by_cases hj : i = j
  · subst hj
    rw [if_pos rfl, if_pos rfl, if_pos hi]
    rfl
  · rw [if_neg hj, if_neg (Ne.symm hj)]

theorem back?_setIfInBounds {a : Array Value} (ha : a.back? ≠ some .nil)
    (hv : i + 1 = a.size → v ≠ .nil) : (a.setIfInBounds i v).back? ≠ some .nil := by
  rw [Array.back?_eq_getElem?, Array.size_setIfInBounds, Array.getElem?_setIfInBounds]
  split
  · rename_i hback
    split
    · exact fun h => hv (by omega) (Option.some.inj h)
    · exact nofun
  · rw [← Array.back?_eq_getElem?]
    exact ha

/-- Without the nils at its end an array gives the same values. -/
theorem getD_trimmed (a : Array Value) (j : Nat) : (trimmed a).getD j .nil = a.getD j .nil := by
  fun_induction trimmed a with
  | case1 a ha hn ih =>
    rw [ih, getD_pop]
    split
    · rename_i hj
      obtain rfl : j = a.size - 1 := by omega
      rw [Array.getD_eq_getD_getElem?, Array.getElem?_eq_getElem ha, hn]
      rfl
    · rfl
  | case2 a ha hn => rfl
  | case3 a ha => rfl

/-- A table with another array part. -/
def withSeq (t : Table) (seq : Array Value) : Table := { t with seq }

section

variable {a : Array Value}

/-- An array part that is no longer than before. -/
theorem Coherent.withSeq (ht : t.Coherent) (hsize : a.size ≤ t.seq.size)
    (hends : a.back? ≠ some .nil) : (t.withSeq a).Coherent where
  indexed := ⟨ht.indexed.located, ht.indexed.removed⟩
  proper := ht.proper
  fits := Nat.le_trans hsize ht.fits
  ends := hends
  apart := fun i hi => ht.apart i (Nat.lt_of_lt_of_le hi hsize)

theorem Lawful.withSeq (ht : t.Lawful) (hsize : a.size ≤ t.seq.size)
    (hends : a.back? ≠ some .nil) : (t.withSeq a).Lawful where
  toCoherent := ht.toCoherent.withSeq hsize hends
  border := by
    intro hlt
    show t.slotValue (.place a.size) = .nil
    rcases Nat.lt_or_eq_of_le hsize with hshorter | hsame
    · exact ht.apart a.size hshorter
    · rw [hsame]
      exact ht.border (hsame ▸ hlt)

/-- Its keys stand for what it holds, or for nothing behind its end; the others for what they did. -/
theorem Coherent.get_withSeq (ht : t.Coherent) (hsize : a.size ≤ t.seq.size) :
    (∀ i < t.seq.size, (t.withSeq a).get (.place i) = a.getD i .nil) ∧
      ∀ k, (∀ i < t.seq.size, k ≠ .place i) → (t.withSeq a).get k = t.get k := by
  have hfits : (t.withSeq a).seq.size ≤ lastPlace := Nat.le_trans hsize ht.fits
  refine ⟨fun i hi => ?_, fun k hk => ?_⟩
  · rw [Array.getD_eq_getD_getElem?]
    by_cases hin : i < a.size
    · rw [get_place hfits hin, Array.getElem?_eq_getElem hin]
      rfl
    · have hother : ∀ j < a.size, Key.place i ≠ .place j := by
        intro j hj h
        have hlast : i < lastPlace := Nat.lt_of_lt_of_le hi ht.fits
        exact hin (place_inj hlast (Nat.lt_of_lt_of_le hj hfits) h ▸ hj)
      rw [get_of_not_place hfits hother, Array.getElem?_eq_none (Nat.not_lt.mp hin)]
      exact ht.apart i hi
  · rw [get_of_not_place hfits fun i hi => hk i (Nat.lt_of_lt_of_le hi hsize), ht.get_eq_slot hk]
    rfl

end

/-- An array part with one value more, for which nothing is outside. -/
theorem Coherent.push (ht : t.Coherent) (hsize : t.seq.size < lastPlace) (hv : v ≠ .nil)
    (hnext : t.slotValue (.place t.seq.size) = .nil) : (t.withSeq (t.seq.push v)).Coherent where
  indexed := ⟨ht.indexed.located, ht.indexed.removed⟩
  proper := ht.proper
  fits := by
    show (t.seq.push v).size ≤ lastPlace
    rw [Array.size_push]
    exact hsize
  ends := by
    show (t.seq.push v).back? ≠ some .nil
    rw [Array.back?_push]
    exact fun h => hv (Option.some.inj h)
  apart := by
    intro i hi
    show t.slotValue (.place i) = .nil
    rw [show (t.withSeq (t.seq.push v)).seq = t.seq.push v from rfl, Array.size_push] at hi
    rcases Nat.lt_or_eq_of_le (Nat.le_of_lt_succ hi) with hi | rfl
    · exact ht.apart i hi
    · exact hnext

theorem Coherent.get_push (ht : t.Coherent) (hsize : t.seq.size < lastPlace) (k : Key) :
    (t.withSeq (t.seq.push v)).get k = if k = .place t.seq.size then v else t.get k := by
  have hfits : (t.withSeq (t.seq.push v)).seq.size ≤ lastPlace := by
    show (t.seq.push v).size ≤ lastPlace
    rw [Array.size_push]
    exact hsize
  have hlt {i : Nat} : i < (t.withSeq (t.seq.push v)).seq.size ↔ i < t.seq.size + 1 := by
    show i < (t.seq.push v).size ↔ _
    rw [Array.size_push]
  split
  · rename_i hk
    subst hk
    rw [get_place hfits (hlt.mpr (Nat.lt_succ_self _))]
    exact Array.getElem_push_eq
  · rename_i hk
    -- another key is one of the places before, or none of the array part
    by_cases hplace : ∀ i < t.seq.size, k ≠ .place i
    · rw [get_of_not_place hfits, ht.get_eq_slot hplace]
      · rfl
      · intro i hi
        rcases Nat.lt_or_eq_of_le (Nat.le_of_lt_succ (hlt.mp hi)) with hi | rfl
        · exact hplace i hi
        · exact hk
    · push Not at hplace
      obtain ⟨i, hi, rfl⟩ := hplace
      rw [get_place hfits (hlt.mpr (Nat.lt_succ_of_lt hi)), ht.get_eq_seq hi]
      exact Array.getElem_push_lt hi

/-! ## Entries that continue the array part -/

/-- Where nothing is outside, nothing is found there. -/
theorem Indexed.slotValue_of_vacant (ht : t.Indexed) (h : t.slots.size ≤ t.removed) (k : Key) :
    t.slotValue k = .nil := by
  by_contra hne
  have hall : t.slots.countP (·.2.isNil) = t.slots.size := by
    have : t.slots.countP (·.2.isNil) ≤ t.slots.size := Array.countP_le_size
    have := ht.removed
    omega
  have hmem := (ht.mem_slots_iff hne).mpr rfl
  exact hne (Value.isNil_iff.mp (Array.countP_eq_size.mp hall _ hmem))

/-- The entry behind the array part moved into it. -/
def moved (t : Table) (v : Value) : Table :=
  (t.setSlot (.place t.seq.size) .nil).withSeq (t.seq.push v)

theorem Coherent.moved (ht : t.Coherent) (hsize : t.seq.size < lastPlace) (hv : v ≠ .nil) :
    (t.moved v).Coherent ∧ ∀ k, (t.moved v).get k = if k = .place t.seq.size then v else t.get k := by
  have hseq : (t.setSlot (.place t.seq.size) .nil).seq = t.seq := seq_setSlot ..
  have hout : ∀ i < t.seq.size, Key.place t.seq.size ≠ .place i := fun i => ht.place_size_ne hsize
  have hset : (t.setSlot (.place t.seq.size) .nil).Coherent := ht.setSlot (fun _ => trivial) (.inl rfl)
  have hpush := hset.push (v := v)
  have hget := fun k => hset.get_push (v := v) (by rw [hseq]; exact hsize) k
  rw [hseq] at hpush hget
  unfold Table.moved
  refine ⟨hpush hsize hv ?_, fun k => ?_⟩
  · rw [ht.indexed.slotValue_setSlot, if_pos rfl]
  · rw [hget, ht.get_setSlot hout]
    split <;> rfl

/-- It leaves its place behind. -/
theorem Indexed.moved_eq (ht : t.Indexed) (hv : v ≠ .nil)
    (hnext : t.slotValue (.place t.seq.size) = v) :
    ∃ i, t.index[Key.place t.seq.size]? = some i ∧ t.slots[i]? = some (.place t.seq.size, v) ∧
      t.moved v = ⟨t.seq.push v, t.slots.setIfInBounds i (.place t.seq.size, .nil), t.index,
        t.removed + 1, t.metatable⟩ := by
  obtain ⟨i, hi⟩ := Array.mem_iff_getElem?.mp ((ht.mem_slots_iff hv).mpr hnext)
  have hindex := (ht.located _ _).mpr ⟨v, hi⟩
  have hcount := countP_replaced hi .nil
  rw [Value.isNil_eq_false_iff.mpr hv, ← ht.removed] at hcount
  refine ⟨i, hindex, hi, ?_⟩
  unfold Table.moved Table.withSeq
  rw [ht.setSlot_eq_replaced hindex]
  unfold Table.replaced
  rw [hcount]
  rfl

/-- One entry that continues the array part is moved into it, and then the rest. -/
theorem Indexed.absorb_succ (ht : t.Indexed) (hsize : t.seq.size < lastPlace) (hv : v ≠ .nil)
    (hnext : t.slotValue (.place t.seq.size) = v) (fuel : Nat) :
    t.absorb (fuel + 1) = (t.moved v).absorb fuel := by
  obtain ⟨i, hindex, hi, hmoved⟩ := ht.moved_eq hv hnext
  rw [hmoved, Table.absorb]
  unfold Key.place at hindex hi ⊢
  rw [if_neg (Nat.not_le.mpr hsize), hindex]
  dsimp only
  rw [hi]
  cases v with
  | nil => exact absurd rfl hv
  | _ => rfl

/-- Without one nothing is moved. -/
theorem Indexed.absorb_of_nil (ht : t.Indexed)
    (hv : t.seq.size < lastPlace → t.slotValue (.place t.seq.size) = .nil) (fuel : Nat) :
    t.absorb fuel = t := by
  cases fuel with
  | zero => rfl
  | succ fuel =>
    rw [Table.absorb]
    split
    · rfl
    · rename_i hsize
      have hnil := hv (Nat.lt_of_not_le hsize)
      unfold Key.place at hnil
      split
      · rfl
      · rename_i i hi
        obtain ⟨w, hw⟩ := (ht.located _ _).mp hi
        rw [ht.slotValue_of_getElem? hw] at hnil
        rw [hw, hnil]

/-- Moving the entries that continue the array part into it changes nothing that a key stands for, and
    leaves none behind if it goes on for long enough. -/
theorem Coherent.absorb (ht : t.Coherent) {fuel : Nat} (hfuel : t.slots.size ≤ t.removed + fuel) :
    (t.absorb fuel).Lawful ∧ ∀ k, (t.absorb fuel).get k = t.get k := by
  induction fuel generalizing t with
  | zero =>
    exact ⟨ht.lawful_of_vacant (ht.indexed.slotValue_of_vacant hfuel), fun _ => rfl⟩
  | succ fuel ih =>
    by_cases hnext : t.seq.size < lastPlace → t.slotValue (.place t.seq.size) = .nil
    · rw [ht.indexed.absorb_of_nil hnext]
      exact ⟨{ ht with border := hnext }, fun _ => rfl⟩
    · push Not at hnext
      obtain ⟨hsize, hv⟩ := hnext
      obtain ⟨hcoherent, hget⟩ := ht.moved hsize hv
      rw [ht.indexed.absorb_succ hsize hv rfl]
      -- one place less is taken
      have hless : (t.moved (t.slotValue (.place t.seq.size))).slots.size ≤
          (t.moved (t.slotValue (.place t.seq.size))).removed + fuel := by
        obtain ⟨i, -, -, hmoved⟩ := ht.indexed.moved_eq hv rfl
        rw [hmoved]
        dsimp only
        rw [Array.size_setIfInBounds]
        omega
      obtain ⟨hlawful, hrest⟩ := ih hcoherent hless
      refine ⟨hlawful, fun k => ?_⟩
      rw [hrest, hget]
      split
      · rename_i hk
        rw [hk, ht.get_eq_slot fun i => ht.place_size_ne hsize]
      · rfl

/-! ## Setting entries -/

/-- How an entry is set when its key is one of the array part. -/
theorem set_place (hi : i < t.seq.size) (hfits : t.seq.size ≤ lastPlace) (v : Value) :
    t.set (.place i) v = t.withSeq (if i + 1 = t.seq.size && v.isNil then trimmed t.seq.pop
      else t.seq.setIfInBounds i v) := by
  have hindex : t.seqIndex? (Int64.ofNat (i + 1)) = some i :=
    (seqPlace?_eq_some_iff (k := .place i) hfits).mpr ⟨rfl, hi⟩
  unfold Key.place Table.set setInt withSeq
  dsimp only
  rw [hindex]
  dsimp only
  split <;> rfl

/-- How an entry is set that continues the array part. -/
theorem set_next (hsize : t.seq.size < lastPlace) (hv : v ≠ .nil) :
    t.set (.place t.seq.size) v =
      if t.slots.isEmpty then t.withSeq (t.seq.push v)
      else if (t.moved v).slots.size = (t.moved v).removed then t.moved v
      else (t.moved v).absorb (t.moved v).slots.size := by
  have hindex : t.seqIndex? (Int64.ofNat (t.seq.size + 1)) = none := by
    refine (seqPlace?_eq_none_iff (k := .place t.seq.size) (Nat.le_of_lt hsize)).mpr fun i hi h => ?_
    exact absurd (place_inj hsize (Nat.lt_trans hi hsize) h) (Nat.ne_of_gt hi)
  have hmoved : t.moved v =
      (t.setSlot (.place t.seq.size) .nil).withSeq ((t.setSlot (.place t.seq.size) .nil).seq.push v) := by
    rw [seq_setSlot]
    rfl
  rw [hmoved]
  unfold Key.place Table.set setInt withSeq
  dsimp only
  rw [hindex, toInt_ofNat_succ hsize]
  dsimp only
  rw [Value.isNil_eq_false_iff.mpr hv]
  simp only [decide_true, Bool.and_true, if_true, Bool.false_eq_true, not_false_eq_true]

/-- How any other entry is set. -/
theorem Coherent.set_other (ht : t.Coherent) (hplace : ∀ i < t.seq.size, k ≠ .place i)
    (hnext : t.seq.size < lastPlace → v ≠ .nil → k ≠ .place t.seq.size) :
    t.set k v = t.setSlot k v := by
  cases k with
  | int n =>
    have hindex : t.seqIndex? n = none :=
      (seqPlace?_eq_none_iff (k := .int n) ht.fits).mpr hplace
    unfold Table.set setInt
    dsimp only
    rw [hindex]
    dsimp only
    rw [if_neg]
    rw [Bool.and_eq_true, decide_eq_true_iff, decide_eq_true_iff, Value.isNil_iff]
    rintro ⟨hsize, hv⟩
    obtain ⟨hk, hlt⟩ := int_eq_place hsize
    exact hnext hlt hv hk
  | _ => rfl

/-- What has no entries outside the array part has none that continues it. -/
theorem Indexed.slotValue_of_isEmpty (ht : t.Indexed) (h : t.slots.isEmpty) (k : Key) :
    t.slotValue k = .nil :=
  ht.slotValue_of_vacant (by rw [Array.isEmpty_iff_size_eq_zero.mp h]; exact Nat.zero_le _) k

/-- The array part after the value of one of its places is set. -/
theorem set_seq_spec (hfits : t.seq.size ≤ lastPlace) (hends : t.seq.back? ≠ some .nil)
    (hi : i < t.seq.size) (v : Value) : ∃ a : Array Value, t.set (.place i) v = t.withSeq a ∧
      a.size ≤ t.seq.size ∧ a.back? ≠ some .nil ∧
      ∀ j, a.getD j .nil = if j = i then v else t.seq.getD j .nil := by
  refine ⟨_, set_place hi hfits v, ?_⟩
  split
  · rename_i hlast
    obtain ⟨hdecided, hv⟩ := Bool.and_eq_true_iff.mp hlast
    obtain rfl := Value.isNil_iff.mp hv
    have hlast : i + 1 = t.seq.size := of_decide_eq_true hdecided
    have hpop : t.seq.pop.size ≤ t.seq.size := Array.size_pop ▸ Nat.sub_le ..
    refine ⟨Nat.le_trans (size_trimmed_le _) hpop, back?_trimmed _, fun j => ?_⟩
    rw [getD_trimmed, getD_pop, ← hlast]
    simp only [Nat.add_right_cancel_iff]
  · rename_i hlast
    refine ⟨Nat.le_of_eq Array.size_setIfInBounds, back?_setIfInBounds hends fun hsize hv => ?_,
      getD_setIfInBounds hi v⟩
    exact hlast (Bool.and_eq_true_iff.mpr ⟨decide_eq_true hsize, Value.isNil_iff.mpr hv⟩)

/-- What setting the entry of a place of the array part makes of a table. -/
theorem Lawful.set_place_spec (ht : t.Lawful) (hi : i < t.seq.size) (v : Value) :
    (t.set (.place i) v).Lawful ∧
      ∀ k', (t.set (.place i) v).get k' = if k' = .place i then v else t.get k' := by
  obtain ⟨a, hset, hsize, hends, hvalues⟩ := set_seq_spec ht.fits ht.ends hi v
  obtain ⟨hin, hout⟩ := ht.toCoherent.get_withSeq hsize
  rw [hset]
  refine ⟨ht.withSeq hsize hends, fun k' => ?_⟩
  by_cases hplace' : ∀ j < t.seq.size, k' ≠ .place j
  · rw [hout k' hplace', if_neg (hplace' i hi)]
  · push Not at hplace'
    obtain ⟨j, hj, rfl⟩ := hplace'
    rw [hin j hj, hvalues j]
    by_cases hji : j = i
    · rw [if_pos hji, if_pos (congrArg _ hji)]
    · rw [if_neg hji, if_neg fun h => hji (place_inj (Nat.lt_of_lt_of_le hj ht.fits)
        (Nat.lt_of_lt_of_le hi ht.fits) h), ht.get_eq_seq hj]
      simp [Array.getD, hj]

/-- And of the place behind it. -/
theorem Lawful.set_next_spec (ht : t.Lawful) (hsize : t.seq.size < lastPlace) (hv : v ≠ .nil) :
    (t.set (.place t.seq.size) v).Lawful ∧
      ∀ k', (t.set (.place t.seq.size) v).get k' =
        if k' = .place t.seq.size then v else t.get k' := by
  rw [set_next hsize hv]
  split
  · rename_i hempty
    have hnone := ht.indexed.slotValue_of_isEmpty hempty
    exact ⟨(ht.toCoherent.push hsize hv (hnone _)).lawful_of_vacant hnone,
      ht.toCoherent.get_push hsize⟩
  · -- the entry that is there moves into the array part, and what continues it follows
    obtain ⟨hmoved, hget⟩ := ht.toCoherent.moved hsize hv
    split
    · rename_i hall
      exact ⟨hmoved.lawful_of_vacant
        (hmoved.indexed.slotValue_of_vacant (Nat.le_of_eq hall)), hget⟩
    · obtain ⟨hlawful, hsame⟩ := hmoved.absorb (Nat.le_add_left _ _)
      exact ⟨hlawful, fun k' => (hsame k').trans (hget k')⟩

/-- And of any other key. -/
theorem Lawful.set_other_spec (ht : t.Lawful) (hk : k.Proper)
    (hplace : ∀ i < t.seq.size, k ≠ .place i)
    (hnext : t.seq.size < lastPlace → v ≠ .nil → k ≠ .place t.seq.size) :
    (t.set k v).Lawful ∧ ∀ k', (t.set k v).get k' = if k' = k then v else t.get k' := by
  rw [ht.toCoherent.set_other hplace hnext]
  refine ⟨⟨ht.toCoherent.setSlot (fun _ => hk) (.inr hplace), fun hsize => ?_⟩,
    ht.toCoherent.get_setSlot hplace v⟩
  rw [seq_setSlot] at hsize ⊢
  rw [ht.indexed.slotValue_setSlot]
  split
  · rename_i hsame
    by_contra hv
    exact hnext hsize hv hsame.symm
  · exact ht.border hsize

/-- Setting an entry keeps a table lawful; its key then stands for its value, and every other one for
    what it did. -/
theorem Lawful.set_spec (ht : t.Lawful) (hk : k.Proper) (v : Value) :
    (t.set k v).Lawful ∧ ∀ k', (t.set k v).get k' = if k' = k then v else t.get k' := by
  by_cases hplace : ∀ i < t.seq.size, k ≠ .place i
  · by_cases hnext : t.seq.size < lastPlace → v ≠ .nil → k ≠ .place t.seq.size
    · exact ht.set_other_spec hk hplace hnext
    · push Not at hnext
      obtain ⟨hsize, hv, rfl⟩ := hnext
      exact ht.set_next_spec hsize hv
  · push Not at hplace
    obtain ⟨i, hi, rfl⟩ := hplace
    exact ht.set_place_spec hi v

theorem Lawful.set (ht : t.Lawful) (hk : k.Proper) (v : Value) : (t.set k v).Lawful :=
  (ht.set_spec hk v).1

theorem Lawful.get_set (ht : t.Lawful) (hk : k.Proper) (v : Value) (k' : Key) :
    (t.set k v).get k' = if k' = k then v else t.get k' := (ht.set_spec hk v).2 k'

end Table

end OscHost.Script
