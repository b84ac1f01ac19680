import Mathlib.Data.List.Nodup
import OscHost.Proofs.Script.Entries
/-!
  Entries outside the array part.

  Such an entry has a place, and the index knows the place of every key that has one
  (`Table.Indexed`).  Removed entries keep theirs, so what a key stands for is the value at its place
  (`Table.slotValue`), and the entries that are not nil are exactly the keys that stand for something
  (`Indexed.mem_slots_iff`).  Setting an entry changes what its key stands for and nothing else,
  even when that makes all others move (`Indexed.slotValue_setSlot`).
-/

namespace OscHost.Script

theorem Value.isNil_iff {v : Value} : v.isNil = true ↔ v = .nil := by
  cases v <;> simp [Value.isNil]

theorem Value.isNil_eq_false_iff {v : Value} : v.isNil = false ↔ v ≠ .nil := by
  cases v <;> simp [Value.isNil]

namespace Table

variable {t u : Table} {k k' : Key} {v : Value}

/-- What a key stands for outside the array part. -/
def slotValue (t : Table) (k : Key) : Value :=
  match t.index[k]? with
  | some i => (t.slots.getD i (.int 0, .nil)).2
  | none => .nil

/-- Whether the index has the place of every entry and no other, and the removed ones are counted. -/
structure Indexed (t : Table) : Prop where
  located : ∀ (k : Key) (i : Nat), t.index[k]? = some i ↔ ∃ v, t.slots[i]? = some (k, v)
  removed : t.removed = t.slots.countP (·.2.isNil)

theorem indexed_empty : ({} : Table).Indexed := ⟨by simp, rfl⟩

/-! ## Reading -/

theorem Indexed.slotValue_of_getElem? (ht : t.Indexed) {i : Nat} (hi : t.slots[i]? = some (k, v)) :
    t.slotValue k = v := by
  unfold slotValue
  rw [(ht.located k i).mpr ⟨v, hi⟩]
  dsimp only
  rw [Array.getD_eq_getD_getElem?, hi]
  rfl

/-- The entries that are there are the keys that stand for something. -/
theorem Indexed.mem_slots_iff (ht : t.Indexed) (hv : v ≠ .nil) :
    (k, v) ∈ t.slots ↔ t.slotValue k = v := by
  constructor
  · intro hmem
    obtain ⟨i, hi⟩ := Array.mem_iff_getElem?.mp hmem
    exact ht.slotValue_of_getElem? hi
  · intro hslot
    unfold slotValue at hslot
    cases hindex : t.index[k]? with
    | none =>
      rw [hindex] at hslot
      exact absurd hslot.symm hv
    | some i =>
      obtain ⟨w, hw⟩ := (ht.located k i).mp hindex
      rw [hindex] at hslot
      dsimp only at hslot
      rw [Array.getD_eq_getD_getElem?, hw] at hslot
      obtain rfl : w = v := hslot
      exact Array.mem_of_getElem? hw

theorem slotValue_of_not_mem (hk : t.index[k]? = none) : t.slotValue k = .nil := by
  unfold slotValue
  rw [hk]

/-- What a key stands for is told by the entries that are there. -/
theorem Indexed.slotValue_congr (ht : t.Indexed) (hu : u.Indexed)
    (h : ∀ v, v ≠ .nil → ((k, v) ∈ u.slots ↔ (k, v) ∈ t.slots)) : u.slotValue k = t.slotValue k := by
  by_cases hnil : u.slotValue k = .nil
  · by_contra hne
    have hne' : t.slotValue k ≠ .nil := fun ht' => hne (hnil.trans ht'.symm)
    have hmem := (h _ hne').mpr ((ht.mem_slots_iff hne').mpr rfl)
    exact hne ((hu.mem_slots_iff hne').mp hmem)
  · have hmem := (h _ hnil).mp ((hu.mem_slots_iff hnil).mpr rfl)
    exact ((ht.mem_slots_iff hnil).mp hmem).symm

/-- No key has two entries. -/
theorem Indexed.slots_distinct (ht : t.Indexed) : (t.slots.toList.map (·.1)).Nodup := by
  refine List.nodup_iff_injective_get.mpr fun i j hij => Fin.ext ?_
  have hplace (i : Fin (t.slots.toList.map (·.1)).length) :
      t.index[(t.slots.toList.map (·.1)).get i]? = some i.1 := by
    have hi : i.1 < t.slots.size := by simpa using i.2
    refine (ht.located _ _).mpr ⟨(t.slots[i.1]).2, ?_⟩
    rw [Array.getElem?_eq_getElem hi]
    simp
  have hi := hplace i
  rw [hij, hplace j] at hi
  exact (Option.some.inj hi).symm

/-! ## Giving up places -/

/-- An index of entries with different keys has their places. -/
theorem getElem?_foldl_insert {l : List (Key × Value)} (hl : (l.map (·.1)).Nodup)
    {m : Std.HashMap Key Nat} {n : Nat} (hm : ∀ e ∈ l, m[e.1]? = none) (k : Key) (i : Nat) :
    (l.foldl (fun (m : Std.HashMap Key Nat × Nat) e => (m.1.insert e.1 m.2, m.2 + 1))
        (m, n)).1[k]? = some i ↔
      m[k]? = some i ∨ ∃ j v, l[j]? = some (k, v) ∧ i = n + j := by
  induction l generalizing m n with
  | nil => simp
  | cons e l ih =>
    obtain ⟨he, hl⟩ := List.nodup_cons.mp hl
    have hnew : m[e.1]? = none := hm e List.mem_cons_self
    have hrest : ∀ f ∈ l, (m.insert e.1 n)[f.1]? = none := by
      intro f hf
      rw [Std.HashMap.getElem?_insert, if_neg]
      · exact hm f (List.mem_cons_of_mem e hf)
      · exact fun h => he (List.mem_map.mpr ⟨f, hf, (eq_of_beq h).symm⟩)
    have hhead : (m.insert e.1 n)[k]? = some i ↔ m[k]? = some i ∨ e.1 = k ∧ i = n := by
      rw [Std.HashMap.getElem?_insert]
      by_cases hk : e.1 = k
      · rw [if_pos (beq_iff_eq.mpr hk), ← hk, hnew]
        simp [eq_comm]
      · rw [if_neg (fun h => hk (eq_of_beq h))]
        simp [hk]
    have hplaces : (∃ j v, (e :: l)[j]? = some (k, v) ∧ i = n + j) ↔
        e.1 = k ∧ i = n ∨ ∃ j v, l[j]? = some (k, v) ∧ i = n + 1 + j := by
      constructor
      · rintro ⟨j, v, hj, rfl⟩
        cases j with
        | zero =>
          obtain rfl := Option.some.inj hj
          exact .inl ⟨rfl, rfl⟩
        | succ j => exact .inr ⟨j, v, hj, by omega⟩
      · rintro (⟨rfl, rfl⟩ | ⟨j, v, hj, rfl⟩)
        · exact ⟨0, e.2, rfl, rfl⟩
        · exact ⟨j + 1, v, hj, by omega⟩
    rw [List.foldl_cons, ih hl hrest, hhead, hplaces, or_assoc]

/-- Giving up the places of removed entries changes nothing that a key stands for. -/
theorem Indexed.compacted (ht : t.Indexed) : t.compacted.Indexed := by
  have hdistinct : ((t.slots.filter fun e => ¬ e.2.isNil).toList.map (·.1)).Nodup := by
    rw [Array.toList_filter]
    exact ht.slots_distinct.sublist (List.filter_sublist.map _)
  refine ⟨fun k i => ?_, ?_⟩
  · unfold Table.compacted
    dsimp only
    rw [← Array.foldl_toList, getElem?_foldl_insert hdistinct (fun _ _ => by simp)]
    simp [← Array.getElem?_toList]
  · unfold Table.compacted
    dsimp only
    rw [Array.countP_filter]
    symm
    rw [Array.countP_eq_zero]
    simp

theorem Indexed.slotValue_compacted (ht : t.Indexed) (k : Key) :
    t.compacted.slotValue k = t.slotValue k := by
  refine ht.slotValue_congr ht.compacted fun v hv => ?_
  show (k, v) ∈ t.slots.filter _ ↔ _
  rw [Array.mem_filter]
  simp [Value.isNil_eq_false_iff.mpr hv]

/-! ## Setting entries -/

/-- The entry at a place replaced. -/
def replaced (t : Table) (i : Nat) (k : Key) (v : Value) : Table :=
  { t with
    slots := t.slots.setIfInBounds i (k, v)
    removed := (t.slots.setIfInBounds i (k, v)).countP (·.2.isNil) }

/-- The count of removed entries after one is replaced. -/
theorem countP_replaced {i : Nat} {w : Value} (hi : t.slots[i]? = some (k, w)) (v : Value) :
    (t.slots.setIfInBounds i (k, v)).countP (·.2.isNil) =
      (t.slots.countP (·.2.isNil) - if w.isNil then 1 else 0) + if v.isNil then 1 else 0 := by
  obtain ⟨hlt, hw⟩ := Array.getElem?_eq_some_iff.mp hi
  unfold Array.setIfInBounds
  rw [dif_pos hlt, Array.countP_set, hw]

/-- Setting the entry of a key that has a place replaces what is there. -/
theorem Indexed.setSlot_eq_replaced (ht : t.Indexed) {i : Nat} (hi : t.index[k]? = some i)
    (v : Value) : t.setSlot k v = t.replaced i k v := by
  obtain ⟨w, hw⟩ := (ht.located k i).mp hi
  have hcount := countP_replaced hw v
  have hold : (t.slots.getD i (k, .nil)).2 = w := by
    rw [Array.getD_eq_getD_getElem?, hw]
    rfl
  unfold replaced
  rw [hcount, ← ht.removed]
  cases hv : v.isNil with
  | true =>
    obtain rfl := Value.isNil_iff.mp hv
    rw [setSlot_nil_of_some hi, hold]
    cases hnil : w.isNil with
    | true =>
      -- there was nothing and there is nothing
      obtain rfl := Value.isNil_iff.mp hnil
      obtain ⟨hlt, hentry⟩ := Array.getElem?_eq_some_iff.mp hw
      have hsome : 0 < t.slots.countP (·.2.isNil) :=
        Array.countP_pos_iff.mpr ⟨_, Array.mem_of_getElem? hw, rfl⟩
      have hsame : t.slots.setIfInBounds i (k, .nil) = t.slots := by
        rw [← hentry]
        unfold Array.setIfInBounds
        rw [dif_pos hlt, Array.set_getElem_self]
      have hremoved : t.removed - 1 + 1 = t.removed := by
        rw [ht.removed]
        omega
      show t = ⟨t.seq, t.slots.setIfInBounds i (k, .nil), t.index, t.removed - 1 + 1, t.metatable⟩
      rw [hsame, hremoved]
    | false => rfl
  | false =>
    rw [setSlot_of_some hi hv, hold]
    cases w.isNil <;> rfl

theorem Indexed.replaced (ht : t.Indexed) {i : Nat} (hi : t.index[k]? = some i) (v : Value) :
    (t.replaced i k v).Indexed := by
  obtain ⟨w, hw⟩ := (ht.located k i).mp hi
  obtain ⟨hlt, -⟩ := Array.getElem?_eq_some_iff.mp hw
  refine ⟨fun k' j => ?_, rfl⟩
  show t.index[k']? = some j ↔ ∃ v', (t.slots.setIfInBounds i (k, v))[j]? = some (k', v')
  rw [ht.located, Array.getElem?_setIfInBounds]
  by_cases hj : i = j
  · subst hj
    rw [hw, if_pos rfl, if_pos hlt]
    simp
  · rw [if_neg hj]

theorem Indexed.slotValue_replaced (ht : t.Indexed) {i : Nat} (hi : t.index[k]? = some i)
    (v : Value) (k' : Key) :
    (t.replaced i k v).slotValue k' = if k' = k then v else t.slotValue k' := by
  obtain ⟨w, hw⟩ := (ht.located k i).mp hi
  obtain ⟨hlt, -⟩ := Array.getElem?_eq_some_iff.mp hw
  split
  · rename_i hk
    subst hk
    refine (ht.replaced hi v).slotValue_of_getElem? (i := i) ?_
    show (t.slots.setIfInBounds i (k', v))[i]? = _
    rw [Array.getElem?_setIfInBounds, if_pos rfl, if_pos hlt]
  · rename_i hk
    unfold slotValue
    show (match t.index[k']? with
      | some j => ((t.slots.setIfInBounds i (k, v)).getD j (.int 0, .nil)).2
      | none => .nil) = _
    cases hj : t.index[k']? with
    | none => rfl
    | some j =>
      have hne : i ≠ j := by
        rintro rfl
        obtain ⟨w', hw'⟩ := (ht.located k' i).mp hj
        rw [hw] at hw'
        exact hk (Prod.mk.inj (Option.some.inj hw')).1.symm
      dsimp only
      rw [Array.getD_eq_getD_getElem?, Array.getElem?_setIfInBounds, if_neg hne,
        Array.getD_eq_getD_getElem?]

theorem Indexed.roomy (ht : t.Indexed) : t.roomy.Indexed := by
  unfold Table.roomy
  split
  · exact ht.compacted
  · exact ht

theorem Indexed.slotValue_roomy (ht : t.Indexed) (k : Key) :
    t.roomy.slotValue k = t.slotValue k := by
  unfold Table.roomy
  split
  · exact ht.slotValue_compacted k
  · rfl

/-- A key without a place has none after others have given up theirs. -/
theorem Indexed.index_roomy (ht : t.Indexed) (hk : t.index[k]? = none) :
    t.roomy.index[k]? = none := by
  unfold Table.roomy
  split
  · cases hi : t.compacted.index[k]? with
    | none => rfl
    | some i =>
      obtain ⟨v, hv⟩ := (ht.compacted.located k i).mp hi
      have hmem : (k, v) ∈ t.slots := (Array.mem_filter.mp (Array.mem_of_getElem? hv)).1
      obtain ⟨j, hj⟩ := Array.mem_iff_getElem?.mp hmem
      rw [(ht.located k j).mpr ⟨v, hj⟩] at hk
      cases hk
  · exact hk

/-- A new entry at the end. -/
def added (t : Table) (k : Key) (v : Value) : Table :=
  { t with slots := t.slots.push (k, v), index := t.index.insert k t.slots.size }

theorem Indexed.added (ht : t.Indexed) (hk : t.index[k]? = none) (hv : v ≠ .nil) :
    (t.added k v).Indexed := by
  have hold : ∀ w, t.slots[t.slots.size]? ≠ some (k, w) := by simp
  refine ⟨fun k' j => ?_, ?_⟩
  · show (t.index.insert k t.slots.size)[k']? = some j ↔ ∃ v', (t.slots.push (k, v))[j]? = some (k', v')
    rw [Std.HashMap.getElem?_insert, Array.getElem?_push]
    by_cases hk' : k = k'
    · subst hk'
      rw [if_pos BEq.rfl]
      by_cases hj : j = t.slots.size
      · rw [if_pos hj, hj]
        simp
      · rw [if_neg hj]
        refine iff_of_false (fun h => hj (Option.some.inj h).symm) fun h => ?_
        rw [(ht.located k j).mpr h] at hk
        cases hk
    · rw [if_neg (fun h => hk' (eq_of_beq h)), ht.located]
      by_cases hj : j = t.slots.size
      · rw [if_pos hj, hj]
        simp [hk']
      · rw [if_neg hj]
  · show t.removed = (t.slots.push (k, v)).countP _
    rw [Array.countP_push, ht.removed, Value.isNil_eq_false_iff.mpr hv]
    rfl

theorem Indexed.slotValue_added (ht : t.Indexed) (hk : t.index[k]? = none) (hv : v ≠ .nil)
    (k' : Key) : (t.added k v).slotValue k' = if k' = k then v else t.slotValue k' := by
  have hadded := ht.added hk hv
  split
  · rename_i hk'
    subst hk'
    exact (hadded.mem_slots_iff hv).mp (Array.mem_push.mpr (.inr rfl))
  · rename_i hk'
    refine ht.slotValue_congr hadded fun w hw => ?_
    show (k', w) ∈ t.slots.push (k, v) ↔ _
    rw [Array.mem_push]
    simp [hk']

/-- Setting an entry keeps the index right. -/
theorem Indexed.setSlot (ht : t.Indexed) (k : Key) (v : Value) : (t.setSlot k v).Indexed := by
  cases hi : t.index[k]? with
  | some i =>
    rw [ht.setSlot_eq_replaced hi]
    exact ht.replaced hi v
  | none =>
    by_cases hv : v = .nil
    · rw [setSlot_nil_of_none (Value.isNil_iff.mpr hv) hi]
      exact ht
    · rw [setSlot_of_none hi (Value.isNil_eq_false_iff.mpr hv)]
      exact ht.roomy.added (ht.index_roomy hi) hv

/-- Setting an entry changes what its key stands for and nothing else. -/
theorem Indexed.slotValue_setSlot (ht : t.Indexed) (k : Key) (v : Value) (k' : Key) :
    (t.setSlot k v).slotValue k' = if k' = k then v else t.slotValue k' := by
  cases hi : t.index[k]? with
  | some i => rw [ht.setSlot_eq_replaced hi, ht.slotValue_replaced hi]
  | none =>
    by_cases hv : v = .nil
    · rw [setSlot_nil_of_none (Value.isNil_iff.mpr hv) hi]
      split
      · rename_i hk
        rw [hk, slotValue_of_not_mem hi, hv]
      · rfl
    · rw [setSlot_of_none hi (Value.isNil_eq_false_iff.mpr hv)]
      exact (ht.roomy.slotValue_added (ht.index_roomy hi) hv k').trans
        (by rw [ht.slotValue_roomy])

/-- It gives no other key a place. -/
theorem Indexed.index_setSlot_of_ne (ht : t.Indexed) (hk' : t.index[k']? = none) (hne : k' ≠ k)
    (v : Value) : (t.setSlot k v).index[k']? = none := by
  cases hi : t.index[k]? with
  | some i =>
    rw [ht.setSlot_eq_replaced hi]
    exact hk'
  | none =>
    by_cases hv : v = .nil
    · rw [setSlot_nil_of_none (Value.isNil_iff.mpr hv) hi]
      exact hk'
    · rw [setSlot_of_none hi (Value.isNil_eq_false_iff.mpr hv)]
      dsimp only
      rw [Std.HashMap.getElem?_insert, if_neg fun h => hne (eq_of_beq h).symm]
      exact ht.index_roomy hk'

@[simp] theorem seq_setSlot (t : Table) (k : Key) (v : Value) : (t.setSlot k v).seq = t.seq := by
  unfold Table.setSlot
  split
  · split <;> split <;> rfl
  · split
    · rfl
    · dsimp only
      split <;> rfl

end Table

end OscHost.Script
