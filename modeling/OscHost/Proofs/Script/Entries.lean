import OscHost.Script.Table
/-!
  What the entries of tables are.

  `Table.Each K P t` says that the keys of a table, as values, satisfy `K` and its values `P`.
  Reading yields such values, and every operation on tables keeps the property when what it puts
  in satisfies it: entries only move between the two parts of a table, are dropped, or become nil.
  Nothing here looks into the index of a table, so nothing depends on how keys are hashed.
-/

namespace OscHost.Script

namespace Table

/-- All keys satisfy one property and all values another one. -/
structure Each (K P : Value → Prop) (t : Table) : Prop where
  seq : ∀ v ∈ t.seq, P v
  keys : ∀ e ∈ t.slots, K e.1.toValue
  values : ∀ e ∈ t.slots, P e.2

variable {K P : Value → Prop} {t : Table} {k : Key} {v : Value}

theorem Each.mono {Q : Value → Prop} (h : t.Each K P) (hpq : ∀ v, P v → Q v) : t.Each K Q :=
  ⟨fun v hv => hpq v (h.seq v hv), h.keys, fun e he => hpq e.2 (h.values e he)⟩

theorem each_empty : ({} : Table).Each K P :=
  ⟨fun _ hv => absurd hv (Array.not_mem_empty _), fun _ he => absurd he (Array.not_mem_empty _),
    fun _ he => absurd he (Array.not_mem_empty _)⟩

/-! ## Arrays -/

section Arrays

variable {α : Type} {a : Array α} {x y : α}

theorem mem_of_mem_setIfInBounds {i : Nat} (h : y ∈ a.setIfInBounds i x) : y ∈ a ∨ y = x :=
  Array.mem_or_eq_of_mem_setIfInBounds h

theorem mem_of_mem_pop (h : y ∈ a.pop) : y ∈ a := by
  obtain ⟨i, hi, rfl⟩ := Array.mem_iff_getElem.mp h
  rw [Array.getElem_pop]
  exact Array.getElem_mem _

theorem getD_of_mem {Q : α → Prop} (h : ∀ y ∈ a, Q y) (hx : Q x) (i : Nat) : Q (a.getD i x) := by
  rw [Array.getD_eq_getD_getElem?]
  rcases hi : a[i]? with _ | y
  · exact hx
  · exact h y (Array.mem_of_getElem? hi)

end Arrays

/-! ## Reading -/

theorem Each.getInt (h : t.Each K P) (hnil : P .nil) (n : Int64) : P (t.getInt n) := by
  unfold Table.getInt
  split
  · exact getD_of_mem h.seq hnil _
  · split
    · exact getD_of_mem h.values hnil _
    · exact hnil

theorem Each.get (h : t.Each K P) (hnil : P .nil) (k : Key) : P (t.get k) := by
  unfold Table.get
  split
  · exact h.getInt hnil _
  · split
    · exact getD_of_mem h.values hnil _
    · exact hnil

theorem seqFrom_mem {i : Nat} {e : Key × Value} (h : t.seqFrom i = some e) :
    (∃ n, e.1 = .int n) ∧ e.2 ∈ t.seq := by
  fun_induction t.seqFrom i with
  | case1 i hi hn ih => exact ih h
  | case2 i hi hn =>
    cases h
    exact ⟨⟨_, rfl⟩, Array.getElem_mem hi⟩
  | case3 i hi => cases h

theorem slotFrom_mem {i : Nat} {e : Key × Value} (h : t.slotFrom i = some e) : e ∈ t.slots := by
  fun_induction t.slotFrom i with
  | case1 i hi k hk ih => exact ih h
  | case2 i hi hk =>
    cases h
    exact Array.getElem_mem hi
  | case3 i hi => cases h

/-- The next entry of a traversal is one of the table. -/
theorem Each.next (h : t.Each K P) (hint : ∀ n, K (.int n)) {k : Option Key} {e : Key × Value}
    (he : t.next k = some (some e)) : K e.1.toValue ∧ P e.2 := by
  -- the array part comes first, then the entries outside it
  have hslot : ∀ i, t.slotFrom i = some e → K e.1.toValue ∧ P e.2 := fun i hi =>
    ⟨h.keys e (slotFrom_mem hi), h.values e (slotFrom_mem hi)⟩
  have hseq : ∀ i, (t.seqFrom i <|> t.slotFrom 0) = some e → K e.1.toValue ∧ P e.2 := by
    intro i hi
    rcases hs : t.seqFrom i with _ | e'
    · rw [hs] at hi
      exact hslot 0 hi
    · rw [hs] at hi
      cases hi
      obtain ⟨⟨n, hn⟩, hv⟩ := seqFrom_mem hs
      exact ⟨hn ▸ hint n, h.seq _ hv⟩
  unfold Table.next at he
  split at he
  · exact hseq _ (Option.some.inj he)
  · split at he
    · exact hseq _ (Option.some.inj he)
    · split at he
      · exact hslot _ (Option.some.inj he)
      · split at he
        · exact hslot _ (Option.some.inj he)
        · cases he
  · split at he
    · exact hslot _ (Option.some.inj he)
    · cases he

/-! ## Writing -/

theorem mem_of_mem_trimmed {a : Array Value} {v : Value} (h : v ∈ trimmed a) : v ∈ a := by
  fun_induction trimmed a with
  | case1 a ha hn ih => exact mem_of_mem_pop (ih h)
  | case2 a ha hn => exact h
  | case3 a ha => exact h

theorem Each.compacted (h : t.Each K P) : t.compacted.Each K P := by
  refine ⟨h.seq, fun e he => ?_, fun e he => ?_⟩
  · exact h.keys e (Array.mem_filter.mp he).1
  · exact h.values e (Array.mem_filter.mp he).1

/-- Replacing the entry at a place, whatever else changes beside the entries. -/
theorem Each.replace (h : t.Each K P) (hk : K k.toValue) (hv : P v) {seq : Array Value}
    (hseq : ∀ v ∈ seq, P v) (i : Nat) (index : Std.HashMap Key Nat) (removed : Nat)
    (metatable : Option Nat) :
    Each K P ⟨seq, t.slots.setIfInBounds i (k, v), index, removed, metatable⟩ := by
  refine ⟨hseq, fun e he => ?_, fun e he => ?_⟩
  · rcases mem_of_mem_setIfInBounds he with he | rfl
    · exact h.keys e he
    · exact hk
  · rcases mem_of_mem_setIfInBounds he with he | rfl
    · exact h.values e he
    · exact hv

theorem Each.setSlot (h : t.Each K P) (hk : K k.toValue) (hv : P v) :
    (t.setSlot k v).Each K P := by
  unfold Table.setSlot
  split
  · -- the key has a place
    split
    · split
      · exact h
      · exact h.replace hk hv h.seq ..
    · split
      · exact h.replace hk hv h.seq ..
      · exact h.replace hk hv h.seq ..
  · split
    · exact h
    · -- a new key comes last, after the removed entries may have been given up
      have ht : Each K P (if t.slots.size < 2 * t.removed then t.compacted else t) := by
        split
        · exact h.compacted
        · exact h
      refine ⟨ht.seq, fun e he => ?_, fun e he => ?_⟩
      · rcases Array.mem_push.mp he with he | rfl
        · exact ht.keys e he
        · exact hk
      · rcases Array.mem_push.mp he with he | rfl
        · exact ht.values e he
        · exact hv

theorem Each.absorb (h : t.Each K P) (hnil : P .nil) (hint : ∀ n, K (.int n)) (fuel : Nat) :
    (t.absorb fuel).Each K P := by
  fun_induction t.absorb fuel with
  | case1 t => exact h
  | case2 t fuel hsize => exact h
  | case3 t fuel k hsize hk => exact h
  | case4 t fuel k hsize i hi k' hi' => exact h
  | case5 t fuel k hsize i hi hi' => exact h
  | case6 fuel seq slots index removed metatable k hsize i hi k' v hv hi' ih =>
    refine ih (h.replace (k := .int _) (hint _) hnil (fun w hw => ?_) ..)
    rcases Array.mem_push.mp hw with hw | rfl
    · exact h.seq w hw
    · exact h.values _ (Array.mem_of_getElem? hi')

theorem Each.setInt (h : t.Each K P) (hnil : P .nil) (hint : ∀ n, K (.int n)) (n : Int64)
    (hv : P v) : (t.setInt n v).Each K P := by
  -- inside the array part, behind its end, or outside
  have hslot : ∀ v, P v → (t.setSlot (.int n) v).Each K P := fun v hv => h.setSlot (hint n) hv
  have hpush : ∀ {t : Table}, t.Each K P → Each K P
      ⟨t.seq.push v, t.slots, t.index, t.removed, t.metatable⟩ := by
    refine fun ht => ⟨fun w hw => ?_, ht.keys, ht.values⟩
    rcases Array.mem_push.mp hw with hw | rfl
    · exact ht.seq w hw
    · exact hv
  unfold Table.setInt
  split
  · dsimp only
    split
    · exact ⟨fun w hw => h.seq w (mem_of_mem_pop (mem_of_mem_trimmed hw)), h.keys, h.values⟩
    · refine ⟨fun w hw => ?_, h.keys, h.values⟩
      rcases mem_of_mem_setIfInBounds hw with hw | rfl
      · exact h.seq w hw
      · exact hv
  · split
    · split
      · exact hpush h
      · dsimp only
        split
        · exact hpush (hslot .nil hnil)
        · exact (hpush (hslot .nil hnil)).absorb hnil hint _
    · exact hslot v hv

theorem Each.set (h : t.Each K P) (hnil : P .nil) (hint : ∀ n, K (.int n)) (hk : K k.toValue)
    (hv : P v) : (t.set k v).Each K P := by
  unfold Table.set
  split
  · exact h.setInt hnil hint _ hv
  · exact h.setSlot hk hv

theorem Each.withMetatable (h : t.Each K P) (m : Option Nat) :
    ({ t with metatable := m } : Table).Each K P := ⟨h.seq, h.keys, h.values⟩

/-! ## Filling -/

theorem mem_of_mem_extract {α : Type} {a : Array α} {x : α} {i j : Nat} (h : x ∈ a.extract i j) :
    x ∈ a := by
  obtain ⟨k, _, rfl⟩ := Array.mem_extract_iff_getElem.mp h
  exact Array.getElem_mem _

theorem each_ofList {values : List Value} (hint : ∀ n, K (.int n)) (h : ∀ v ∈ values, P v) :
    (ofList values).Each K P := by
  have hmem : ∀ i j, ∀ v ∈ values.toArray.extract i j, P v := fun i j v hv =>
    h v (List.mem_toArray.mp (mem_of_mem_extract hv))
  have hempty : Each K P {} := each_empty
  unfold ofList
  dsimp only
  refine List.foldlRecOn (motive := fun t => Each K P t) _ _ ?_ fun t ht e he =>
    ht.setSlot (hint _) ?_
  · exact ⟨fun v hv => hmem _ _ v (mem_of_mem_trimmed hv), hempty.keys, hempty.values⟩
  · exact hmem _ _ _ (Array.mem_toList_iff.mp (List.fst_mem_of_mem_zipIdx he))

theorem Each.vacated (h : t.Each K P) (hnil : P .nil) (hint : ∀ n, K (.int n)) (n : Nat) :
    (t.vacated n).Each K P :=
  List.foldlRecOn (motive := fun t => Each K P t) _ _ h fun _ ht _ _ => ht.setSlot (hint _) hnil

theorem Each.setRun (h : t.Each K P) (hnil : P .nil) (hint : ∀ n, K (.int n)) (first : Nat)
    {values : List Value} (hv : ∀ v ∈ values, P v) : (t.setRun first values).Each K P := by
  have hl : (ofList values).Each K P := each_ofList hint hv
  have hvacated := h.vacated hnil hint values.length
  unfold Table.setRun
  split
  · dsimp only
    generalize t.vacated values.length = t at hvacated
    have hf : Each K P ((ofList values).slots.foldl (fun t e => t.setSlot e.1 e.2)
        ⟨(ofList values).seq, t.slots, t.index, t.removed, t.metatable⟩) := by
      rw [← Array.foldl_toList]
      exact List.foldlRecOn (motive := fun t => Each K P t) _ _
        ⟨hl.seq, hvacated.keys, hvacated.values⟩
        fun t ht e he => ht.setSlot (hl.keys e (Array.mem_toList_iff.mp he))
          (hl.values e (Array.mem_toList_iff.mp he))
    split
    · exact hf
    · exact hf.absorb hnil hint _
  · exact List.foldlRecOn (motive := fun s : Table × Nat => s.1.Each K P) _ _ h
      fun s hs v hm => hs.setInt hnil hint _ (hv v hm)

theorem Each.setTexts (h : t.Each K P) (hnil : P .nil) (hint : ∀ n, K (.int n))
    (htext : ∀ s, K (.string s)) {fields : List (String × Value)} (hv : ∀ f ∈ fields, P f.2) :
    (fields.foldl (fun t f => t.setText f.1 f.2) t).Each K P :=
  List.foldlRecOn (motive := fun t => Each K P t) _ _ h
    fun _ ht f hf => ht.set hnil hint (htext _) (hv f hf)

/-! ## Metatables -/

@[simp] theorem metatable_setSlot (t : Table) (k : Key) (v : Value) :
    (t.setSlot k v).metatable = t.metatable := by
  unfold setSlot
  split
  · split <;> split <;> rfl
  · split
    · rfl
    · dsimp only
      split <;> rfl

@[simp] theorem metatable_absorb (t : Table) (fuel : Nat) :
    (t.absorb fuel).metatable = t.metatable := by
  fun_induction t.absorb fuel with
  | case1 t => rfl
  | case2 t fuel hsize => rfl
  | case3 t fuel k hsize hk => rfl
  | case4 t fuel k hsize i hi k' hi' => rfl
  | case5 t fuel k hsize i hi hi' => rfl
  | case6 fuel seq slots index removed metatable k hsize i hi k' v hv hi' ih => exact ih

@[simp] theorem metatable_setInt (t : Table) (n : Int64) (v : Value) :
    (t.setInt n v).metatable = t.metatable := by
  unfold setInt
  split
  · dsimp only
    split <;> rfl
  · split
    · split
      · rfl
      · dsimp only
        split
        · exact metatable_setSlot ..
        · exact (metatable_absorb ..).trans (metatable_setSlot ..)
    · exact metatable_setSlot ..

@[simp] theorem metatable_set (t : Table) (k : Key) (v : Value) :
    (t.set k v).metatable = t.metatable := by
  unfold set
  split
  · exact metatable_setInt ..
  · exact metatable_setSlot ..

@[simp] theorem metatable_setText (t : Table) (s : String) (v : Value) :
    (t.setText s v).metatable = t.metatable := metatable_set ..

@[simp] theorem metatable_ofList (values : List Value) : (ofList values).metatable = none := by
  unfold ofList
  dsimp only
  exact List.foldlRecOn (motive := fun t : Table => t.metatable = none) _ _ rfl
    fun t ht e _ => (metatable_setSlot ..).trans ht

@[simp] theorem metatable_vacated (t : Table) (n : Nat) : (t.vacated n).metatable = t.metatable :=
  List.foldlRecOn (motive := fun u : Table => u.metatable = t.metatable) _ _ rfl
    fun _ hu _ _ => (metatable_setSlot ..).trans hu

@[simp] theorem metatable_setRun (t : Table) (first : Nat) (values : List Value) :
    (t.setRun first values).metatable = t.metatable := by
  have hvacated := metatable_vacated t values.length
  unfold setRun
  split
  · dsimp only
    generalize t.vacated values.length = u at hvacated
    have hf : ((ofList values).slots.foldl (fun t e => t.setSlot e.1 e.2)
        (⟨(ofList values).seq, u.slots, u.index, u.removed, u.metatable⟩ : Table)).metatable
          = t.metatable := by
      rw [← Array.foldl_toList]
      exact List.foldlRecOn (motive := fun u : Table => u.metatable = t.metatable) _ _ hvacated
        fun u hu e _ => (metatable_setSlot ..).trans hu
    split
    · exact hf
    · exact (metatable_absorb ..).trans hf
  · exact List.foldlRecOn (motive := fun s : Table × Nat => s.1.metatable = t.metatable) _ _ rfl
      fun s hs v _ => (metatable_setInt ..).trans hs

@[simp] theorem metatable_setTexts (t : Table) (fields : List (String × Value)) :
    (fields.foldl (fun t f => t.setText f.1 f.2) t).metatable = t.metatable :=
  List.foldlRecOn (motive := fun u : Table => u.metatable = t.metatable) _ _ rfl
    fun _ hu _ _ => (metatable_set ..).trans hu

/-! ## Setting entries outside the array part -/

theorem setSlot_nil_of_some {i : Nat} (hk : t.index[k]? = some i) :
    t.setSlot k .nil =
      if (t.slots.getD i (k, .nil)).2.isNil then t
      else { t with slots := t.slots.setIfInBounds i (k, .nil), removed := t.removed + 1 } := by
  rw [setSlot, hk]

theorem setSlot_of_some {i : Nat} (hk : t.index[k]? = some i) (hv : v.isNil = false) :
    t.setSlot k v =
      { t with
        slots := t.slots.setIfInBounds i (k, v)
        removed := if (t.slots.getD i (k, .nil)).2.isNil then t.removed - 1 else t.removed } := by
  obtain ⟨seq, slots, index, removed, metatable⟩ := t
  unfold setSlot
  rw [hk]
  dsimp only
  split
  · cases hv
  · rename_i ht _
    cases ht
    split <;> rfl

/-- Giving nil to a key that has no value changes nothing. -/
theorem setSlot_nil_of_none (hv : v.isNil)
    (hk : t.index[k]? = none) : t.setSlot k v = t := by
  cases v with
  | nil => rw [setSlot, hk]
  | _ => cases hv

/-- Where a new entry goes: the places of removed ones are given up when there are many. -/
def roomy (t : Table) : Table := if t.slots.size < 2 * t.removed then t.compacted else t

theorem setSlot_of_none (hk : t.index[k]? = none) (hv : v.isNil = false) :
    t.setSlot k v =
      { t.roomy with
        slots := t.roomy.slots.push (k, v)
        index := t.roomy.index.insert k t.roomy.slots.size } := by
  unfold setSlot
  rw [hk]
  dsimp only
  split
  · cases hv
  · unfold roomy
    rfl

/-! ## Tables of named entries -/

/-- The index knows the place of every key and of nothing else, and no entry was removed. -/
structure Listed (t : Table) : Prop where
  removed : t.removed = 0
  placed : ∀ i (h : i < t.slots.size), t.index[t.slots[i].1]? = some i
  sound : ∀ k i, t.index[k]? = some i → ∃ h : i < t.slots.size, t.slots[i].1 = k

theorem listed_empty : ({} : Table).Listed :=
  ⟨rfl, fun _ h => absurd h (Nat.not_lt_zero _), fun k i h => by simp at h⟩

/-- Giving a key a value that has one replaces its entry. -/
theorem Listed.setSlot_of_some (ht : t.Listed) (hv : v.isNil = false) {i : Nat}
    (hi : t.index[k]? = some i) :
    t.setSlot k v = { t with slots := t.slots.setIfInBounds i (k, v) } := by
  rw [Table.setSlot_of_some hi hv]
  have hr := ht.removed
  split <;> simp [hr]

/-- Giving a new key a value adds an entry at the end. -/
theorem Listed.setSlot_of_none (ht : t.Listed) (hv : v.isNil = false) (hi : t.index[k]? = none) :
    t.setSlot k v =
      { t with slots := t.slots.push (k, v), index := t.index.insert k t.slots.size } := by
  have hroomy : t.roomy = t := if_neg (by rw [ht.removed]; exact Nat.not_lt_zero _)
  rw [Table.setSlot_of_none hi hv, hroomy]

theorem Listed.setSlot (ht : t.Listed) (hv : v.isNil = false) (k : Key) :
    (t.setSlot k v).Listed := by
  rcases hi : t.index[k]? with _ | i
  · rw [ht.setSlot_of_none hv hi]
    refine ⟨ht.removed, fun j hj => ?_, fun k' j hj => ?_⟩
    · dsimp only at hj ⊢
      rw [Array.size_push] at hj
      rw [Std.HashMap.getElem?_insert, Array.getElem_push]
      split
      · rename_i hlt
        have hp := ht.placed j hlt
        rw [if_neg, hp]
        intro he
        rw [← eq_of_beq he, hi] at hp
        cases hp
      · rw [if_pos BEq.rfl]
        exact congrArg some (by omega)
    · dsimp only at hj ⊢
      rw [Std.HashMap.getElem?_insert] at hj
      split at hj
      · rename_i he
        cases hj
        exact ⟨by simp, by simpa using (eq_of_beq he)⟩
      · obtain ⟨hlt, he⟩ := ht.sound _ _ hj
        exact ⟨by rw [Array.size_push]; omega, by rw [Array.getElem_push_lt hlt]; exact he⟩
  · rw [ht.setSlot_of_some hv hi]
    obtain ⟨hlt, rfl⟩ := ht.sound _ _ hi
    -- the entry that is replaced keeps its key
    have hkey : ∀ j (hj : j < (t.slots.setIfInBounds i (t.slots[i].1, v)).size)
        (hj' : j < t.slots.size),
        (t.slots.setIfInBounds i (t.slots[i].1, v))[j].1 = t.slots[j].1 := by
      intro j hj hj'
      rw [Array.getElem_setIfInBounds]
      split
      · rename_i he
        subst he
        rfl
      · rfl
    refine ⟨ht.removed, fun j hj => ?_, fun k' j hj => ?_⟩
    · dsimp only at hj ⊢
      have hj' : j < t.slots.size := by simpa using hj
      rw [hkey j hj hj']
      exact ht.placed j hj'
    · obtain ⟨hlt, he⟩ := ht.sound _ _ hj
      exact ⟨by simpa using hlt, (hkey j _ hlt).trans he⟩

/-- Afterwards the only entry of the key is the new one, and the others are those from before. -/
theorem Listed.mem_setSlot (ht : t.Listed) (hv : v.isNil = false) {e : Key × Value}
    (he : e ∈ (t.setSlot k v).slots) : e = (k, v) ∨ e ∈ t.slots ∧ e.1 ≠ k := by
  -- an entry that the index does not lead to from `k` has another key
  have hold : e ∈ t.slots → (∀ i, t.index[k]? = some i → t.slots[i]? ≠ some e) →
      e ∈ t.slots ∧ e.1 ≠ k := by
    rintro hm hne
    refine ⟨hm, ?_⟩
    rintro rfl
    obtain ⟨j, hj, rfl⟩ := Array.mem_iff_getElem.mp hm
    exact hne j (ht.placed j hj) (Array.getElem?_eq_getElem hj)
  rcases hi : t.index[k]? with _ | i
  · rw [ht.setSlot_of_none hv hi] at he
    rcases Array.mem_push.mp he with he | he
    · exact .inr (hold he fun i h => by rw [hi] at h; cases h)
    · exact .inl he
  · rw [ht.setSlot_of_some hv hi] at he
    obtain ⟨hlt, rfl⟩ := ht.sound _ _ hi
    obtain ⟨j, hj, he⟩ := Array.mem_iff_getElem.mp he
    have hj' : j < t.slots.size := by simpa using hj
    rw [Array.getElem_setIfInBounds hj'] at he
    split at he
    · exact .inl he.symm
    · rename_i hne
      refine .inr (hold (he ▸ Array.getElem_mem hj') fun i' hi' he' => hne ?_)
      cases Option.some.inj (hi.symm.trans hi')
      rw [Array.getElem?_eq_getElem hlt] at he'
      have hp := ht.placed j hj'
      rw [he, ← Option.some.inj he', hi] at hp
      exact Option.some.inj hp

/-- The value of a key that is no integer, by the place that the index has for it. -/
theorem get_of_not_int (hk : ∀ n, k ≠ .int n) :
    t.get k = match t.index[k]? with
      | some i => (t.slots.getD i (.int 0, .nil)).2
      | none => .nil := by
  unfold Table.get
  split
  · exact absurd rfl (hk _)
  · rfl

theorem Listed.get_setSlot (ht : t.Listed) (hv : v.isNil = false) (hk : ∀ n, k ≠ .int n) :
    (t.setSlot k v).get k = v := by
  rw [get_of_not_int hk]
  rcases hi : t.index[k]? with _ | i
  · rw [ht.setSlot_of_none hv hi]
    simp
  · obtain ⟨hlt, _⟩ := ht.sound _ _ hi
    rw [ht.setSlot_of_some hv hi]
    simp [hi, hlt]

/-- A text stands for what it was set to. -/
theorem Listed.getText_setText (ht : t.Listed) (hv : v.isNil = false) (name : String) :
    (t.setText name v).getText name = v :=
  ht.get_setSlot hv nofun

/-- The value of a key is found by the array part, the place of the key and the entry there. -/
theorem get_congr {u : Table} (hseq : u.seq = t.seq) (hindex : u.index[k]? = t.index[k]?)
    (hentry : ∀ i, t.index[k]? = some i →
      u.slots.getD i (.int 0, .nil) = t.slots.getD i (.int 0, .nil)) :
    u.get k = t.get k := by
  have hslot : (match u.index[k]? with
        | some i => (u.slots.getD i (.int 0, .nil)).2
        | none => .nil)
      = match t.index[k]? with
        | some i => (t.slots.getD i (.int 0, .nil)).2
        | none => Value.nil := by
    rw [hindex]
    rcases hi : t.index[k]? with _ | i
    · rfl
    · exact congrArg (·.2) (hentry i hi)
  unfold Table.get
  split
  · unfold Table.getInt seqIndex?
    rw [hseq]
    split
    · rfl
    · exact hslot
  · exact hslot

theorem Listed.get_setSlot_of_ne (ht : t.Listed) (hv : v.isNil = false) {k' : Key} (hne : k' ≠ k) :
    (t.setSlot k v).get k' = t.get k' := by
  rcases hi : t.index[k]? with _ | i
  · rw [ht.setSlot_of_none hv hi]
    refine get_congr rfl ?_ fun j hj => ?_
    · rw [Std.HashMap.getElem?_insert, if_neg fun h => hne (eq_of_beq h).symm]
    · obtain ⟨hlt, _⟩ := ht.sound _ _ hj
      simp [Array.getElem?_push, Nat.ne_of_lt hlt]
  · rw [ht.setSlot_of_some hv hi]
    refine get_congr rfl rfl fun j hj => ?_
    have hij : i ≠ j := by
      rintro rfl
      obtain ⟨_, hk⟩ := ht.sound _ _ hi
      obtain ⟨_, hk'⟩ := ht.sound _ _ hj
      exact hne (hk'.symm.trans hk)
    simp [hij]

end Table

end OscHost.Script
