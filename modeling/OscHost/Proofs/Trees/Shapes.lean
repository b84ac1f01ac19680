import OscHost.Proofs.Script.Filling
import OscHost.Proofs.Trees.Gaps
import OscHost.Proofs.Trees.Members
/-!
  What a lawful table counts as.

  A table is told from its entries and its length to be an array or not.  In a lawful table both follow
  from the keys that are there: if they are `1, …, n` the values are all in the array part and in order
  (`Table.Lawful.of_listLike`), and if one of them is a text it is no array
  (`Trees.classify_recordLike`).
-/

namespace OscHost.Script

namespace Table

variable {t : Table} {n : Nat}

/-- Whether the keys of a table are exactly `1, …, n`. -/
def ListLike (t : Table) (n : Nat) : Prop :=
  n ≤ lastPlace ∧ ∀ k, t.get k ≠ .nil ↔ ∃ i < n, k = .place i

/-- Whether the keys of a table are texts. -/
def RecordLike (t : Table) : Prop := ∀ k, t.get k ≠ .nil → ∃ s : String, k = .string (Bytes.ofText s)

/-- The array part of a table whose keys are `1, …, n` is all of it. -/
theorem Lawful.size_of_listLike (ht : t.Lawful) (h : t.ListLike n) : t.seq.size = n := by
  obtain ⟨hn, hkeys⟩ := h
  obtain ⟨hlast, hnext⟩ := ht.length_border
  unfold Table.length at hlast hnext
  rcases Nat.lt_trichotomy t.seq.size n with hlt | heq | hgt
  · -- the next key would be there, although the length is a border
    exact absurd (hnext (by omega)) ((hkeys _).mpr ⟨_, hlt, rfl⟩)
  · exact heq
  · have hfits := ht.fits
    obtain ⟨i, hi, hplace⟩ := (hkeys _).mp (hlast.resolve_left (by omega))
    have := place_inj (by omega) (by omega) hplace
    omega

theorem Lawful.of_listLike (ht : t.Lawful) (h : t.ListLike n) :
    AllSome t.seq.toList ∧ t.entries = (t.seq.toList.zipIdx 1).map place := by
  have hsize := ht.size_of_listLike h
  obtain ⟨hn, hkeys⟩ := h
  have hsome : AllSome t.seq.toList := by
    intro v hv
    obtain ⟨i, hi, rfl⟩ := List.mem_iff_getElem.mp hv
    rw [Array.length_toList] at hi
    rw [Array.getElem_toList, ← ht.get_eq_seq hi, Value.isNil_eq_false_iff]
    exact (hkeys _).mpr ⟨i, by omega, rfl⟩
  refine ⟨hsome, ?_⟩
  -- an entry outside would have a key of the array part
  have hnone : t.slots.toList.filter (fun e => ¬ e.2.isNil) = [] := by
    refine List.filter_eq_nil_iff.mpr ?_
    rintro ⟨k, v⟩ he hlive
    have hv : v ≠ .nil := fun hnil => by simp [hnil, Value.isNil] at hlive
    have hslot := (ht.indexed.mem_slots_iff hv).mp (Array.mem_toList_iff.mp he)
    by_cases hplace : ∀ i < t.seq.size, k ≠ .place i
    · have hget := ht.get_eq_slot hplace
      obtain ⟨i, hi, hk⟩ := (hkeys k).mp (by rw [hget, hslot]; exact hv)
      exact hplace i (by omega) hk
    · push Not at hplace
      obtain ⟨i, hi, rfl⟩ := hplace
      exact hv (hslot.symm.trans (ht.apart i hi))
  unfold entries
  dsimp only
  rw [hnone, List.append_nil, live_places]
  refine List.filter_eq_self.mpr fun e he => ?_
  obtain ⟨⟨v, m⟩, hv, rfl⟩ := List.mem_map.mp he
  simp [place, hsome v (List.fst_mem_of_mem_zipIdx hv)]

/-! ## Tables of values -/

section

variable {values : List Value} {fields : List (String × Value)}

theorem values_ofList (hv : AllSome values) : (ofList values).entries.map (·.2) = values := by
  rw [ofList_of_allSome hv, entries_seq hv]
  exact values_places values 1

theorem listLike_ofList (hv : AllSome values) (hfits : values.length ≤ lastPlace) :
    (ofList values).ListLike values.length := by
  have hholds := holds_ofList hfits
  refine ⟨hfits, fun k => ⟨fun hk => ?_, ?_⟩⟩
  · by_contra hnone
    push Not at hnone
    exact hk (hholds.get_of_ne hnone)
  · rintro ⟨i, hi, rfl⟩
    rw [hholds.get i hi, ← Value.isNil_eq_false_iff]
    exact hv _ (by simp [hi])

theorem values_ofFields (hnames : (fields.map fun f => Key.string f.1).Pairwise (· ≠ ·))
    (hv : AllSome (fields.map (·.2))) :
    (ofFields fields).entries.map (·.2) = fields.map (·.2) := by
  rw [entries_ofFields hnames hv, List.map_map]
  rfl

theorem recordLike_ofFields (fields : List (String × Value)) : (ofFields fields).RecordLike := by
  intro k hk
  by_contra hnone
  push Not at hnone
  exact hk ((lawful_empty.get_setTexts_of_ne fun f _ => hnone f.1).trans (get_empty k))

end

end Table

namespace Trees

variable {t : Table} {n : Nat}

/-- A table whose keys are `1, …, n` is an array of the values that it lists. -/
theorem classify_listLike (ht : t.Lawful) (h : t.ListLike n) :
    classify t = .array n ∧ elements t n = t.entries.map (·.2) := by
  have hsize := ht.size_of_listLike h
  obtain ⟨hsome, hentries⟩ := ht.of_listLike h
  have hlt : n < 0x8000000000000000 := by
    have := h.1
    unfold Table.lastPlace at this
    omega
  constructor
  · have hlength : t.length = t.seq.toList.length := by simp [Table.length]
    have harray := classify_places hentries hlength (by rw [Array.length_toList]; omega)
    rwa [Array.length_toList, hsize] at harray
  · rw [hentries, Table.values_places, ← hsize]
    exact elements_seq (by omega)

/-- The entries of a table whose keys are texts, by these texts. -/
theorem entries_recordLike (ht : t.Lawful) (h : t.RecordLike) :
    t.entries = (named t).map fun f => (Key.string (Bytes.ofText f.1), f.2) := by
  have hkeys : ∀ e ∈ t.entries, ∃ s : String, e.1 = .string (Bytes.ofText s) := by
    rintro ⟨k, v⟩ he
    obtain ⟨hv, hget⟩ := ht.mem_entries_iff.mp he
    exact h k (hget ▸ hv)
  unfold named
  generalize t.entries = entries at hkeys ⊢
  induction entries with
  | nil => rfl
  | cons e entries ih =>
    obtain ⟨⟨s, hs⟩, hrest⟩ := List.forall_mem_cons.mp hkeys
    have hname : (keyText? e.1).map (fun name => (name, e.2)) = some (s, e.2) := by
      rw [hs]
      exact congrArg (fun s => some (s, e.2)) (lossy_ofText s)
    rw [List.filterMap_cons, hname]
    dsimp only
    rw [List.map_cons, ← ih hrest, ← hs]

theorem greatest_eq_none {entries : List (Key × Value)} {k : Key} {v : Value}
    (hmem : (k, v) ∈ entries) (hk : positive? k = none) (so : Nat) : greatest entries so = none := by
  induction entries generalizing so with
  | nil => cases hmem
  | cons e entries ih =>
    rw [greatest]
    rcases List.mem_cons.mp hmem with rfl | hmem
    · rw [hk]
    · split
      · exact ih hmem _
      · rfl

/-- A table with a key that is no positive integer is none. -/
theorem classify_of_mem {k : Key} {v : Value} (hmem : (k, v) ∈ t.entries) (hk : positive? k = none) :
    classify t = .map := by
  unfold classify shapeOf
  rw [greatest_eq_none hmem hk]

/-- So is one with a text among its keys. -/
theorem classify_recordLike (ht : t.Lawful) (h : t.RecordLike) (hne : named t ≠ []) :
    classify t = .map := by
  obtain ⟨f, fields, hfields⟩ := List.exists_cons_of_ne_nil hne
  refine classify_of_mem (k := .string f.1) (v := f.2) ?_ rfl
  rw [entries_recordLike ht h, hfields]
  exact .head _

theorem values_recordLike (ht : t.Lawful) (h : t.RecordLike) :
    (named t).map (·.2) = t.entries.map (·.2) := by
  rw [entries_recordLike ht h, List.map_map]
  rfl

/-- The texts are different. -/
theorem names_recordLike (ht : t.Lawful) (h : t.RecordLike) : ((named t).map (·.1)).Nodup := by
  have hdistinct := ht.entries_distinct
  rw [entries_recordLike ht h, List.map_map] at hdistinct
  rw [List.Nodup, List.pairwise_map] at hdistinct ⊢
  exact hdistinct.imp fun hne heq => hne (by simp [heq])

/-- Each stands for what it is listed with. -/
theorem mem_named_recordLike (ht : t.Lawful) (h : t.RecordLike) {name : String} {v : Value} :
    (name, v) ∈ named t ↔ v ≠ .nil ∧ t.get (.string (Bytes.ofText name)) = v := by
  rw [← ht.mem_entries_iff, entries_recordLike ht h, List.mem_map]
  constructor
  · exact fun hmem => ⟨_, hmem, rfl⟩
  · rintro ⟨⟨name', v'⟩, hmem, heq⟩
    obtain ⟨hkey, rfl⟩ := Prod.mk.inj heq
    rwa [← ofText_injective (Key.string.inj hkey)]

end Trees

end OscHost.Script
