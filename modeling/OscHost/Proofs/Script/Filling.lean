import Mathlib.Algebra.GroupWithZero.Nat
import OscHost.Proofs.Script.Lawful
/-!
  Tables that are filled at once.

  A list of values becomes the array part up to a border and entries for what is behind it; a table
  that has entries already is filled up in the same way, but first it loses those whose keys the list
  gives values to.  Both come to what setting the values one by one would come to, and the tables are
  lawful (`Table.lawful_ofList` and `Lawful.setRun_spec`).
-/

namespace OscHost.Script.Table

variable {t : Table} {k : Key} {v : Value} {values : List Value}

/-! ## Borders -/

/-- Halving ends at a place with nothing behind it. -/
theorem getD_halve {a : Array Value} {low high fuel : Nat} (hfuel : high ≤ low + 2 ^ fuel)
    (hlow : low < high) (hhigh : a.getD (high - 1) .nil = .nil) :
    a.getD (halve a low high fuel) .nil = .nil := by
  -- the invariant: nothing stands at the upper end, and the fuel covers what lies between
  induction fuel generalizing low high with
  | zero =>
    obtain rfl : high = low + 1 := by omega
    exact hhigh
  | succ fuel ih =>
    rw [halve]
    split
    · rename_i hnear
      obtain rfl : high = low + 1 := by omega
      exact hhigh
    · rename_i hfar
      dsimp only
      have hmiddle : low + 1 ≤ (low + high) / 2 ∧ (low + high) / 2 < high := by omega
      split
      · rename_i hnil
        exact ih (by omega) (by omega) (Value.isNil_iff.mp hnil)
      · exact ih (by omega) (by omega) hhigh

/-- There is nothing behind a border. -/
theorem getD_border {a : Array Value} (hsize : a.size ≤ 2 ^ 64) : a.getD (border a) .nil = .nil := by
  have hout : a.getD a.size .nil = .nil := by
    rw [Array.getD_eq_getD_getElem?, Array.getElem?_eq_none (Nat.le_refl _)]
    rfl
  unfold border
  split
  · rename_i hlast
    have hlast : a.getD (a.size - 1) .nil = .nil := Value.isNil_iff.mp hlast
    split
    · by_cases hempty : a.size = 0
      · rw [hempty, halve, if_pos (by omega), ← hempty]
        exact hout
      · exact getD_halve (by omega) (by omega) hlast
    · exact hlast
  · exact hout

/-! ## Entries set one after the other -/

/-- Sets some entries outside the array part. -/
def setSlots (t : Table) (l : List (Key × Value)) : Table := l.foldl (fun t e => t.setSlot e.1 e.2) t

theorem setSlots_cons (t : Table) (e : Key × Value) (l : List (Key × Value)) :
    t.setSlots (e :: l) = (t.setSlot e.1 e.2).setSlots l := rfl

@[simp] theorem seq_setSlots (t : Table) (l : List (Key × Value)) : (t.setSlots l).seq = t.seq := by
  induction l generalizing t with
  | nil => rfl
  | cons e l ih => rw [setSlots_cons, ih, seq_setSlot]

theorem Coherent.setSlots (ht : t.Coherent) {l : List (Key × Value)}
    (hl : ∀ e ∈ l, (e.2 ≠ .nil → e.1.Proper) ∧
      (e.2 = .nil ∨ ∀ i < t.seq.size, e.1 ≠ .place i)) : (t.setSlots l).Coherent := by
  induction l generalizing t with
  | nil => exact ht
  | cons e l ih =>
    obtain ⟨⟨hproper, hplace⟩, hl⟩ := List.forall_mem_cons.mp hl
    refine ih (ht.setSlot hproper hplace) ?_
    rw [seq_setSlot]
    exact hl

theorem Indexed.setSlots (ht : t.Indexed) (l : List (Key × Value)) : (t.setSlots l).Indexed := by
  induction l generalizing t with
  | nil => exact ht
  | cons e l ih => exact ih (ht.setSlot e.1 e.2)

/-- Keys that are not set stand for what they did. -/
theorem Indexed.slotValue_setSlots_of_ne (ht : t.Indexed) {l : List (Key × Value)}
    (hk : ∀ e ∈ l, k ≠ e.1) : (t.setSlots l).slotValue k = t.slotValue k := by
  induction l generalizing t with
  | nil => rfl
  | cons e l ih =>
    obtain ⟨he, hl⟩ := List.forall_mem_cons.mp hk
    rw [setSlots_cons, ih (ht.setSlot e.1 e.2) hl, ht.slotValue_setSlot, if_neg he]

/-- Different keys that are set stand for their values. -/
theorem Indexed.slotValue_setSlots_of_mem (ht : t.Indexed) {l : List (Key × Value)}
    (hl : (l.map (·.1)).Nodup) (hk : (k, v) ∈ l) : (t.setSlots l).slotValue k = v := by
  induction l generalizing t with
  | nil => cases hk
  | cons e l ih =>
    obtain ⟨he, hl⟩ := List.nodup_cons.mp hl
    rw [setSlots_cons]
    rcases List.mem_cons.mp hk with rfl | hk
    · have hne : ∀ f ∈ l, k ≠ f.1 := fun f hf h => he (List.mem_map.mpr ⟨f, hf, h.symm⟩)
      rw [(ht.setSlot k v).slotValue_setSlots_of_ne hne, ht.slotValue_setSlot, if_pos rfl]
    · exact ih (ht.setSlot e.1 e.2) hl hk

/-- Keys that are not set have no place afterwards if they had none. -/
theorem Indexed.index_setSlots_of_ne (ht : t.Indexed) (hnone : t.index[k]? = none)
    {l : List (Key × Value)} (hk : ∀ e ∈ l, k ≠ e.1) : (t.setSlots l).index[k]? = none := by
  induction l generalizing t with
  | nil => exact hnone
  | cons e l ih =>
    obtain ⟨he, hl⟩ := List.forall_mem_cons.mp hk
    exact ih (ht.setSlot e.1 e.2) (ht.index_setSlot_of_ne hnone he e.2) hl

/-! ## Tables of values in order -/

/-- The entries of some values at their places. -/
theorem mem_places {first : Nat} :
    (k, v) ∈ (values.zipIdx (first + 1)).map place ↔
      ∃ i, values[i]? = some v ∧ k = .place (first + i) := by
  rw [List.mem_map]
  constructor
  · rintro ⟨⟨w, m⟩, hmem, h⟩
    obtain ⟨hle, hw⟩ := List.mk_mem_zipIdx_iff_le_and_getElem?_sub.mp hmem
    obtain ⟨rfl, rfl⟩ := Prod.mk.inj h
    refine ⟨m - (first + 1), hw, ?_⟩
    unfold Key.place
    congr 2
    omega
  · rintro ⟨i, hi, rfl⟩
    refine ⟨(v, first + i + 1), List.mk_mem_zipIdx_iff_le_and_getElem?_sub.mpr ⟨by omega, ?_⟩, rfl⟩
    rw [show first + i + 1 - (first + 1) = i by omega]
    exact hi

/-- A table of nothing but an array part. -/
theorem lawful_seq {a : Array Value} (hfits : a.size ≤ lastPlace) (hends : a.back? ≠ some .nil) :
    ({ seq := a } : Table).Lawful := by
  have hnone (k : Key) : ({ seq := a } : Table).slotValue k = .nil := slotValue_of_not_mem (by simp)
  exact Coherent.lawful_of_vacant ⟨⟨by simp, rfl⟩, fun k hk => absurd (hnone k) hk, hfits, hends,
    fun _ _ => hnone _⟩ hnone

/-- An array that is cut at a border. -/
theorem back?_extract {a : Array Value} {b : Nat} (hb : EndsSome a b) :
    (a.extract 0 b).back? ≠ some .nil := by
  have hle := hb.le
  rw [Array.back?_eq_getElem?, Array.size_extract, Nat.min_eq_left hle, Nat.sub_zero]
  rcases hb with rfl | hsome
  · simp
  · intro hnil
    rw [Array.getElem?_extract] at hnil
    split at hnil
    · rw [Array.getD_eq_getD_getElem?, show b - 1 = 0 + (b - 1) by omega, hnil] at hsome
      cases hsome
    · cases hnil

/-- What a table of values in order is: lawful, with the values under their places and nothing
    else. -/
structure Holds (t : Table) (values : List Value) : Prop where
  lawful : t.Lawful
  size : t.seq.size ≤ values.length
  get : ∀ i < values.length, t.get (.place i) = values.getD i .nil
  nothing : ∀ k : Key, (∀ i < values.length, k ≠ .place i) → t.index[k]? = none

/-- The entries of the values behind a border. -/
def behind (values : List Value) (b : Nat) : List (Key × Value) :=
  ((values.drop b).zipIdx (b + 1)).map place

/-- The table of some values with a border. -/
def bordered (values : List Value) (b : Nat) : Table :=
  ({ seq := values.toArray.extract 0 b } : Table).setSlots (behind values b)

theorem ofList_eq_bordered (values : List Value) :
    ofList values = bordered values (border values.toArray) := ofList_eq values

section

variable {b i : Nat}

theorem mem_behind :
    (k, v) ∈ behind values b ↔ ∃ i, b ≤ i ∧ values[i]? = some v ∧ k = .place i := by
  rw [behind, mem_places]
  constructor
  · rintro ⟨i, hi, rfl⟩
    rw [List.getElem?_drop] at hi
    exact ⟨b + i, Nat.le_add_right b i, hi, rfl⟩
  · rintro ⟨i, hle, hi, rfl⟩
    refine ⟨i - b, ?_, by rw [Nat.add_sub_cancel' hle]⟩
    rwa [List.getElem?_drop, Nat.add_sub_cancel' hle]

theorem ne_of_mem_behind (hk : ∀ i, b ≤ i → i < values.length → k ≠ .place i) :
    ∀ e ∈ behind values b, k ≠ e.1 := by
  rintro ⟨k', v⟩ he rfl
  obtain ⟨i, hle, hi, hplace⟩ := mem_behind.mp he
  exact hk i hle (List.getElem?_eq_some_iff.mp hi).1 hplace

theorem behind_distinct (hfits : values.length ≤ lastPlace) (hle : b ≤ values.length) :
    ((behind values b).map (·.1)).Nodup :=
  places_distinct (values.drop b) (b + 1) (by unfold lastPlace at hfits; simp; omega)

/-- Behind a border there are no places of the array part. -/
theorem behind_proper (hfits : values.length ≤ lastPlace) :
    ∀ e ∈ behind values b, (e.2 ≠ .nil → e.1.Proper) ∧
      (e.2 = .nil ∨ ∀ i < b, e.1 ≠ .place i) := by
  rintro ⟨k, v⟩ he
  obtain ⟨i, hle, hi, rfl⟩ := mem_behind.mp he
  obtain ⟨hlt, -⟩ := List.getElem?_eq_some_iff.mp hi
  refine ⟨fun _ => trivial, .inr fun j hj h => ?_⟩
  have := place_inj (by omega) (by omega) h
  omega

theorem seq_bordered (values : List Value) (b : Nat) :
    (bordered values b).seq = values.toArray.extract 0 b := seq_setSlots ..

theorem size_bordered (hle : b ≤ values.length) : (bordered values b).seq.size = b := by
  simp [seq_bordered, hle]

theorem coherent_bordered (hb : EndsSome values.toArray b) (hfits : values.length ≤ lastPlace) :
    (bordered values b).Coherent := by
  have hsize : (values.toArray.extract 0 b).size = b := by
    rw [← seq_bordered, size_bordered hb.le]
  have hstart : ({ seq := values.toArray.extract 0 b } : Table).Lawful :=
    lawful_seq (by rw [hsize]; exact Nat.le_trans hb.le hfits) (back?_extract hb)
  exact hstart.toCoherent.setSlots (by rw [hsize]; exact behind_proper hfits)

theorem slotValue_bordered (hfits : values.length ≤ lastPlace) (hle : b ≤ i)
    (hi : i < values.length) : (bordered values b).slotValue (.place i) = values.getD i .nil := by
  refine Indexed.slotValue_setSlots_of_mem ⟨by simp, rfl⟩ (behind_distinct hfits (by omega))
    (mem_behind.mpr ⟨i, hle, ?_, rfl⟩)
  simp [hi]

/-- Other keys have no place outside the array part. -/
theorem index_bordered (hk : ∀ i, b ≤ i → i < values.length → k ≠ .place i) :
    (bordered values b).index[k]? = none :=
  Indexed.index_setSlots_of_ne ⟨by simp, rfl⟩ (by simp) (ne_of_mem_behind hk)

theorem holds_bordered (hb : EndsSome values.toArray b)
    (hborder : values.toArray.getD b .nil = .nil) (hfits : values.length ≤ lastPlace) :
    (bordered values b).Holds values := by
  have hle : b ≤ values.length := hb.le
  have hsize := size_bordered hle
  have hcoherent := coherent_bordered hb hfits
  refine ⟨⟨hcoherent, fun _ => ?_⟩, by rwa [hsize], fun i hi => ?_, fun k hk => ?_⟩
  · -- what would continue the array part is the first value behind the border, which is nil
    rw [hsize]
    by_cases hlt : b < values.length
    · rw [slotValue_bordered hfits (Nat.le_refl b) hlt]
      simpa using hborder
    · exact slotValue_of_not_mem (index_bordered fun i hi hlt' => by omega)
  · by_cases hlt : i < b
    · rw [hcoherent.get_eq_seq (by rwa [hsize])]
      simp [seq_bordered, hi]
    · rw [hcoherent.get_eq_slot, slotValue_bordered hfits (Nat.not_lt.mp hlt) hi]
      intro j hj h
      rw [hsize] at hj
      have := place_inj (by omega) (by omega) h
      omega
  · exact index_bordered fun i _ hi => hk i hi

end

theorem holds_ofList (hfits : values.length ≤ lastPlace) : (ofList values).Holds values := by
  have hsize : values.toArray.size ≤ 2 ^ 64 := by
    unfold lastPlace at hfits
    rw [List.size_toArray]
    omega
  rw [ofList_eq_bordered]
  exact holds_bordered (endsSome_border _) (getD_border hsize) hfits

/-- Nothing else is there. -/
theorem Holds.get_of_ne (ht : t.Holds values) (hk : ∀ i < values.length, k ≠ .place i) :
    t.get k = .nil := by
  rw [ht.lawful.get_eq_slot fun i hi => hk i (Nat.lt_of_lt_of_le hi ht.size)]
  exact slotValue_of_not_mem (ht.nothing k hk)

/-! ## Several entries -/

/-- Sets some entries one after the other. -/
def sets (t : Table) (l : List (Key × Value)) : Table := l.foldl (fun t e => t.set e.1 e.2) t

theorem sets_cons (t : Table) (e : Key × Value) (l : List (Key × Value)) :
    t.sets (e :: l) = (t.set e.1 e.2).sets l := rfl

section

variable {l : List (Key × Value)}

theorem Lawful.sets (ht : t.Lawful) (hl : ∀ e ∈ l, e.1.Proper) : (t.sets l).Lawful :=
  List.foldlRecOn (motive := fun t : Table => t.Lawful) _ _ ht fun _ ht e he => ht.set (hl e he) e.2

theorem Lawful.get_sets_of_ne (ht : t.Lawful) (hl : ∀ e ∈ l, e.1.Proper) (hk : ∀ e ∈ l, k ≠ e.1) :
    (t.sets l).get k = t.get k := by
  induction l generalizing t with
  | nil => rfl
  | cons e l ih =>
    obtain ⟨he, hl⟩ := List.forall_mem_cons.mp hl
    obtain ⟨hne, hk⟩ := List.forall_mem_cons.mp hk
    rw [sets_cons, ih (ht.set he e.2) hl hk, ht.get_set he, if_neg hne]

/-- Different keys stand for what they were set to. -/
theorem Lawful.get_sets_of_mem (ht : t.Lawful) (hl : ∀ e ∈ l, e.1.Proper)
    (hdistinct : (l.map (·.1)).Nodup) (hmem : (k, v) ∈ l) : (t.sets l).get k = v := by
  induction l generalizing t with
  | nil => cases hmem
  | cons e l ih =>
    obtain ⟨he, hrest⟩ := List.forall_mem_cons.mp hl
    obtain ⟨hhead, hdistinct⟩ := List.nodup_cons.mp hdistinct
    rw [sets_cons]
    rcases List.mem_cons.mp hmem with rfl | hmem
    · have hne : ∀ e ∈ l, k ≠ e.1 := fun e he h => hhead (List.mem_map.mpr ⟨e, he, h.symm⟩)
      rw [(ht.set he v).get_sets_of_ne hrest hne, ht.get_set he, if_pos rfl]
    · exact ih (ht.set he e.2) hrest hdistinct hmem

/-- A table of different keys lists what they were set to. -/
theorem mem_entries_sets (hl : ∀ e ∈ l, e.1.Proper) (hdistinct : (l.map (·.1)).Nodup)
    (hsome : ∀ e ∈ l, e.2 ≠ .nil) {e : Key × Value} : e ∈ (({} : Table).sets l).entries ↔ e ∈ l := by
  obtain ⟨k, v⟩ := e
  rw [(lawful_empty.sets hl).mem_entries_iff]
  constructor
  · rintro ⟨hv, hget⟩
    by_cases hk : ∀ e ∈ l, k ≠ e.1
    · rw [lawful_empty.get_sets_of_ne hl hk, get_empty] at hget
      exact absurd hget.symm hv
    · push Not at hk
      obtain ⟨⟨_, v'⟩, hmem, rfl⟩ := hk
      rw [lawful_empty.get_sets_of_mem hl hdistinct hmem] at hget
      exact hget ▸ hmem
  · exact fun hmem => ⟨hsome _ hmem, lawful_empty.get_sets_of_mem hl hdistinct hmem⟩

end

/-! ## Named values -/

section

variable {fields : List (String × Value)}

theorem setTexts_eq (t : Table) (fields : List (String × Value)) :
    fields.foldl (fun t f => t.setText f.1 f.2) t =
      t.sets (fields.map fun f => (Key.string f.1, f.2)) := by
  rw [sets, List.foldl_map]
  rfl

theorem texts_proper : ∀ e ∈ fields.map fun f => (Key.string f.1, f.2), e.1.Proper := by
  intro e he
  obtain ⟨f, -, rfl⟩ := List.mem_map.mp he
  trivial

theorem Lawful.setTexts (ht : t.Lawful) (fields : List (String × Value)) :
    (fields.foldl (fun t f => t.setText f.1 f.2) t).Lawful :=
  setTexts_eq t fields ▸ ht.sets texts_proper

theorem Lawful.get_setTexts_of_ne (ht : t.Lawful) (hk : ∀ f ∈ fields, k ≠ .string f.1) :
    (fields.foldl (fun t f => t.setText f.1 f.2) t).get k = t.get k := by
  rw [setTexts_eq, ht.get_sets_of_ne texts_proper]
  intro e he
  obtain ⟨f, hf, rfl⟩ := List.mem_map.mp he
  exact hk f hf

/-- Different names stand for their values. -/
theorem Lawful.get_setTexts_of_mem (ht : t.Lawful)
    (hnames : (fields.map fun f => Key.string f.1).Nodup) {name : String}
    (hf : (name, v) ∈ fields) :
    (fields.foldl (fun t f => t.setText f.1 f.2) t).get (.string name) = v := by
  rw [setTexts_eq]
  refine ht.get_sets_of_mem texts_proper ?_ (List.mem_map.mpr ⟨(name, v), hf, rfl⟩)
  rw [List.map_map]
  exact hnames

end

/-! ## Filling up -/

theorem vacated_eq (t : Table) (n : Nat) :
    t.vacated n = t.setSlots ((List.range n).map fun i => (.place i, .nil)) := by
  unfold vacated setSlots
  rw [List.foldl_map]
  rfl

theorem vacated_empty (n : Nat) : ({} : Table).vacated n = {} := by
  have hnone (i : Nat) : ({} : Table).setSlot (.int (Int64.ofNat (i + 1))) .nil = {} := by
    simp [Table.setSlot]
  unfold vacated
  induction List.range n with
  | nil => rfl
  | cons i rest ih => rw [List.foldl_cons, hnone, ih]

/-- Without nils an empty table takes the values over as its array part. -/
theorem setRun_of_allSome (hv : AllSome values) :
    ({} : Table).setRun 1 values = { seq := values.toArray } := by
  rw [setRun, if_pos ⟨rfl, rfl⟩, vacated_empty, ofList_of_allSome hv]
  rfl

/-- Removing the entries of some places leaves the others. -/
theorem Coherent.vacated (ht : t.Coherent) {n : Nat} (hn : n ≤ lastPlace) :
    (t.vacated n).Coherent ∧ (t.vacated n).seq = t.seq ∧
      (∀ i < n, (t.vacated n).slotValue (.place i) = .nil) ∧
      ∀ k : Key, (∀ i < n, k ≠ .place i) → (t.vacated n).slotValue k = t.slotValue k := by
  have hmem {e : Key × Value} (he : e ∈ (List.range n).map fun i => (Key.place i, Value.nil)) :
      ∃ i < n, e = (.place i, .nil) := by
    obtain ⟨i, hi, rfl⟩ := List.mem_map.mp he
    exact ⟨i, List.mem_range.mp hi, rfl⟩
  -- `place` wraps, so different numbers give different keys only while they fit
  have hdistinct : (((List.range n).map fun i => (Key.place i, Value.nil)).map (·.1)).Nodup := by
    rw [List.map_map]
    refine List.Nodup.map_on (fun i hi j hj h => ?_) List.nodup_range
    rw [List.mem_range] at hi hj
    exact place_inj (by omega) (by omega) h
  rw [vacated_eq]
  refine ⟨ht.setSlots fun e he => ?_, seq_setSlots .., fun i hi => ?_, fun k hk => ?_⟩
  · obtain ⟨i, -, rfl⟩ := hmem he
    exact ⟨fun h => absurd rfl h, .inl rfl⟩
  · exact ht.indexed.slotValue_setSlots_of_mem hdistinct
      (List.mem_map.mpr ⟨i, List.mem_range.mpr hi, rfl⟩)
  · refine ht.indexed.slotValue_setSlots_of_ne fun e he => ?_
    obtain ⟨i, hi, rfl⟩ := hmem he
    exact hk i hi

/-- Whether some keys in a row stand for the values of a list, and every other one for what it did. -/
structure Runs (t : Table) (first : Nat) (values : List Value) (u : Table) : Prop where
  lawful : u.Lawful
  inside : ∀ i < values.length, u.get (.place (first + i)) = values.getD i .nil
  outside : ∀ k : Key, (∀ i < values.length, k ≠ .place (first + i)) → u.get k = t.get k

/-- Values that are set one after the other. -/
theorem Lawful.runs_foldl (ht : t.Lawful) (first : Nat)
    (hfits : first + values.length ≤ lastPlace) :
    t.Runs first values (values.foldl (fun (s : Table × Nat) v =>
      (s.1.setInt (Int64.ofNat s.2) v, s.2 + 1)) (t, first + 1)).1 := by
  induction values generalizing t first with
  | nil => exact ⟨ht, fun _ h => absurd h (Nat.not_lt_zero _), fun _ _ => rfl⟩
  | cons v values ih =>
    rw [List.length_cons] at hfits
    have hset := ht.set (k := .place first) trivial v
    have hget := ht.get_set (k := .place first) trivial v
    have hrest := ih hset (first + 1) (by omega)
    refine ⟨hrest.lawful, fun i hi => ?_, fun k hk => ?_⟩
    · rw [List.length_cons] at hi
      cases i with
      | zero =>
        -- the first value is not set again
        refine (hrest.outside (.place first) fun j hj h => ?_).trans ?_
        · have := place_inj (by omega) (by omega) h
          omega
        · rw [hget, if_pos rfl]
          rfl
      | succ i =>
        have hin := hrest.inside i (by omega)
        rw [show first + 1 + i = first + (i + 1) by omega] at hin
        exact hin
    · have hhead : k ≠ .place first := hk 0 (by simp)
      refine (hrest.outside k fun i hi => ?_).trans ?_
      · rw [show first + 1 + i = first + (i + 1) by omega]
        exact hk (i + 1) (by simpa using hi)
      · rw [hget, if_neg hhead]

/-- The entries of another table whose array part a table has taken over. -/
theorem Coherent.setSlots_of_coherent (ht : t.Coherent) {rest : Table} (hrest : rest.Coherent)
    (hseq : t.seq = rest.seq) : (t.setSlots rest.slots.toList).Coherent := by
  refine ht.setSlots ?_
  rintro ⟨k, v⟩ he
  obtain ⟨i, hi⟩ := Array.mem_iff_getElem?.mp (Array.mem_toList_iff.mp he)
  have hv : rest.slotValue k = v := hrest.indexed.slotValue_of_getElem? hi
  refine ⟨fun hne => hrest.proper k (by rwa [hv]), ?_⟩
  by_cases hnil : v = .nil
  · exact .inl hnil
  · refine .inr fun j hj hk => hnil ?_
    obtain rfl : k = .place j := hk
    exact hv.symm.trans (hrest.apart j (hseq ▸ hj))

/-- They give its keys their values and leave the others as they were. -/
theorem Indexed.slotValue_setSlots_of_indexed (ht : t.Indexed) {rest : Table}
    (hrest : rest.Indexed) (k : Key) : (t.setSlots rest.slots.toList).slotValue k =
      if (rest.index[k]?).isSome then rest.slotValue k else t.slotValue k := by
  cases hk : rest.index[k]? with
  | some i =>
    obtain ⟨v, hv⟩ := (hrest.located k i).mp hk
    rw [ht.slotValue_setSlots_of_mem hrest.slots_distinct
      (Array.mem_toList_iff.mpr (Array.mem_of_getElem? hv)), hrest.slotValue_of_getElem? hv]
    rfl
  | none =>
    refine ht.slotValue_setSlots_of_ne fun e he h => ?_
    obtain ⟨i, hi⟩ := Array.mem_iff_getElem?.mp (Array.mem_toList_iff.mp he)
    rw [(hrest.located k i).mpr ⟨e.2, by rw [hi, h]⟩] at hk
    cases hk

/-- A table without an array part filled up with values in order. -/
def filled (t : Table) (values : List Value) : Table :=
  ((t.vacated values.length).withSeq (ofList values).seq).setSlots (ofList values).slots.toList

theorem Coherent.filled (ht : t.Coherent) (hempty : t.seq = #[]) (hfits : values.length ≤ lastPlace) :
    (t.filled values).Coherent ∧
      (∀ i < values.length, (t.filled values).get (.place (0 + i)) = values.getD i .nil) ∧
      ∀ k : Key, (∀ i < values.length, k ≠ .place (0 + i)) → (t.filled values).get k = t.get k := by
  obtain ⟨hvacated, -, hinside, houtside⟩ := ht.vacated hfits
  have hrest : (ofList values).Holds values := holds_ofList hfits
  have hpart : (t.filled values).seq = (ofList values).seq := seq_setSlots ..
  unfold Table.filled at hpart ⊢
  generalize ofList values = rest at hrest hpart ⊢
  simp only [Nat.zero_add]
  -- the new array part over what is left outside: what it covers has just been removed there
  have hmerged : ((t.vacated values.length).withSeq rest.seq).Coherent :=
    { hvacated with
      indexed := ⟨hvacated.indexed.located, hvacated.indexed.removed⟩
      fits := hrest.lawful.fits
      ends := hrest.lawful.ends
      apart := fun i hi => hinside i (Nat.lt_of_lt_of_le hi hrest.size) }
  have hfilled := hmerged.setSlots_of_coherent hrest.lawful.toCoherent rfl
  have hslot := hmerged.indexed.slotValue_setSlots_of_indexed hrest.lawful.indexed
  refine ⟨hfilled, fun i hi => ?_, fun k hk => ?_⟩
  · rw [← hrest.get i hi]
    by_cases hin : i < rest.seq.size
    · rw [hfilled.get_eq_seq (by rw [hpart]; exact hin), hrest.lawful.get_eq_seq hin]
      simp only [hpart]
    · have hout : ∀ j < rest.seq.size, Key.place i ≠ .place j := by
        intro j hj h
        have hlast := hrest.size
        have := place_inj (by omega) (by omega) h
        omega
      rw [hfilled.get_eq_slot (by rw [hpart]; exact hout), hrest.lawful.get_eq_slot hout, hslot]
      split
      · rfl
      · rename_i hnone
        exact (hinside i hi).trans (slotValue_of_not_mem (by simpa using hnone)).symm
  · have hout : ∀ j < rest.seq.size, k ≠ .place j := fun j hj =>
      hk j (Nat.lt_of_lt_of_le hj hrest.size)
    rw [hfilled.get_eq_slot (by rw [hpart]; exact hout), hslot, hrest.nothing k hk, if_neg (by simp),
      ht.get_eq_slot (by simp [hempty])]
    exact houtside k hk

theorem setRun_first (hempty : t.seq.isEmpty) (values : List Value) : t.setRun 1 values =
    if (t.filled values).slots.size = (t.filled values).removed then t.filled values
    else (t.filled values).absorb (t.filled values).slots.size := by
  unfold Table.setRun
  rw [if_pos ⟨rfl, hempty⟩]
  dsimp only
  rw [← Array.foldl_toList]
  rfl

/-- Setting a run of values keeps a table lawful; its keys then stand for these values, and every
    other one for what it did. -/
theorem Lawful.setRun_spec (ht : t.Lawful) {first : Nat}
    (hfits : first + values.length ≤ lastPlace) :
    t.Runs first values (t.setRun (first + 1) values) := by
  by_cases hstart : first = 0 ∧ t.seq.isEmpty
  · obtain ⟨rfl, hempty⟩ := hstart
    rw [Nat.zero_add] at hfits
    obtain ⟨hfilled, hinside, houtside⟩ := ht.toCoherent.filled (Array.isEmpty_iff.mp hempty) hfits
    rw [Nat.zero_add, setRun_first hempty]
    split
    · rename_i hall
      exact ⟨hfilled.lawful_of_vacant (hfilled.indexed.slotValue_of_vacant (Nat.le_of_eq hall)),
        hinside, houtside⟩
    · obtain ⟨hlawful, hsame⟩ := hfilled.absorb (Nat.le_add_left _ _)
      exact ⟨hlawful, fun i hi => (hsame _).trans (hinside i hi),
        fun k hk => (hsame k).trans (houtside k hk)⟩
  · unfold Table.setRun
    rw [if_neg (by simpa using hstart)]
    exact ht.runs_foldl _ hfits

end OscHost.Script.Table
