import OscHost.Proofs.Trees.RoundTrip
/-!
  Tables with gaps.

  A null in an array or in an object becomes nil, and nil is no entry of a table.  So a table made of
  some values holds those that are not nil, in their order and under the keys that they would have
  had: an array with a null in the middle has lost its shape and counts as a map of numbers, one
  with nulls at its end is merely shorter, and one of nothing but nulls is empty.

  Whatever shape it comes to, what is inside such a table are the values without the nils
  (`Within.ofList` and `Within.ofFields`).  A nil unfolds to a leaf, so nothing is lost of how many
  tables there are or of how deep they are nested (`Unfolds.newTable`).
-/

namespace OscHost.Script

/-- The values that are not nil. -/
def present (values : List Value) : List Value := values.filter fun v => !v.isNil

theorem values_live (l : List (Key × Value)) :
    (l.filter fun e => !e.2.isNil).map (·.2) = present (l.map (·.2)) := by
  rw [present, List.filter_map]
  rfl

namespace Table

/-- The array part of a table of values goes up to a border, and the entries are the values that are
    not nil, each under its place. -/
theorem entries_ofList {values : List Value} (hs : values.length < 0x8000000000000000) :
    (ofList values).seq = values.toArray.extract 0 (border values.toArray) ∧
      (ofList values).entries = ((values.zipIdx 1).map place).filter fun e => !e.2.isNil := by
  have htail := ofList_eq values
  have hle : border values.toArray ≤ values.length := (endsSome_border values.toArray).le
  generalize border values.toArray = b at htail hle ⊢
  have hlisted : Listed { seq := values.toArray.extract 0 b } :=
    ⟨rfl, fun _ h => absurd h (Nat.not_lt_zero _), fun k i h => by simp at h⟩
  have hdistinct := places_distinct (values.drop b) (b + 1) (by rw [List.length_drop]; omega)
  obtain ⟨hseq, hslots⟩ := hlisted.setSlots hdistinct fun e _ => by simp
  rw [← htail] at hseq hslots
  refine ⟨hseq, ?_⟩
  have hparts : values.zipIdx 1 = (values.take b).zipIdx 1 ++ (values.drop b).zipIdx (b + 1) := by
    have happend := @List.zipIdx_append _ (values.take b) (values.drop b) 1
    rw [List.take_append_drop, List.length_take, Nat.min_eq_left hle] at happend
    rw [happend, Nat.add_comm]
  unfold entries
  rw [hseq, hslots, hparts, live_places, List.map_append, List.filter_append]
  simp

end Table

namespace Trees

/-! ## What is in a table, whatever its shape -/

/-- Whether what is inside a table are some values, in either shape that it may come to. -/
structure Within (t : Table) (values : List Value) : Prop where
  elements : ∀ size, classify t = .array size → elements t size = values
  named : classify t = .map → (named t).map (·.2) = values

/-- When a table is an array: of as many elements as it has entries, and none of its keys is beyond
    them. -/
theorem of_classify_array {t : Table} {size : Nat} (h : classify t = .array size) :
    greatest t.entries 0 = some size ∧ t.length = size ∧ t.entries.length = size := by
  unfold classify shapeOf at h
  split at h
  · rename_i top htop
    split at h
    · rename_i hsize
      cases h
      exact ⟨htop.trans (congrArg some hsize.1), hsize.2, rfl⟩
    · cases h
  · cases h

theorem le_greatest {l : List (Key × Value)} {top so : Nat} (h : greatest l so = some top) :
    so ≤ top ∧ ∀ e ∈ l, ∀ n, positive? e.1 = some n → n ≤ top := by
  induction l generalizing so with
  | nil =>
    cases h
    exact ⟨Nat.le_refl _, fun e he => by cases he⟩
  | cons e l ih =>
    rw [greatest] at h
    rcases hkey : positive? e.1 with _ | m
    · rw [hkey] at h
      cases h
    · rw [hkey] at h
      obtain ⟨hso, hl⟩ := ih h
      refine ⟨by omega, List.forall_mem_cons.mpr ⟨fun n hn => ?_, hl⟩⟩
      rw [hkey] at hn
      cases hn
      omega

/-- The values of entries by the texts of their keys. -/
def writable (entries : List (Key × Value)) : List (String × Value) :=
  entries.filterMap fun e => (keyText? e.1).map (·, e.2)

/-- When all keys can be written as text, nothing is passed over. -/
theorem writable_eq {entries : List (Key × Value)} (h : ∀ e ∈ entries, (keyText? e.1).isSome) :
    (writable entries).map (fun f => (some f.1, f.2)) =
      entries.map fun e => (keyText? e.1, e.2) := by
  unfold writable
  induction entries with
  | nil => rfl
  | cons e entries ih =>
    obtain ⟨he, hrest⟩ := List.forall_mem_cons.mp h
    obtain ⟨name, hname⟩ := Option.isSome_iff_exists.mp he
    rw [List.filterMap_cons_some (b := (name, e.2)) (by rw [hname]; rfl), List.map_cons,
      List.map_cons, ih hrest, hname]

theorem named_of_written {t : Table} (h : ∀ e ∈ t.entries, (keyText? e.1).isSome) :
    (named t).map (·.2) = t.entries.map (·.2) := by
  have hvalues := congrArg (List.map (·.2)) (writable_eq h)
  rw [List.map_map, List.map_map] at hvalues
  exact hvalues

theorem Within.ofList {values : List Value} (hs : values.length < 0x8000000000000000) :
    Within (Table.ofList values) (present values) := by
  obtain ⟨hseq, hentries⟩ := Table.entries_ofList hs
  have hvalues : (Table.ofList values).entries.map (·.2) = present values := by
    rw [hentries, values_live, Table.values_places]
  refine ⟨fun size hshape => ?_, fun _ => ?_⟩
  · obtain ⟨hgreatest, hlength, hcount⟩ := of_classify_array hshape
    -- nothing is behind the border, because its key would be greater than the greatest one
    have hbehind : present (values.drop size) = [] := by
      refine List.filter_eq_nil_iff.mpr fun v hv hsome => ?_
      obtain ⟨i, hi, rfl⟩ := List.mem_iff_getElem.mp hv
      rw [List.length_drop] at hi
      rw [List.getElem_drop] at hsome
      have hentry : Table.place (values[size + i], size + i + 1) ∈
          (Table.ofList values).entries := by
        rw [hentries]
        refine List.mem_filter.mpr ⟨List.mem_map_of_mem ?_, hsome⟩
        rw [List.mem_zipIdx_iff_le_and_getElem?_sub]
        simp
      have hle := (le_greatest hgreatest).2 _ hentry _
        (positive?_place (by omega) (by omega))
      omega
    have hfront : present values = present (values.take size) := by
      have hsplit : present (values.take size ++ values.drop size) =
          present (values.take size) ++ present (values.drop size) := List.filter_append ..
      rwa [List.take_append_drop, hbehind, List.append_nil] at hsplit
    -- and before it are as many as there are places
    have hfull : present (values.take size) = values.take size := by
      have hlive : (present (values.take size)).length = size := by
        rw [← hfront, ← hvalues, List.length_map, hcount]
      have hroom := List.length_take_le size values
      have hless := List.length_filter_le (fun v : Value => !v.isNil) (values.take size)
      refine List.filter_eq_self.mpr (List.length_filter_eq_length_iff.mp ?_)
      unfold present at hlive
      omega
    have hsize : (Table.ofList values).seq.size = size := hlength
    have hle : Table.border values.toArray ≤ values.length := (Table.endsSome_border _).le
    have hborder : Table.border values.toArray = size := by
      rw [hseq] at hsize
      simpa [hle] using hsize
    have hfits : (Table.ofList values).seq.size < 0x8000000000000000 := by omega
    have hlist : (Table.ofList values).seq.toList = values.take size := by
      rw [hseq, hborder]
      simp
    rw [hfront, hfull, ← hlist, ← elements_seq hfits, hsize]
  · rw [named_of_written, hvalues]
    intro e he
    rw [hentries] at he
    obtain ⟨p, _, rfl⟩ := List.mem_map.mp (List.mem_filter.mp he).1
    rfl

theorem Within.ofFields {fields : List (String × Value)}
    (hnames : (fields.map fun f => Key.string f.1).Pairwise (· ≠ ·)) :
    Within (Table.ofFields fields) (present (fields.map (·.2))) := by
  have hentries := Table.live_ofFields hnames
  have hvalues : (Table.ofFields fields).entries.map (·.2) = present (fields.map (·.2)) := by
    rw [hentries, values_live, List.map_map]
    rfl
  have hstrings : ∀ e ∈ (Table.ofFields fields).entries, ∃ name, e.1 = .string name := by
    rw [hentries]
    intro e he
    obtain ⟨f, _, rfl⟩ := List.mem_map.mp (List.mem_filter.mp he).1
    exact ⟨_, rfl⟩
  refine ⟨fun size hshape => ?_, fun _ => ?_⟩
  · -- an array only when there is nothing in it
    obtain ⟨hgreatest, _, hcount⟩ := of_classify_array hshape
    rw [← hvalues]
    cases hl : (Table.ofFields fields).entries with
    | nil =>
      rw [hl] at hcount
      cases hcount
      rfl
    | cons e l =>
      rw [hl] at hgreatest hstrings
      obtain ⟨name, hname⟩ := hstrings e (.head _)
      rw [greatest, hname] at hgreatest
      cases hgreatest
  · rw [named_of_written, hvalues]
    intro e he
    obtain ⟨name, hname⟩ := hstrings e he
    rw [hname]
    rfl

/-! ## New tables unfold -/

/-- Leaving out the nils loses no table and no level. -/
theorem Unfolds.live {h : Heap} {vs : List Value} {js : List Json} {n d : Nat}
    (hu : Unfolds h vs js n d) : ∃ js', Unfolds h (present vs) js' n d := by
  induction hu with
  | nil => exact ⟨[], .nil⟩
  | @leaf v vs js n d hv _ ih =>
    obtain ⟨js', ih⟩ := ih
    -- nil is a leaf, so to leave it out takes neither a table nor a level
    cases hnil : v.isNil with
    | true =>
      refine ⟨js', ?_⟩
      rwa [present, List.filter_cons_of_neg (by simp [hnil])]
    | false =>
      refine ⟨Trees.leaf v :: js', ?_⟩
      rw [present, List.filter_cons_of_pos (by simp [hnil])]
      exact .leaf hv ih
  | array hid shape inside _ _ ih =>
    obtain ⟨js', ih⟩ := ih
    exact ⟨_, .array hid shape inside ih⟩
  | map hid shape inside _ _ ih =>
    obtain ⟨js', ih⟩ := ih
    exact ⟨_, .map hid shape inside ih⟩

/-- A new table with some values in it unfolds to a tree of one more level, whatever its shape. -/
theorem Unfolds.newTable {h : Heap} {t : Table} {values : List Value} {js : List Json} {n d : Nat}
    (hu : Unfolds h values js n d) (ht : Within t (present values)) :
    ∃ j, Unfolds (h.newTable t).2 [.table h.tables.size] [j] (n + 1) (d + 1) := by
  obtain ⟨js', hpresent⟩ := hu.live
  obtain ⟨hid, htable⟩ := Heap.Extends.table_added h t
  have hinside := hpresent.extend (.newTable h t)
  generalize (h.newTable t).2 = h' at hid htable hinside ⊢
  cases hshape : classify t with
  | array size =>
    rw [← ht.elements size hshape, ← htable] at hinside
    exact ⟨_, .array hid (by rw [htable, hshape]) hinside .nil⟩
  | map =>
    rw [← ht.named hshape, ← htable] at hinside
    exact ⟨_, .map hid (by rw [htable, hshape]) hinside .nil⟩

end Trees

end OscHost.Script
