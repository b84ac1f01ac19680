import OscHost.Proofs.Trees.Shapes
/-!
  Values that come back as they went.

  A document is a value made of truth values, integers, finite doubles, texts and tables, each table
  either a list with the keys `1, …, n` or a record with texts for keys (`Documents`).  Being made of
  finitely many parts it is not in itself, and it has a count of tables and a nesting.

  Converted to a tree and back, on whatever heap, a document within the limits comes back as the same
  data (`SameData`): of the same kind wherever it is no table, and where it is one with the same keys
  and the same data under each.  The induction goes over documents and is about each value with its
  tree (`Back`), because the members of an object do not stand in the order in which the table lists
  them.
-/

namespace OscHost.Script

/-- The data that are no tables. -/
inductive Value.Scalar : Value → Prop
  | bool (b : Bool) : Scalar (.bool b)
  | int (n : Int64) : Scalar (.int n)
  | float {x : Float} (finite : x.isFinite) : Scalar (.float x)
  | text (s : String) : Scalar (.string (Bytes.ofText s))

theorem Value.Scalar.isTable_eq {v : Value} (hv : v.Scalar) : v.isTable = false := by
  cases hv <;> rfl

/-- Whether some values are documents, with how many tables, and nested how deep. -/
inductive Documents (h : Heap) : List Value → Nat → Nat → Prop
  | nil : Documents h [] 0 0
  | scalar {v vs n d} (hv : v.Scalar) (rest : Documents h vs n d) : Documents h (v :: vs) n d
  | table {id m e vs n d} (there : id < h.tables.size) (lawful : (h.table id).Lawful)
      (shape : (∃ size, (h.table id).ListLike size) ∨ (h.table id).RecordLike)
      (inside : Documents h ((h.table id).entries.map (·.2)) m e) (rest : Documents h vs n d) :
      Documents h (.table id :: vs) (m + 1 + n) (max (e + 1) d)

/-- Whether a value on one heap is the same data as another value on another heap. -/
inductive SameData (h h' : Heap) : Value → Value → Prop
  | plain {v : Value} (hv : v.isTable = false) : SameData h h' v v
  | table {id id' : Nat} (there : id' < h'.tables.size) (lawful : (h'.table id').Lawful)
      (same : ∀ k, SameData h h' ((h.table id).get k) ((h'.table id').get k)) :
      SameData h h' (.table id) (.table id')

namespace SameData

variable {h h' h'' : Heap} {v v' : Value}

/-- What is on a heap stays on it. -/
theorem extend (hs : SameData h h' v v') (hx : h''.Extends h') : SameData h h'' v v' := by
  induction hs with
  | plain hv => exact .plain hv
  | @table id id' there lawful _ ih =>
    have htable := hx.tables _ there
    refine .table (Nat.lt_of_lt_of_le there hx.size) (htable ▸ lawful) fun k => ?_
    rw [htable]
    exact ih k

/-- A new table with the same data under each key. -/
theorem newTable {t : Table} {id : Nat} (lawful : t.Lawful)
    (same : ∀ k, SameData h h' ((h.table id).get k) (t.get k)) :
    SameData h (h'.newTable t).2 (.table id) (.table h'.tables.size) := by
  obtain ⟨there, htable⟩ := Heap.Extends.table_added h' t
  have hx := Heap.Extends.newTable h' t
  generalize (h'.newTable t).2 = h'' at there htable hx ⊢
  refine .table there (htable.symm ▸ lawful) fun k => ?_
  rw [htable]
  exact (same k).extend hx

end SameData

namespace Trees

variable {h h' h₀ : Heap} {v : Value} {vs values : List Value} {j : Json} {js items : List Json}
  {room n d id : Nat}

/-! ## The way back -/

/-- Whether a tree is made into the same data as a value, whatever the heap. -/
def Back (h : Heap) (room : Nat) (v : Value) (j : Json) : Prop :=
  ∀ h₀, ∃ v' h', toValueFrom room j h₀ = .ok (v', h') ∧ h'.Extends h₀ ∧ SameData h h' v v'

/-- Trees side by side are made into values side by side. -/
theorem mapHeap_back (hb : List.Forall₂ (Back h room) vs js) (h₀ : Heap) :
    ∃ values h', (∀ acc, mapHeap (toValueFrom room) js acc h₀ = .ok (acc.reverse ++ values, h')) ∧
      h'.Extends h₀ ∧ List.Forall₂ (SameData h h') vs values := by
  induction hb generalizing h₀ with
  | nil => exact ⟨[], h₀, fun acc => by rw [mapHeap, List.append_nil], .refl h₀, .nil⟩
  | cons hv _ ih =>
    obtain ⟨v', h₁, hmade, hx₁, hsame⟩ := hv h₀
    obtain ⟨values, h₂, hvalues, hx₂, hrest⟩ := ih h₁
    refine ⟨v' :: values, h₂, fun acc => ?_, hx₂.trans hx₁, .cons (hsame.extend hx₂) hrest⟩
    rw [mapHeap, hmade]
    dsimp only
    rw [hvalues, List.reverse_cons, List.append_assoc]
    rfl

theorem back_scalar (hv : v.Scalar) (room : Nat) : Back h (room + 1) v (leaf v) := by
  -- the value by itself; no heap comes into it
  suffices hsame : ∀ h₀, toValueFrom (room + 1) (leaf v) h₀ = .ok (v, h₀) ∧ v.isTable = false from
    fun h₀ => ⟨v, h₀, (hsame h₀).1, .refl h₀, .plain (hsame h₀).2⟩
  intro h₀
  cases hv with
  | bool b => exact ⟨rfl, rfl⟩
  | int n =>
    refine ⟨?_, rfl⟩
    unfold leaf
    dsimp only
    have hword : Json.fitsWord n.toInt = true := by
      have hle := Int64.le_toInt n
      have hlt := Int64.toInt_lt n
      unfold Json.fitsWord
      simp only [Bool.and_eq_true, decide_eq_true_eq]
      omega
    rw [toValueFrom, hword, if_pos rfl, Int64.ofInt_toInt]
  | float finite =>
    refine ⟨?_, rfl⟩
    unfold leaf
    dsimp only
    rw [if_pos finite, toValueFrom, Value.ofFloat, not_isNaN_of_isFinite finite]
    rfl
  | text s =>
    refine ⟨?_, rfl⟩
    unfold leaf
    dsimp only
    rw [lossy_ofText]
    rfl

/-- The table of the values that come back is the same data as a list of the values that went. -/
theorem sameData_ofList {size : Nat} (lawful : (h.table id).Lawful)
    (shape : (h.table id).ListLike size) (hholds : (Table.ofList values).Holds values)
    (hsame : List.Forall₂ (SameData h h') (h.table id).seq.toList values) (k : Key) :
    SameData h h' ((h.table id).get k) ((Table.ofList values).get k) := by
  have hsize := lawful.size_of_listLike shape
  have hlength : values.length = size := by
    rw [← hsame.length_eq, Array.length_toList, hsize]
  by_cases hk : ∃ i < size, k = .place i
  · obtain ⟨i, hi, rfl⟩ := hk
    have hin : i < (h.table id).seq.size := by omega
    rw [hholds.get i (by omega), lawful.get_eq_seq hin]
    have hget := hsame.get (i := i) (by simpa using hin) (by omega)
    simpa [show i < values.length by omega] using hget
  · push Not at hk
    -- outside of the places neither table has anything
    have hnil : (h.table id).get k = .nil := by
      by_contra hne
      obtain ⟨i, hi, hplace⟩ := (shape.2 k).mp hne
      exact hk i hi hplace
    rw [hnil, hholds.get_of_ne (hlength ▸ hk)]
    exact .plain rfl

/-- A list comes back as a list of the same data. -/
theorem back_list {size : Nat} (lawful : (h.table id).Lawful) (shape : (h.table id).ListLike size)
    (hb : List.Forall₂ (Back h room) ((h.table id).entries.map (·.2)) items) :
    Back h (room + 1) (.table id) (.array items) := by
  intro h₀
  obtain ⟨values, h₁, hvalues, hx, hsame⟩ := mapHeap_back hb h₀
  rw [(lawful.of_listLike shape).2, Table.values_places] at hsame
  have hlength : values.length = size := by
    rw [← hsame.length_eq, Array.length_toList, lawful.size_of_listLike shape]
  have hholds : (Table.ofList values).Holds values := Table.holds_ofList (hlength ▸ shape.1)
  exact ⟨.table h₁.tables.size, _, toValueFrom_array (hvalues []),
    (Heap.Extends.newTable h₁ _).trans hx,
    .newTable hholds.lawful (sameData_ofList lawful shape hholds hsame)⟩

/-- The members of a record have its texts for names, and each is the tree of what its name stands
    for. -/
theorem members_record (lawful : (h.table id).Lawful) (shape : (h.table id).RecordLike)
    (hb : List.Forall₂ (Back h room) ((h.table id).entries.map (·.2)) js) :
    ((lastMembers (((named (h.table id)).map (·.1)).zip js)).map (·.1)).Perm
        ((named (h.table id)).map (·.1)) ∧
      ∀ m ∈ lastMembers (((named (h.table id)).map (·.1)).zip js),
        Back h room ((h.table id).getText m.1) m.2 := by
  rw [← values_recordLike lawful shape] at hb
  have hlength : js.length = (named (h.table id)).length := by
    rw [← hb.length_eq, List.length_map]
  have hnames : (((named (h.table id)).map (·.1)).zip js).map (·.1) =
      (named (h.table id)).map (·.1) := List.map_fst_zip (by simp [hlength])
  -- the names are all different, so no member replaces another
  have hperm : (lastMembers (((named (h.table id)).map (·.1)).zip js)).Perm
      (((named (h.table id)).map (·.1)).zip js) := by
    refine lastMembers_perm ?_
    rw [hnames]
    exact names_recordLike lawful shape
  refine ⟨?_, fun m hm => ?_⟩
  · have hmap := hperm.map (·.1)
    rwa [hnames] at hmap
  obtain ⟨i, hi, rfl⟩ := List.mem_iff_getElem.mp (hperm.subset hm)
  have hin : i < (named (h.table id)).length := by
    rw [List.length_zip] at hi
    omega
  have hget := hb.get (i := i) (by simpa using hin) (by omega)
  have hmem : ((named (h.table id))[i].1, (named (h.table id))[i].2) ∈ named (h.table id) :=
    List.getElem_mem hin
  -- what stands behind a name is what the record answers for it
  have hfound := ((mem_named_recordLike lawful shape).mp hmem).2
  simp only [List.get_eq_getElem, List.getElem_map] at hget
  rw [← hfound] at hget
  rw [List.getElem_zip, List.getElem_map]
  exact hget

/-- A new table of the values that some names stand for is the same data as a record with these names. -/
theorem sameData_ofFields {names : List String} (lawful : (h.table id).Lawful)
    (shape : (h.table id).RecordLike) (hnames : names.Perm ((named (h.table id)).map (·.1)))
    (hsame : List.Forall₂ (SameData h h') (names.map fun name => (h.table id).getText name) values)
    (k : Key) : SameData h h' ((h.table id).get k) ((Table.ofFields (names.zip values)).get k) := by
  have hlength : values.length = names.length := by rw [← hsame.length_eq, List.length_map]
  have hfields : (names.zip values).map (·.1) = names := List.map_fst_zip (by simp [hlength])
  by_cases hk : ∃ name ∈ names, k = .string name
  · obtain ⟨name, hname, rfl⟩ := hk
    obtain ⟨i, hi, rfl⟩ := List.mem_iff_getElem.mp hname
    have hin : (names[i], values[i]) ∈ names.zip values :=
      List.mem_iff_getElem.mpr ⟨i, by simp [hi, hlength], by simp⟩
    -- different names are different keys
    have hdistinct : ((names.zip values).map fun f => Key.string f.1).Nodup :=
      keys_distinct (hfields.symm ▸ hnames.nodup_iff.mpr (names_recordLike lawful shape))
    have hget := hsame.get (i := i) (by simpa using hi) (by omega)
    rw [Table.ofFields, Table.lawful_empty.get_setTexts_of_mem hdistinct hin]
    show SameData h h' ((h.table id).getText names[i]) values[i]
    simpa using hget
  · push Not at hk
    -- a key that is none of the names has a value on neither side
    have hnil : (h.table id).get k = .nil := by
      by_contra hne
      obtain ⟨name, rfl⟩ := shape k hne
      have hmem := (mem_named_recordLike lawful shape).mpr ⟨hne, rfl⟩
      exact hk name (hnames.mem_iff.mpr (List.mem_map_of_mem (f := (·.1)) hmem)) rfl
    have hother : ∀ f ∈ names.zip values, k ≠ .string f.1 := fun f hf =>
      hk f.1 (List.of_mem_zip hf).1
    rw [hnil, Table.ofFields, Table.lawful_empty.get_setTexts_of_ne hother, Table.get_empty]
    exact .plain rfl

/-- A record comes back as a record of the same data. -/
theorem back_record (lawful : (h.table id).Lawful) (shape : (h.table id).RecordLike)
    (hb : List.Forall₂ (Back h room) ((h.table id).entries.map (·.2)) js) :
    Back h (room + 1) (.table id)
      (.object (lastMembers (((named (h.table id)).map (·.1)).zip js))) := by
  obtain ⟨hnames, hmembers⟩ := members_record lawful shape hb
  generalize lastMembers (((named (h.table id)).map (·.1)).zip js) = members at hnames hmembers ⊢
  have hpairs : List.Forall₂ (Back h room) (members.map fun m => (h.table id).getText m.1)
      (members.map (·.2)) := by
    rw [List.forall₂_map_left_iff, List.forall₂_map_right_iff, List.forall₂_same]
    exact hmembers
  intro h₀
  obtain ⟨values, h₁, hvalues, hx, hsame⟩ := mapHeap_back hpairs h₀
  have hlawful : (Table.ofFields ((members.map (·.1)).zip values)).Lawful :=
    Table.lawful_empty.setTexts _
  refine ⟨.table h₁.tables.size, _, toValueFrom_object (hvalues []),
    (Heap.Extends.newTable h₁ _).trans hx, .newTable hlawful ?_⟩
  refine sameData_ofFields lawful shape hnames ?_
  rw [List.map_map]
  exact hsame

/-! ## The way there -/

/-- Documents unfold to trees that come back as they went. -/
theorem unfolds_of_documents (hdoc : Documents h vs n d) :
    ∃ js, Unfolds h vs js n d ∧ ∀ room, d < room → List.Forall₂ (Back h room) vs js := by
  induction hdoc with
  | nil => exact ⟨[], .nil, fun _ _ => .nil⟩
  | scalar hv _ ih =>
    obtain ⟨js, hu, hb⟩ := ih
    refine ⟨_, .leaf hv.isTable_eq hu, fun room hroom => ?_⟩
    obtain ⟨room, rfl⟩ : ∃ r, room = r + 1 := ⟨room - 1, by omega⟩
    exact .cons (back_scalar hv room) (hb _ hroom)
  | @table id m e vs n d there lawful shape _ _ ihInside ih =>
    obtain ⟨items, huInside, hbInside⟩ := ihInside
    obtain ⟨js, hu, hb⟩ := ih
    have hroom {room : Nat} (h : max (e + 1) d < room) : ∃ r, room = r + 1 ∧ e < r ∧ d < room :=
      ⟨room - 1, by omega, by omega, by omega⟩
    -- a table without entries counts as a list
    by_cases hlist : ∃ size, (h.table id).ListLike size
    · obtain ⟨size, hlist⟩ := hlist
      obtain ⟨harray, helements⟩ := classify_listLike lawful hlist
      refine ⟨_, .array there harray (helements ▸ huInside) hu, fun room h => ?_⟩
      obtain ⟨room, rfl, hr, hd⟩ := hroom h
      exact .cons (back_list lawful hlist (hbInside room hr)) (hb _ hd)
    · have hrecord := shape.resolve_left hlist
      have hne : named (h.table id) ≠ [] := by
        intro hnone
        have hentries := entries_recordLike lawful hrecord
        rw [hnone, List.map_nil] at hentries
        refine hlist ⟨0, Nat.zero_le _, fun k => iff_of_false (fun hk => ?_) (by simp)⟩
        have hmem := lawful.mem_entries_iff.mpr ⟨hk, rfl⟩
        rw [hentries] at hmem
        cases hmem
      refine ⟨_, .map there (classify_recordLike lawful hrecord hne)
        (values_recordLike lawful hrecord ▸ huInside) hu, fun room h => ?_⟩
      obtain ⟨room, rfl, hr, hd⟩ := hroom h
      exact .cons (back_record lawful hrecord (hbInside room hr)) (hb _ hd)

/-- A document within the limits comes back as the same data, on any heap. -/
theorem toValue_ofValue (h h₀ : Heap) (v : Value) (n d : Nat) (hdoc : Documents h [v] n d)
    (hn : n ≤ maxNodes) (hd : d < maxDepth) :
    ∃ v' h', toValue (ofValue h v).value h₀ = .ok (v', h') ∧ SameData h h' v v' := by
  obtain ⟨js, hu, hb⟩ := unfolds_of_documents hdoc
  obtain ⟨j, rfl⟩ : ∃ j, js = [j] := List.length_eq_one_iff.mp hu.length
  have hback := List.forall₂_cons.mp (hb maxDepth hd)
  obtain ⟨v', h', hmade, -, hsame⟩ := hback.1 h₀
  rw [ofValue_of_unfolds hu (Nat.le_sub_one_of_lt hd) hn]
  exact ⟨v', h', hmade, hsame⟩

/-- The list of some documents. -/
theorem documents_ofList (there : id < h.tables.size) (htable : h.table id = .ofList values)
    (hv : Table.AllSome values) (hfits : values.length ≤ Table.lastPlace)
    (inside : Documents h values n d) : Documents h [.table id] (n + 1 + 0) (max (d + 1) 0) := by
  refine .table there ?_ (.inl ⟨values.length, ?_⟩) ?_ .nil
  · exact htable ▸ (Table.holds_ofList hfits).lawful
  · exact htable ▸ Table.listLike_ofList hv hfits
  · rwa [htable, Table.values_ofList hv]

/-- A record, and a list in which it stands. -/
def sampleHeap : Heap where
  tables := #[.ofFields [("on", .bool true), ("ratio", .float 0.5)], .ofList [.int 2, .table 0]]

theorem documents_sampleHeap : Documents sampleHeap [.table 1] 2 2 := by
  have htable : sampleHeap.table 0 = .ofFields [("on", .bool true), ("ratio", .float 0.5)] := rfl
  have hrecord : Documents sampleHeap [.table 0] 1 1 := by
    refine .table (m := 0) (e := 0) (by decide) ?_ (.inr ?_) ?_ .nil
    · exact htable ▸ Table.lawful_empty.setTexts _
    · exact htable ▸ Table.recordLike_ofFields _
    · rw [htable, Table.values_ofFields (by decide) (by decide)]
      exact .scalar (.bool true) (.scalar (.float (by decide)) .nil)
  exact documents_ofList (by decide) rfl (by decide) (by decide) (.scalar (.int 2) hrecord)

theorem toValue_ofValue_sampleHeap : ∃ v' h',
    toValue (ofValue sampleHeap (.table 1)).value {} = .ok (v', h') ∧
      SameData sampleHeap h' (.table 1) v' :=
  toValue_ofValue sampleHeap {} (.table 1) 2 2 documents_sampleHeap (by decide) (by decide)

end Trees

end OscHost.Script
