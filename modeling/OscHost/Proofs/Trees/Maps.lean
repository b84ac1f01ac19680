import OscHost.Proofs.Trees.Apart
import OscHost.Proofs.Trees.KeyTexts
import OscHost.Proofs.Trees.Shapes
/-!
  Tables as objects.

  A table that is no array becomes an object, each key written as text.  The entries come in the order of
  a traversal, and where two keys are written alike the later entry replaces the earlier one: nothing is
  told of it, and which one is lost depends on that order.

  An object has a member for each entry, whatever the order, exactly when no text among the keys is
  written as another key is (`Table.Legible`); all other keys are told apart by their texts.
-/

namespace OscHost.Script

/-- Whether no text among the keys of a table is written as another key. -/
def Table.Legible (t : Table) : Prop :=
  ∀ s k, t.get (.string s) ≠ .nil → t.get k ≠ .nil →
    Trees.keyText? k = some (Text.Utf8.lossy s) → k = .string s

namespace Trees

variable {h : Heap} {room id : Nat} {path : List Nat} {w : Walk} {t : Table}
  {entries l : List (Key × Value)}

/-! ## Texts of keys -/

theorem proper_of_get (ht : t.Lawful) {k : Key} (hk : t.get k ≠ .nil) : k.Proper := by
  by_cases hplace : ∀ i < t.seq.size, k ≠ .place i
  · rw [ht.get_eq_slot hplace] at hk
    exact ht.proper k hk
  · push Not at hplace
    obtain ⟨i, -, rfl⟩ := hplace
    trivial

/-- In a legible table all keys are written differently. -/
theorem legible_iff (ht : t.Lawful) (hkeys : ∀ e ∈ t.entries, (keyText? e.1).isSome) :
    t.Legible ↔ (t.entries.map fun e => keyText? e.1).Nodup := by
  constructor
  · intro hl
    have hdistinct := ht.entries_distinct
    rw [List.Nodup, List.pairwise_map] at hdistinct ⊢
    refine hdistinct.imp_of_mem ?_
    rintro ⟨k, v⟩ ⟨k', v'⟩ he he' hne hsame
    obtain ⟨hv, hget⟩ := ht.mem_entries_iff.mp he
    obtain ⟨hv', hget'⟩ := ht.mem_entries_iff.mp he'
    rw [← hget] at hv
    rw [← hget'] at hv'
    obtain ⟨name, hname⟩ := Option.isSome_iff_exists.mp (hkeys _ he)
    have htexts := (keyText?_inj (proper_of_get ht hv) (proper_of_get ht hv') hname
      (hsame ▸ hname) hne).1
    -- legibility is stated for a text first, so either key may be the one
    rcases htexts with ⟨s, rfl⟩ | ⟨s, rfl⟩
    · exact hne (hl s k' hv hv' hsame.symm).symm
    · exact hne (hl s k hv' hv hsame)
  · intro hnodup s k hs hk hsame
    have hmem := ht.mem_entries_iff.mpr ⟨hs, rfl⟩
    have hmem' := ht.mem_entries_iff.mpr ⟨hk, rfl⟩
    exact (Prod.mk.inj (List.inj_on_of_nodup_map hnodup hmem' hmem hsame)).1

/-! ## Objects of entries -/

/-- The object that entries are converted into in the order in which they are listed. -/
def ofEntries (h : Heap) (room : Nat) (path : List Nat) (entries : List (Key × Value)) (w : Walk) :
    Json × Walk :=
  let r := entries.foldl (convertEntry h (ofChild h room path)) ([], w)
  (.object (lastMembers r.1.reverse), r.2)

/-- A table that is opened and no array is the object of its entries. -/
theorem ofTable_map (hn : w.nodes + 1 ≤ maxNodes) (hid : id ∉ path)
    (shape : classify (h.table id) = .map) :
    ofTable h (room + 1) path id w = ofEntries h room (id :: path) (h.table id).entries w.count := by
  rw [ofTable_open hn hid, shape]
  rfl

/-- The members that entries become, each value by itself. -/
def membersOf (h : Heap) (room : Nat) (path : List Nat) (entries : List (Key × Value)) :
    List (String × Json) :=
  (writable entries).map fun f => (f.1, apart h room path f.2)

/-- How many tables are counted in some entries. -/
def tablesOf (h : Heap) (room : Nat) (path : List Nat) (entries : List (Key × Value)) : Nat :=
  ((writable entries).map fun f => tables h room path f.2).sum

theorem tablesOf_eq_of_perm (hl : l.Perm entries) :
    tablesOf h room path l = tablesOf h room path entries :=
  ((hl.filterMap _).map _).sum_eq

/-- The entries are converted side by side. -/
theorem ofEntries_mirrors (h : Heap) (room : Nat) (path : List Nat) (entries : List (Key × Value))
    (w : Walk) : ∃ js,
      (ofEntries h room path entries w).1 =
        .object (lastMembers ((((writable entries).map (·.1)).zip js))) ∧
      Mirrors h guardWarnings room path w.nodes ((writable entries).map (·.2)) js
        (ofEntries h room path entries w).2.nodes := by
  obtain ⟨js, hjs, hm⟩ := makes_entries (makes_ofChild h room path) entries [] w
  refine ⟨js, ?_, hm.mirrors_guards⟩
  unfold ofEntries
  dsimp only
  rw [hjs, List.append_nil, List.reverse_reverse]
  rfl

theorem ofEntries_nodes (hn : (ofEntries h room path entries w).2.nodes ≤ maxNodes) :
    w.nodes + tablesOf h room path entries ≤ maxNodes := by
  obtain ⟨js, -, hm⟩ := ofEntries_mirrors h room path entries w
  have hsum := (hm.eq_apart hn).2
  rw [List.map_map] at hsum
  exact hsum ▸ hn

/-- Within the limit the last of the members of each name is kept, and what each is does not depend on
    the others. -/
theorem ofEntries_eq (hn : w.nodes + tablesOf h room path entries ≤ maxNodes) :
    (ofEntries h room path entries w).1 = .object (lastMembers (membersOf h room path entries)) ∧
      (ofEntries h room path entries w).2.nodes = w.nodes + tablesOf h room path entries := by
  obtain ⟨js, hobject, hm⟩ := ofEntries_mirrors h room path entries w
  have happart := mirrors_map_apart h room path w.nodes ((writable entries).map (·.2)) (by
    rw [List.map_map]; exact hn)
  obtain ⟨rfl, hnodes⟩ := hm.unique happart
  rw [List.map_map] at hnodes
  rw [hobject, List.map_map, List.zip_map', membersOf]
  exact ⟨rfl, hnodes⟩

/-- Whether an object has a member for each entry of a table, with what the entry's value is converted
    into, and is the same in whatever order the entries are listed. -/
structure Lossless (h : Heap) (room : Nat) (path : List Nat) (t : Table) (w : Walk)
    (members : List (String × Json)) : Prop where
  each : (members.map fun m => (some m.1, m.2)).Perm
    (t.entries.map fun e => (keyText? e.1, apart h room path e.2))
  ordered : ∀ l, l.Perm t.entries → (ofEntries h room path l w).1 = .object members

/-- Where all keys can be written there is a member for each entry. -/
theorem membersOf_eq (h : Heap) (room : Nat) (path : List Nat)
    (hkeys : ∀ e ∈ entries, (keyText? e.1).isSome) :
    (membersOf h room path entries).map (fun m => (some m.1, m.2)) =
      entries.map fun e => (keyText? e.1, apart h room path e.2) := by
  have hall := congrArg (List.map fun f => (f.1, apart h room path f.2)) (writable_eq hkeys)
  rw [List.map_map, List.map_map] at hall
  rw [membersOf, List.map_map]
  exact hall

/-- The members of one name are what the entries with that text become. -/
theorem filter_membersOf (h : Heap) (room : Nat) (path : List Nat) (entries : List (Key × Value))
    (name : String) : (membersOf h room path entries).filter (·.1 == name) =
      (entries.filter fun e => keyText? e.1 == some name).map
        fun e => (name, apart h room path e.2) := by
  unfold membersOf writable
  induction entries with
  | nil => rfl
  | cons e entries ih =>
    cases hkey : keyText? e.1 with
    | none =>
      rw [List.filterMap_cons_none (by rw [hkey]; rfl), ih, List.filter_cons_of_neg (by simp [hkey])]
    | some text =>
      rw [List.filterMap_cons_some (b := (text, e.2)) (by rw [hkey]; rfl), List.map_cons]
      by_cases hname : text = name
      · subst hname
        rw [List.filter_cons_of_pos (by simp), ih, List.filter_cons_of_pos (by simp [hkey]),
          List.map_cons]
      · rw [List.filter_cons_of_neg (by simpa using hname), ih,
          List.filter_cons_of_neg (by simpa [hkey] using hname)]

theorem names_membersOf (h : Heap) (room : Nat) (path : List Nat)
    (hkeys : ∀ e ∈ entries, (keyText? e.1).isSome) :
    ((membersOf h room path entries).map (·.1)).Nodup ↔
      (entries.map fun e => keyText? e.1).Nodup := by
  have htexts : ((membersOf h room path entries).map (·.1)).map some =
      entries.map fun e => keyText? e.1 := by
    have hmembers := congrArg (List.map (·.1))
      (membersOf_eq h room path hkeys)
    rw [List.map_map, List.map_map] at hmembers
    rw [List.map_map]
    exact hmembers
  rw [← htexts, List.nodup_map_iff (Option.some_injective _)]

/-! ## What is lost -/

/-- The last of the members of each name are one for each entry, whatever the order, exactly when the
    table is legible. -/
theorem lossless_iff (lawful : t.Lawful) (hkeys : ∀ e ∈ t.entries, (keyText? e.1).isSome)
    (hn : w.nodes + tablesOf h room path t.entries ≤ maxNodes) :
    Lossless h room path t w (lastMembers (membersOf h room path t.entries)) ↔ t.Legible := by
  rw [legible_iff lawful hkeys, ← names_membersOf h room path hkeys]
  constructor
  · rintro ⟨heach, -⟩
    -- the members have different names, and there is one for each entry
    have hdifferent : ((lastMembers (membersOf h room path t.entries)).map fun m => some m.1).Nodup := by
      have hascending := lastMembers_ascending (membersOf h room path t.entries)
      rw [List.pairwise_map] at hascending
      rw [List.Nodup, List.pairwise_map]
      refine hascending.imp fun hlt heq => ?_
      rw [Option.some.inj heq] at hlt
      exact String.lt_irrefl _ hlt
    have htexts := heach.map (·.1)
    rw [List.map_map, List.map_map] at htexts
    exact (names_membersOf h room path hkeys).mpr (htexts.nodup_iff.mp hdifferent)
  · intro hnodup
    refine ⟨?_, fun l hl => ?_⟩
    · rw [← membersOf_eq h room path hkeys]
      exact (lastMembers_perm hnodup).map _
    · rw [(ofEntries_eq (tablesOf_eq_of_perm hl ▸ hn)).1]
      exact congrArg Json.object (lastMembers_eq_of_perm hnodup ((hl.filterMap _).map _))

/-- A table that is no array, and whose keys can all be written, becomes an object with one member for
    each text.  A member is what the last entry whose key has that text becomes by itself, so nothing is
    lost, whatever the order, exactly when the table is legible. -/
theorem ofTable_map_members (h : Heap) (room : Nat) (path : List Nat) (id : Nat) (w : Walk)
    (lawful : (h.table id).Lawful) (shape : classify (h.table id) = .map)
    (hkeys : ∀ e ∈ (h.table id).entries, (keyText? e.1).isSome) (hid : id ∉ path)
    (hn : (ofTable h (room + 1) path id w).2.nodes ≤ maxNodes) :
    ∃ members, (ofTable h (room + 1) path id w).1 = .object members ∧
      (members.map (·.1)).Pairwise (· < ·) ∧
      (∀ m, m ∈ members ↔ ∃ e,
        ((h.table id).entries.filter fun e => keyText? e.1 == some m.1).getLast? = some e ∧
          m.2 = apart h room (id :: path) e.2) ∧
      (Lossless h room (id :: path) (h.table id) w.count members ↔ (h.table id).Legible) := by
  -- were there too many already, the count would stand above the limit in the end
  have hfirst : w.nodes + 1 ≤ maxNodes := by
    by_contra hover
    rw [ofTable_over (by omega), Walk.overCount_nodes] at hn
    exact hover hn
  rw [ofTable_map hfirst hid shape] at hn ⊢
  have hcount := ofEntries_nodes hn
  refine ⟨_, (ofEntries_eq hcount).1, lastMembers_ascending _, fun m => ?_,
    lossless_iff lawful hkeys hcount⟩
  rw [mem_lastMembers, filter_membersOf, List.getLast?_map, Option.map_eq_some_iff]
  refine exists_congr fun e => and_congr_right fun _ => ?_
  exact ⟨fun heq => (congrArg Prod.snd heq).symm, fun heq => Prod.ext rfl heq.symm⟩

/-! ## Tables with keys of all kinds -/

/-- The heap of one table with some entries. -/
def single (l : List (Key × Value)) : Heap := { tables := #[({} : Table).sets l] }

/-- Entries by which a table is made that is no array: their keys are different, can be written, and
    one of them is no positive integer; their values are there and are no tables. -/
structure Flat (l : List (Key × Value)) : Prop where
  proper : ∀ e ∈ l, e.1.Proper
  distinct : (l.map (·.1)).Nodup
  written : ∀ e ∈ l, (keyText? e.1).isSome
  odd : ∃ e ∈ l, positive? e.1 = none
  plain : ∀ e ∈ l, e.2.isNil = false ∧ e.2.isTable = false

namespace Flat

theorem mem_entries (hl : Flat l) {e : Key × Value} : e ∈ ((single l).table 0).entries ↔ e ∈ l :=
  Table.mem_entries_sets hl.proper hl.distinct fun e he =>
    Value.isNil_eq_false_iff.mp (hl.plain e he).1

theorem lawful (hl : Flat l) : ((single l).table 0).Lawful := Table.lawful_empty.sets hl.proper

theorem classify (hl : Flat l) : classify ((single l).table 0) = .map := by
  obtain ⟨e, he, hodd⟩ := hl.odd
  exact classify_of_mem (hl.mem_entries.mpr he) hodd

theorem keys (hl : Flat l) : ∀ e ∈ ((single l).table 0).entries, (keyText? e.1).isSome :=
  fun e he => hl.written e (hl.mem_entries.mp he)

/-- Only the table itself is counted. -/
theorem counted (hl : Flat l) (room : Nat) (path : List Nat) :
    (Walk.count {}).nodes + tablesOf (single l) room path ((single l).table 0).entries ≤ maxNodes := by
  have hnone : tablesOf (single l) room path ((single l).table 0).entries = 0 := by
    refine List.sum_eq_zero fun n hn => ?_
    obtain ⟨f, hf, rfl⟩ := List.mem_map.mp hn
    obtain ⟨e, he, hname⟩ := List.mem_filterMap.mp hf
    obtain ⟨name, -, rfl⟩ := Option.map_eq_some_iff.mp hname
    exact tables_of_isTable (hl.plain e (hl.mem_entries.mp he)).2
  rw [hnone]
  decide

theorem nodes_le (hl : Flat l) (room : Nat) :
    (ofTable (single l) (room + 1) [] 0 {}).2.nodes ≤ maxNodes := by
  rw [ofTable_map (by decide) (by simp) hl.classify, (ofEntries_eq (hl.counted room [0])).2]
  exact hl.counted room [0]

theorem legible_iff (hl : Flat l) :
    ((single l).table 0).Legible ↔ (l.map fun e => keyText? e.1).Nodup := by
  have hperm : ((single l).table 0).entries.Perm l :=
    (List.perm_ext_iff_of_nodup (.of_map _ hl.lawful.entries_distinct) (.of_map _ hl.distinct)).mpr
      fun _ => hl.mem_entries
  rw [Trees.legible_iff hl.lawful hl.keys]
  exact (hperm.map _).nodup_iff

end Flat

/-- Entries with a key of each kind. -/
def mixedKeys : List (Key × Value) :=
  [(.int 1, .text "x"), (.string "flag", .bool true), (.bool true, .text "yes"),
    (.float (1.5 : Float).toBits, .text "half")]

theorem flat_mixedKeys : Flat mixedKeys where
  proper := by
    have hfloat : (Key.float (1.5 : Float).toBits).Proper := ⟨1.5, rfl, by decide⟩
    refine List.forall_mem_cons.mpr ⟨trivial, List.forall_mem_cons.mpr ⟨trivial, ?_⟩⟩
    exact List.forall_mem_cons.mpr ⟨trivial, List.forall_mem_singleton.mpr hfloat⟩
  distinct := by decide
  written := by decide
  odd := ⟨_, .tail _ (.head _), rfl⟩
  plain := by decide

theorem ofTable_map_members_mixedKeys : ∃ members,
    (ofTable (single mixedKeys) maxDepth [] 0 {}).1 = .object members ∧
      Lossless (single mixedKeys) (maxDepth - 1) [0] ((single mixedKeys).table 0) (Walk.count {})
        members := by
  obtain ⟨members, hobject, -, -, hlossless⟩ := ofTable_map_members (single mixedKeys) (maxDepth - 1)
    [] 0 {} flat_mixedKeys.lawful flat_mixedKeys.classify flat_mixedKeys.keys (by simp)
    (flat_mixedKeys.nodes_le _)
  exact ⟨members, hobject, hlossless.mpr (flat_mixedKeys.legible_iff.mpr (by decide +kernel))⟩

/-- Entries with an integer and the text of it. -/
def twins : List (Key × Value) := [(.int 1, .text "a"), (.string "1", .text "b")]

theorem flat_twins : Flat twins where
  proper := by simp [twins, Key.Proper]
  distinct := by decide
  written := by decide
  odd := ⟨_, .tail _ (.head _), rfl⟩
  plain := by decide

/-- A table loses an entry when an integer and its text are keys of it. -/
theorem not_forall_lossless : ¬ ∀ (h : Heap) (room : Nat) (path : List Nat) (id : Nat) (w : Walk),
    (h.table id).Lawful → classify (h.table id) = .map →
    (∀ e ∈ (h.table id).entries, (keyText? e.1).isSome) → id ∉ path →
    (ofTable h (room + 1) path id w).2.nodes ≤ maxNodes →
    ∃ members, (ofTable h (room + 1) path id w).1 = .object members ∧
      Lossless h room (id :: path) (h.table id) w.count members := by
  intro hall
  obtain ⟨members, hobject, hlossless⟩ := hall (single twins) (maxDepth - 1) [] 0 {}
    flat_twins.lawful flat_twins.classify flat_twins.keys (by simp) (flat_twins.nodes_le _)
  have hcount := flat_twins.counted (maxDepth - 1) [0]
  rw [ofTable_map (by decide) (by simp) flat_twins.classify, (ofEntries_eq hcount).1] at hobject
  rw [← Json.object.inj hobject, lossless_iff flat_twins.lawful flat_twins.keys hcount,
    flat_twins.legible_iff] at hlossless
  exact absurd hlossless (by decide)

end Trees

end OscHost.Script
