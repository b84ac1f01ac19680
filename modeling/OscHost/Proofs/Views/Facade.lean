import OscHost.Proofs.ModuleTables
import OscHost.Proofs.Views.Walks
/-!
  The view that scripts have of the table of modules.

  Scripts start in an orderly heap, in which the name `package` stands for the view on record of the
  table of modules.  So all that a walk from there comes by are views on record, and these are
  read-only.
-/

namespace OscHost.Sandbox

open Script Library.Modules

variable {p : Policy} {root : String}

/-! ## The heap that scripts start in -/

/-- The number of tables that scripts start with, the view and its metatable among them. -/
abbrev tableCount : Nat := Place.all.length + 2

theorem below_place (t : Place) : (Value.table t.id).Below tableCount := by
  show t.id < tableCount
  cases t <;> decide

theorem entries_below {fs : Functions} : ∀ f ∈ entries fs, f.2.Below tableCount :=
  List.forall_mem_map.mpr fun _ _ => trivial

theorem gated_below (allowed : Bool) (r : Refusal) (b : Builtin) :
    (gated allowed r b).Below tableCount := by
  cases allowed <;> exact trivial

theorem libraries_below : ∀ f ∈ libraries p, f.2.Below tableCount :=
  List.forall_mem_map.mpr fun f _ => below_place f.2

theorem each_tableOf {fields : List (String × Value)} (h : ∀ f ∈ fields, f.2.Below tableCount) :
    (tableOf fields).Each (Value.Below tableCount) (Value.Below tableCount) :=
  Table.Each.setTexts Table.each_empty trivial (fun _ => trivial) (fun _ => trivial) h

/-- The tables that scripts start with name no others. -/
theorem contents_below (t : Place) :
    (contents p root t).Each (Value.Below tableCount) (Value.Below tableCount) := by
  have hnil : ∀ f ∈ ([] : List (String × Value)), f.2.Below tableCount := List.forall_mem_nil _
  cases t with
  | globals =>
    refine each_tableOf ?_
    simp only [List.forall_mem_append, List.forall_mem_cons]
    exact ⟨⟨⟨entries_below, Nat.lt_succ_self _, trivial, hnil⟩, libraries_below⟩, below_place _,
      below_place _, below_place _, hnil⟩
  | loaded => exact each_tableOf (List.forall_mem_cons.mpr ⟨below_place _, libraries_below⟩)
  | string | coroutine | fileMethods | table | json => exact each_tableOf entries_below
  | preload => exact Table.each_empty
  | searchers =>
    exact Table.each_ofList (fun _ => trivial) (List.forall_mem_map.mpr fun _ _ => trivial)
  | stringMeta =>
    refine each_tableOf ?_
    rw [List.forall_mem_cons, List.forall_mem_map]
    exact ⟨below_place _, fun _ _ => trivial⟩
  | failureMeta =>
    refine each_tableOf ?_
    simp only [List.forall_mem_cons]
    exact ⟨trivial, trivial, hnil⟩
  | package =>
    refine each_tableOf ?_
    simp only [packageEntries, List.forall_mem_cons]
    exact ⟨trivial, trivial, below_place _, gated_below .., trivial, below_place _, below_place _,
      trivial, hnil⟩
  | fileMeta =>
    refine each_tableOf ?_
    simp only [List.forall_mem_append, List.forall_mem_cons]
    exact ⟨entries_below, below_place _, trivial, hnil⟩
  | io =>
    refine each_tableOf ?_
    simp only [List.forall_mem_append, List.forall_mem_cons, List.forall_mem_map]
    exact ⟨⟨⟨entries_below, gated_below .., hnil⟩, entries_below⟩, fun _ _ => trivial⟩
  | math =>
    refine each_tableOf ?_
    simp only [mathConstants, List.forall_mem_append, List.forall_mem_cons]
    exact ⟨entries_below, trivial, trivial, trivial, trivial, hnil⟩
  | os =>
    refine each_tableOf ?_
    simp only [List.forall_mem_append, List.forall_mem_cons]
    exact ⟨⟨⟨entries_below, gated_below .., trivial, hnil⟩, entries_below⟩, gated_below .., hnil⟩
  | utf8 =>
    refine each_tableOf ?_
    simp only [List.forall_mem_append, List.forall_mem_cons]
    exact ⟨entries_below, trivial, hnil⟩
  | osc =>
    refine each_tableOf ?_
    simp only [List.forall_mem_cons]
    exact ⟨trivial, hnil⟩
  | menu =>
    refine each_tableOf ?_
    simp only [List.forall_mem_cons]
    exact ⟨trivial, trivial, hnil⟩
  | debug =>
    refine each_tableOf ?_
    split
    · exact entries_below
    · exact hnil

theorem size_base : (base p root).tables.size = Place.all.length := by
  simp [base]

/-- Before the view is made, the heap names no function of a view. -/
theorem orderly_base : (base p root).OrderlyTo tableCount := by
  refine ⟨fun id => ?_, ?_, fun t q hl => ?_⟩
  · rcases Nat.lt_or_ge id Place.all.length with hid | hid
    · have htable : (base p root).table id = contents p root (Place.all[id]) := by
        simp [Heap.table, base, hid]
      rw [htable]
      exact contents_below _
    · rw [Heap.table_of_ge (Nat.le_trans (Nat.le_of_eq size_base) hid)]
      exact Table.each_empty
  · rintro role t name f ⟨n, rfl, hn⟩
    have hmem := Array.mem_of_getElem? hn
    simp [base] at hmem
  · cases hl

/-- Scripts start in an orderly heap, with the view of the table of modules. -/
theorem made_facade (p : Policy) (root : String) :
    Made tableCount (base p root) Place.package.id facade "package".toUTF8 (heap p root) ∧
      (heap p root).tables.size = tableCount := by
  obtain ⟨q, -, hq, hsize, hmade⟩ := made_view (t := Place.package.id) orderly_base
    (Nat.lt_of_lt_of_eq (by decide) size_base.symm) rfl "package".toUTF8
  rw [size_base] at hq hsize
  subst hq
  exact ⟨hmade, hsize⟩

theorem orderly_heap : (heap p root).Orderly := by
  obtain ⟨hmade, hsize⟩ := made_facade p root
  rw [Heap.Orderly, hsize]
  exact hmade.orderly

/-- The view is the only one on record at first. -/
theorem views_heap : (heap p root).views = [(Place.package.id, facade)] := by
  change (heap p root).views = [(7, 21)]
  rfl

theorem metatable_facade : ((heap p root).table facade).metatable = some Place.all.length := by
  change ((heap p root).table 21).metatable = some 20
  rfl

theorem globals_package :
    ((heap p root).table Place.globals.id).getText "package" = .table facade := by
  have hnames : ∀ f ∈ libraries p, f.2.isNil = false ∧ f.1 ≠ "package" := by
    cases hp : p.debug <;> simp [libraries, hp, Value.isNil]
  have hafter : ∀ f ∈ ("_VERSION", .text "Lua 5.4") :: (libraries p ++ [("osc", .table Place.osc.id),
      ("menu", .table Place.menu.id), ("json", .table Place.json.id)]),
      f.2.isNil = false ∧ f.1 ≠ "package" := by
    simp only [List.forall_mem_append, List.forall_mem_cons]
    exact ⟨by decide, hnames, by decide, by decide, by decide, List.forall_mem_nil _⟩
  rw [table_heap, contents, List.append_assoc, List.append_assoc]
  refine getText_tableOf (entries baseFunctions) _ ?_ fun f hf => (hafter f hf).2
  refine List.forall_mem_append.mpr ⟨List.forall_mem_map.mpr fun _ _ => rfl, ?_⟩
  exact List.forall_mem_cons.mpr ⟨rfl, fun f hf => (hafter f hf).1⟩

/-! ## Walks from the view of the table of modules -/

/-- The name `package` stands for the view of the table of modules.  Whatever a walk from there comes by
    is no table but the view on record of one table, and that view is read-only: its steps yield what
    they yield in the table behind it, with the view on record in place of each table that is there, and
    take no view away, and assignments to it fail.  They fail with the error about it wherever the key can be written out, and change nothing
    unless a function writes it out. -/
theorem facade_read_only {others : Answers} (hd : others.Discreet) {held : List Value} {h : Heap}
    (hw : Walk others facade (heap p root) held h) :
    ((heap p root).table Place.globals.id).getText "package" = .table facade ∧
      (heap p root).Keeps h ∧ h.ReadOnly others Place.package.id facade "package".toUTF8 ∧
      ∀ q, .table q ∈ held →
        ∃ t name, t ≠ q ∧ h.views.lookup t = some q ∧ h.ReadOnly others t q name := by
  obtain ⟨hmade, -⟩ := made_facade p root
  obtain ⟨hk, hheld⟩ := hw.pictured hd orderly_heap hmade.recorded
  refine ⟨globals_package, hk, ?_, fun q hq => ?_⟩
  · exact hk.orderly.readOnly hd (hk.isView _ _ _ hmade.recorded hmade.isView)
      (hk.lookup _ _ hmade.recorded)
  · obtain ⟨_, hp⟩ := hheld _ hq
    obtain ⟨t, rfl, hne, hl⟩ := hp.of_table
    obtain ⟨-, name, hv⟩ := hk.orderly.views t q hl
    exact ⟨t, name, hne, hl, hk.orderly.readOnly hd hv hl⟩

/-- Functions that never answer. -/
def silent : Answers := fun _ _ _ _ _ => False

theorem discreet_silent : silent.Discreet := fun _ _ _ _ _ _ ha => ha.elim

/-- At first no function writes out texts. -/
theorem metamethod_tostring (text : Bytes) :
    (heap p root).metamethod (.string text) "__tostring" = .nil := by
  show ((heap p root).table Place.stringMeta.id).getText "__tostring" = .nil
  rw [table_heap]
  exact (getText_setTexts (by decide) Table.listed_empty (by decide)).trans (Heap.get_empty _)

/-- Reading an entry of a table without metatable yields what is there. -/
theorem ends_reading_plain {others : Answers} {h : Heap} {id : Nat}
    (hm : (h.table id).metatable = none) (k : Value) :
    Lib.Ends others (Lib.reading (.table id) k) h (.ok [rawEntry (h.table id) k]) h := by
  refine ⟨0, Machine.hostSite, ?_⟩
  show (Lib.index (.table id) k none Machine.hostSite (fun v h => .done [v] h) h).Comes _ _ _
  rw [Moment.index_plain hm]
  exact .done

/-- A table that the table of modules names can be walked to. -/
theorem walk_entry {key : Bytes} {t : Nat} (hk : (contents p root .package).get (.string key) = .table t) :
    ∃ q h, Walk silent facade (heap p root) [.table q, .table facade] h ∧ h.views.lookup t = some q := by
  have ho : (heap p root).Orderly := orderly_heap
  have hv := (made_facade p root).1.isView
  -- the table of modules has no metatable, so reading it through its view is reading it raw
  have hread : Lib.Ends silent (Lib.reading (.table Place.package.id) (.string key)) (heap p root)
      (.ok [.table t]) (heap p root) := by
    have hplain : ((heap p root).table Place.package.id).metatable = none := by
      rw [table_heap]
      exact Table.metatable_setTexts ..
    have hentry : rawEntry ((heap p root).table Place.package.id) (.string key) = .table t := by
      rw [table_heap]
      exact hk
    rw [← hentry]
    exact ends_reading_plain hplain (.string key)
  have ht : t < (heap p root).tables.size := (keeps_of_reading discreet_silent ho hread).2
  obtain ⟨q, hq, hl, -⟩ := keeps_view ho ht
    ("package".toUTF8 ++ ".".toUTF8 ++ Lib.plainText (heap p root) (.string key))
  have hshown : ShownAs silent "package".toUTF8 (.string key) (.table t) (heap p root) _ _ :=
    .table ((ends_tostring_plain (metamethod_tostring key)).mpr ⟨rfl, rfl⟩)
  rw [hq] at hshown
  exact ⟨q, _, .step .start List.mem_cons_self
    (.index ((ends_reading_view discreet_silent ho hv none).mpr ⟨_, _, hread, hshown⟩)), hl⟩

/-- The view of the table of loaded modules is read-only. -/
theorem facade_loaded_read_only : ∃ q h,
    Walk silent facade (heap {} "") [.table q, .table facade] h ∧
      ∃ t name, t ≠ q ∧ h.views.lookup t = some q ∧ h.ReadOnly silent t q name := by
  have hloaded : (contents {} "" .package).get (.string "loaded") = .table Place.loaded.id :=
    getText_tableOf_of_mem packageEntries_there (by decide) (.tail _ (.tail _ (.head _)))
  obtain ⟨q, h, hw, -⟩ := walk_entry hloaded
  exact ⟨q, h, hw, (facade_read_only discreet_silent hw).2.2.2 q List.mem_cons_self⟩

/-! ## A metatable that spoils the error -/

/-- What `error` answers when it is called with a text. -/
def complaints : Answers := fun f args h r h' => f = .builtin .error ∧ ∃ text, args = [.string text] ∧
  ∃ s, ((Library.invoke f args).action s h).Comes silent r h'

theorem error_text (s : Site) (text : Bytes) (h : Heap) :
    (Library.invoke (.builtin .error) [.string text]).action s h =
      .fail (.string (s.position 1 ++ text)) h := rfl

/-- It fails and changes nothing. -/
theorem discreet_complaints : complaints.Discreet := by
  rintro _ _ h r h' ho ⟨rfl, text, rfl, s, hx⟩
  rw [error_text] at hx
  cases hx
  exact ⟨ho.keeps, nofun⟩

/-- The heap after `getmetatable('').__tostring = error`. -/
def spoiled : Heap := (heap {} "").set Place.stringMeta.id (.string "__tostring".toUTF8) (.builtin .error)

theorem keeps_spoiled : (heap {} "").Keeps spoiled := by
  have hviews : ∀ t q, (heap {} "").views.lookup t = some q → q = facade := by
    intro t q hl
    rw [views_heap, List.lookup_cons] at hl
    split at hl
    · exact (Option.some.inj hl).symm
    · cases hl
  refine orderly_heap.keeps_set trivial trivial (fun t q hl => ?_) fun t q hl => ?_
  · rw [hviews t q hl]
    decide
  · rw [hviews t q hl, metatable_facade]
    decide

theorem tostring_spoiled (text : Bytes) :
    spoiled.metamethod (.string text) "__tostring" = .builtin .error := by
  have hinside : Place.stringMeta.id < (heap {} "").tables.size :=
    (made_facade {} "").2 ▸ by decide
  show (spoiled.table Place.stringMeta.id).getText "__tostring" = _
  rw [spoiled, Heap.set, Heap.table_modifyTable, if_pos ⟨rfl, hinside⟩, table_heap]
  exact (listed_tableOf (by decide)).getText_setText rfl "__tostring"

/-- Where a script makes `error` write out texts, an assignment to the view fails with the key alone. -/
theorem not_forall_assignment_refused : ¬ ∀ (others : Answers) (p : Policy) (root : String)
    (held : List Value) (h h' : Heap) (q : Nat) (k v : Value) (r : Except Value (List Value)),
    others.Discreet → Walk others facade (heap p root) held h → .table q ∈ held →
      Lib.Ends others (Lib.assigning (.table q) k v) h r h' →
        ∃ place name text, r = .error (.string (place ++ refusal name text)) := by
  intro hall
  have hw : Walk complaints facade (heap {} "") [.table facade] spoiled := .wait .start keeps_spoiled
  have hcall : Calls complaints (.builtin .error) [.string "path".toUTF8] spoiled
      (.error (.string "path".toUTF8)) spoiled := by
    refine ⟨1, .inr ⟨fun role t name hs => ?_, rfl, _, rfl, Machine.hostSite, .fail⟩⟩
    obtain ⟨n, he, -⟩ := hs
    cases he
  obtain ⟨hmade, -⟩ := made_facade {} ""
  have hx := ends_assigning_view_error (v := .nil) discreet_complaints keeps_spoiled.orderly
    (keeps_spoiled.isView _ _ _ hmade.recorded hmade.isView) none
    (ends_tostring_raised rfl (tostring_spoiled _) hcall)
  obtain ⟨place, name, text, he⟩ := hall _ _ _ _ _ _ _ _ _ _ discreet_complaints hw
    List.mem_cons_self hx
  -- the message would be longer than the key alone
  have hsize := congrArg ByteArray.size (Value.string.inj (Except.error.inj he))
  have hstart : "policy violation: ".toUTF8.size = 18 := by decide
  have hpath : "path".toUTF8.size = 4 := by decide
  simp only [refusal, ByteArray.size_append, hstart, hpath] at hsize
  omega

end OscHost.Sandbox
