import OscHost.Proofs.Script.Entries
import OscHost.Script.Load
/-!
  What scripts can get hold of.

  Some functions are withheld from scripts unless the policy gives them away, and the tables by
  which modules are found are kept in a `Vault`: scripts see views of them only.  A value is
  `Clean` when a script may have it.  `Heap.Good` says that whatever a script can reach from the
  heap is clean, and that the vault holds what it is to hold.  The vault is optional: without one,
  all tables are in the reach of scripts and only the functions are kept back.
-/

namespace OscHost.Script

/-- Whether a function is for those scripts alone that the policy trusts with it. -/
def Builtin.isWithheld : Builtin → Bool
  | .ioPopen | .osExecute | .osTmpname | .loadlib | .searchForeign _
  | .debugGetinfo | .debugGetlocal | .debugGetmetatable | .debugGethook | .debugGetregistry
  | .debugGetupvalue | .debugGetuservalue | .debugSethook | .debugSetlocal | .debugSetmetatable
  | .debugSetupvalue | .debugSetuservalue | .debugTraceback | .debugUpvalueid
  | .debugUpvaluejoin | .debugDebug | .debugSetcstacklimit => true
  | _ => false

/-- The tables by which modules are found: where they are and what they hold at first.  `require` may
    be called for some names, among which the one of the table of modules is not. -/
structure Vault where
  asked : Bytes → Prop
  reserved : ¬ asked "package"
  loaded : Nat
  package : Nat
  preload : Nat
  searchers : Nat
  loadedTable : Table
  packageTable : Table
  preloadTable : Table
  searchersTable : Table
  apart : loaded ≠ package ∧ loaded ≠ preload ∧ loaded ≠ searchers
  plain : packageTable.metatable = none ∧ preloadTable.metatable = none ∧
    searchersTable.metatable = none
  registered : loadedTable.getText "package" = .table package
  named : packageTable.getText "searchers" = .table searchers
  vacant : ∀ k, preloadTable.get k = .nil
  own : ∀ n, searchersTable.getInt n = .nil ∨
    ∃ b : Builtin, b.isWithheld = false ∧ searchersTable.getInt n = .builtin b

/-- Whether a table is in the vault. -/
def Vault.Owns (w : Vault) (id : Nat) : Prop :=
  id = w.loaded ∨ id = w.package ∨ id = w.preload ∨ id = w.searchers

/-- What is kept back from scripts besides functions: nothing, the tables of a vault, or the mark by which
    coroutines say that they sleep.  Or scripts are trusted, and nothing at all is kept back. -/
inductive Ward
  | free
  | vault (w : Vault)
  | mark
  | trusted

namespace Ward

/-- What is kept back where there may be a vault. -/
@[reducible] def ofVault? : Option Vault → Ward
  | none => .free
  | some w => .vault w

instance : Coe (Option Vault) Ward := ⟨ofVault?⟩

instance : Membership Vault Ward := ⟨fun V w => V = .vault w⟩

variable {w w' : Vault}

@[simp] theorem mem_vault : w ∈ vault w' ↔ w = w' :=
  ⟨fun h => (vault.inj h).symm, fun h => congrArg vault h.symm⟩

@[simp] theorem not_mem_free : ¬ w ∈ free := fun h => by cases h

@[simp] theorem not_mem_mark : ¬ w ∈ mark := fun h => by cases h

@[simp] theorem not_mem_trusted : ¬ w ∈ trusted := fun h => by cases h

/-- Whether scripts may start processes, name temporary files and look for files anywhere.  None of this
    has to do with the mark. -/
def reachesOut : Ward → Bool
  | mark | trusted => true
  | free | vault _ => false

/-- Whether scripts may have every function. -/
def trusts : Ward → Bool
  | trusted => true
  | free | vault _ | mark => false

/-- Whether a function is kept back. -/
def withholds (V : Ward) (b : Builtin) : Bool :=
  match b with
  | .ioPopen | .osExecute | .osTmpname => ! V.reachesOut
  | b => b.isWithheld && ! V.trusts

theorem withholds_of_isWithheld {V : Ward} {b : Builtin} (h : b.isWithheld = false) :
    V.withholds b = false := by
  unfold withholds
  split
  · cases h
  · cases h
  · cases h
  · rw [h, Bool.false_and]

theorem reachesOut_of_withholds {V : Ward} (h : (! V.reachesOut) = false) : V.reachesOut :=
  Bool.not_eq_eq_eq_not.mp h

/-- Scripts that may have all other functions that are kept back are trusted. -/
theorem eq_trusted_of_withholds {V : Ward} (h : (! V.trusts) = false) : V = trusted := by
  cases V with
  | trusted => rfl
  | free | vault w | mark => cases h

theorem withholds_trusted (b : Builtin) : trusted.withholds b = false := by
  unfold withholds
  split
  · rfl
  · rfl
  · rfl
  · exact Bool.and_false _

end Ward

/-! ## Values -/

/-- Whether a script may have a value. -/
def Value.Clean (V : Ward) : Value → Prop
  | .table id => ∀ w ∈ V, ¬ w.Owns id
  | .builtin b => V.withholds b = false
  | .mark n => V = .mark → n ≠ 0
  | _ => True

/-- Whether a value may be in a table: those in the vault may hold any table. -/
def Value.Fits (V : Ward) (id : Nat) (v : Value) : Prop :=
  v.Clean V ∨ (∃ w ∈ V, w.Owns id) ∧ ∃ n, v = .table n

variable {V : Ward}

namespace Value

@[simp] theorem clean_nil : Value.nil.Clean V := trivial
@[simp] theorem clean_bool (b : Bool) : (Value.bool b).Clean V := trivial
@[simp] theorem clean_int (n : Int64) : (Value.int n).Clean V := trivial
@[simp] theorem clean_float (x : Float) : (Value.float x).Clean V := trivial
@[simp] theorem clean_nan (s : Bool) : (Value.nan s).Clean V := trivial
@[simp] theorem clean_string (s : Bytes) : (Value.string s).Clean V := trivial
@[simp] theorem clean_text (s : String) : (Value.text s).Clean V := trivial
@[simp] theorem clean_closure (n : Nat) : (Value.closure n).Clean V := trivial
@[simp] theorem clean_native (n : Nat) : (Value.native n).Clean V := trivial
@[simp] theorem clean_thread (n : Nat) : (Value.thread n).Clean V := trivial
@[simp] theorem clean_object (n : Nat) : (Value.object n).Clean V := trivial

@[simp] theorem clean_builtin (b : Builtin) : (Value.builtin b).Clean V ↔ V.withholds b = false :=
  .rfl

@[simp] theorem clean_ofFloat (x : Float) : (Value.ofFloat x).Clean V := by
  unfold Value.ofFloat
  split <;> trivial

theorem Clean.fits {v : Value} (h : v.Clean V) (id : Nat) : v.Fits V id := .inl h

theorem Fits.clean {v : Value} {id : Nat} (h : v.Fits V id) (hid : (Value.table id).Clean V) :
    v.Clean V := by
  obtain h | ⟨⟨w, hw, ho⟩, _⟩ := h
  · exact h
  · exact absurd ho (hid w hw)

theorem Fits.clean_of_not_table {v : Value} {id : Nat} (h : v.Fits V id)
    (hv : ∀ n, v ≠ .table n) : v.Clean V := by
  obtain h | ⟨_, n, hn⟩ := h
  · exact h
  · exact absurd hn (hv n)

@[simp] theorem fits_nil (id : Nat) : Value.nil.Fits V id := .inl trivial

end Value

/-- Scripts that are trusted may have everything. -/
theorem Value.clean_trusted (v : Value) : v.Clean .trusted := by
  cases v with
  | table _ => exact fun _ hw => absurd hw Ward.not_mem_trusted
  | builtin b => exact Ward.withholds_trusted b
  | mark _ => exact nofun
  | _ => trivial

/-- Whether a script may have all of some values. -/
def CleanAll (V : Ward) (vs : List Value) : Prop := ∀ v ∈ vs, v.Clean V

@[simp] theorem cleanAll_nil : CleanAll V [] := fun _ h => nomatch h

@[simp] theorem cleanAll_cons {v : Value} {vs : List Value} :
    CleanAll V (v :: vs) ↔ v.Clean V ∧ CleanAll V vs := List.forall_mem_cons

@[simp] theorem cleanAll_append {vs ws : List Value} :
    CleanAll V (vs ++ ws) ↔ CleanAll V vs ∧ CleanAll V ws := List.forall_mem_append

@[simp] theorem cleanAll_reverse {vs : List Value} : CleanAll V vs.reverse ↔ CleanAll V vs := by
  simp [CleanAll]

namespace CleanAll

variable {vs : List Value}

theorem getD (h : CleanAll V vs) (n : Nat) : (vs.getD n .nil).Clean V := by
  rw [List.getD_eq_getElem?_getD]
  rcases hn : vs[n]? with _ | v
  · trivial
  · exact h v (List.mem_of_getElem? hn)

theorem drop (h : CleanAll V vs) (n : Nat) : CleanAll V (vs.drop n) :=
  fun v hv => h v (List.mem_of_mem_drop hv)

theorem take (h : CleanAll V vs) (n : Nat) : CleanAll V (vs.take n) :=
  fun v hv => h v (List.mem_of_mem_take hv)

end CleanAll

/-! ## Keys and tables -/

theorem Key.clean_of_ofValue {k : Key} {v : Value} (hv : v.Clean V) (h : Key.ofValue v = .ok k) :
    k.toValue.Clean V := by
  cases v with
  | float x =>
    simp only [Key.ofValue] at h
    split at h <;> cases h <;> trivial
  | nil | nan _ => cases h
  | _ => cases h; exact hv

theorem Table.Each.setText {t : Table} (ht : t.Each (Value.Clean V) (Value.Clean V)) {s : String}
    {v : Value} (hv : v.Clean V) : (t.setText s v).Each (Value.Clean V) (Value.Clean V) :=
  ht.set trivial (fun _ => trivial) trivial hv

/-! ## Heaps -/

/-- Whether scripts may have what a library function with a state keeps. -/
def Native.Clean (V : Ward) : Native → Prop
  | .reader file formats _ => file.Clean V ∧ CleanAll V formats
  | _ => True

theorem Native.clean_trusted (n : Native) : n.Clean .trusted := by
  cases n with
  | reader file formats => exact ⟨file.clean_trusted, fun v _ => v.clean_trusted⟩
  | _ => trivial

/-- Whether scripts may have what the roots name, the tables of modules aside. -/
structure Roots.Clean (V : Ward) (r : Roots) : Prop where
  globals : (Value.table r.globals).Clean V
  stringMeta : (Value.table r.stringMeta).Clean V
  fileMeta : (Value.table r.fileMeta).Clean V
  failureMeta : (Value.table r.failureMeta).Clean V
  input : r.input.Clean V
  output : r.output.Clean V

/-- What the vault is to hold: all but the table of loaded modules is as it was, and of that one
    the entries that counted as true. -/
structure Vault.Holds (w : Vault) (h : Heap) : Prop where
  inside : ∀ id, w.Owns id → id < h.tables.size
  loadedRoot : h.roots.loaded = w.loaded
  packageRoot : h.roots.package = w.package
  preloadRoot : h.roots.preload = w.preload
  package : h.table w.package = w.packageTable
  preload : h.table w.preload = w.preloadTable
  searchers : h.table w.searchers = w.searchersTable
  listed : (h.table w.loaded).Listed
  plainLoaded : (h.table w.loaded).metatable = none
  modules : ∀ e ∈ (h.table w.loaded).slots, e.1 = .string "package" ∨ e.2.Clean (.vault w)
  kept : ∀ k, (w.loadedTable.get k).isTrue → (h.table w.loaded).get k = w.loadedTable.get k

/-- Whether scripts may have all that they can reach. -/
structure Heap.Good (V : Ward) (h : Heap) : Prop where
  tables : ∀ id, (h.table id).Each (Value.Clean V) (Value.Fits V id)
  metatables : ∀ id m, (h.table id).metatable = some m → (Value.table m).Clean V
  cells : ∀ v ∈ h.cells, v.Clean V
  natives : ∀ n ∈ h.natives, n.Clean V
  roots : h.roots.Clean V
  views : ∀ e ∈ h.views, (Value.table e.2).Clean V
  typeMetas : ∀ e ∈ h.typeMetas, (Value.table e.2).Clean V
  vault : ∀ w ∈ V, w.Holds h

theorem mem_of_lookup {α β : Type} [BEq α] [LawfulBEq α] {l : List (α × β)} {a : α} {b : β}
    (h : l.lookup a = some b) : (a, b) ∈ l := by
  obtain ⟨l₁, l₂, rfl, _⟩ := List.lookup_eq_some_iff.mp h
  exact List.mem_append_right l₁ List.mem_cons_self

variable {h h' : Heap} {id : Nat}

namespace Heap

@[simp] theorem table_modifyTable (h : Heap) (id : Nat) (f : Table → Table) (n : Nat) :
    (h.modifyTable id f).table n =
      if n = id ∧ id < h.tables.size then f (h.table n) else h.table n := by
  show (h.tables.modify id f).getD n {} = _
  rw [Array.getD_eq_getD_getElem?, Array.getElem?_modify, table, Array.getD_eq_getD_getElem?]
  rcases Nat.lt_or_ge n h.tables.size with hn | hn
  · by_cases he : id = n
    · simp [he, hn]
    · simp [he, hn, Ne.symm he]
  · have hno : ¬ (n = id ∧ id < h.tables.size) := by omega
    simp [hn, hno]

theorem table_newTable (h : Heap) (t : Table) (n : Nat) :
    (h.newTable t).2.table n = if n = h.tables.size then t else h.table n := by
  show (h.tables.push t).getD n {} = _
  rw [Array.getD_eq_getD_getElem?, Array.getElem?_push]
  split
  · rfl
  · rw [table, Array.getD_eq_getD_getElem?]

end Heap

/-! ## Steps -/

theorem Vault.Holds.congr {w : Vault} (hw : w.Holds h) (hsize : h.tables.size ≤ h'.tables.size)
    (hroots : h'.roots = h.roots) (htable : ∀ id, w.Owns id → h'.table id = h.table id) :
    w.Holds h' := by
  have hl := htable w.loaded (.inl rfl)
  exact ⟨fun id ho => Nat.lt_of_lt_of_le (hw.inside id ho) hsize, hroots ▸ hw.loadedRoot,
    hroots ▸ hw.packageRoot, hroots ▸ hw.preloadRoot,
    (htable _ (.inr (.inl rfl))).trans hw.package,
    (htable _ (.inr (.inr (.inl rfl)))).trans hw.preload,
    (htable _ (.inr (.inr (.inr rfl)))).trans hw.searchers, hl ▸ hw.listed, hl ▸ hw.plainLoaded,
    hl ▸ hw.modules, hl ▸ hw.kept⟩

theorem Vault.Holds.of_tables {w : Vault} (hw : w.Holds h) (ht : h'.tables = h.tables)
    (hr : h'.roots = h.roots) : w.Holds h' :=
  hw.congr (Nat.le_of_eq (congrArg Array.size ht).symm) hr fun id _ => congrArg (·.getD id {}) ht

theorem Vault.Holds.withFiles {w : Vault} (hw : w.Holds h) (input output : Value) :
    w.Holds { h with roots := { h.roots with input, output } } :=
  ⟨hw.inside, hw.loadedRoot, hw.packageRoot, hw.preloadRoot, hw.package, hw.preload, hw.searchers,
    hw.listed, hw.plainLoaded, hw.modules, hw.kept⟩

namespace Heap

/-- What a step on good heaps comes to: the heap is good again, and the table of loaded modules is
    the same. -/
structure Follows (V : Ward) (h h' : Heap) : Prop where
  good : h'.Good V
  same : ∀ w ∈ V, h'.table w.loaded = h.table w.loaded

theorem Good.follows (hg : h.Good V) : h.Follows V h := ⟨hg, fun _ _ => rfl⟩

theorem Follows.trans {h'' : Heap} (h₁ : h.Follows V h') (h₂ : h'.Follows V h'') :
    h.Follows V h'' :=
  ⟨h₂.good, fun w hw => (h₂.same w hw).trans (h₁.same w hw)⟩

/-- Where scripts are trusted, any step will do. -/
theorem follows_trusted (h h' : Heap) : h.Follows .trusted h' := by
  have hclean (v : Value) : v.Clean .trusted := v.clean_trusted
  refine ⟨⟨fun id => ⟨?_, ?_, ?_⟩, fun _ _ _ => hclean _, fun v _ => hclean v,
    fun n _ => n.clean_trusted, ⟨hclean _, hclean _, hclean _, hclean _, hclean _, hclean _⟩,
    fun _ _ => hclean _, fun _ _ => hclean _, fun _ hw => absurd hw Ward.not_mem_trusted⟩,
    fun _ hw => absurd hw Ward.not_mem_trusted⟩
  · exact fun v _ => (hclean v).fits id
  · exact fun e _ => hclean e.1.toValue
  · exact fun e _ => (hclean e.2).fits id

namespace Good

variable (hg : h.Good V)
include hg

/-! ### Reading -/

theorem get (hid : (Value.table id).Clean V) (k : Key) : ((h.table id).get k).Clean V :=
  ((hg.tables id).get (Value.fits_nil id) k).clean hid

theorem getInt (hid : (Value.table id).Clean V) (n : Int64) : ((h.table id).getInt n).Clean V :=
  ((hg.tables id).getInt (Value.fits_nil id) n).clean hid

theorem metatable {v : Value} (hv : h.metatable v = some id) :
    (Value.table id).Clean V := by
  unfold Heap.metatable at hv
  split at hv
  · exact hg.metatables _ _ hv
  · cases hv
    exact hg.roots.stringMeta
  · split at hv
    · cases hv
      exact hg.roots.fileMeta
    · cases hv
      exact hg.roots.failureMeta
    · cases hv
  · exact hg.typeMetas _ (mem_of_lookup hv)

theorem metamethod (v : Value) (event : String) : (h.metamethod v event).Clean V := by
  unfold Heap.metamethod
  split
  · trivial
  · rename_i id hid
    exact hg.get (hg.metatable hid) _

theorem cell (n : Nat) : (h.cell n).Clean V :=
  Table.getD_of_mem hg.cells Value.clean_nil n

theorem view {proxy : Nat} (hv : h.views.lookup id = some proxy) : (Value.table proxy).Clean V :=
  hg.views _ (mem_of_lookup hv)

/-! ### Writing -/

theorem modifyTable (hid : (Value.table id).Clean V) {f : Table → Table}
    (hf : (f (h.table id)).Each (Value.Clean V) (Value.Fits V id))
    (hm : ∀ m, (f (h.table id)).metatable = some m → (Value.table m).Clean V) :
    h.Follows V (h.modifyTable id f) := by
  have hown : ∀ w ∈ V, ∀ n, w.Owns n → (h.modifyTable id f).table n = h.table n := by
    intro w hw n ho
    rw [table_modifyTable, if_neg]
    rintro ⟨rfl, _⟩
    exact hid w hw ho
  refine ⟨⟨fun n => ?_, fun n m hn => ?_, hg.cells, hg.natives, hg.roots, hg.views,
    hg.typeMetas, fun w hw => ?_⟩, fun w hw => hown w hw _ (.inl rfl)⟩
  · rw [table_modifyTable]
    split
    · rename_i he
      rw [he.1]
      exact hf
    · exact hg.tables n
  · rw [table_modifyTable] at hn
    split at hn
    · rename_i he
      rw [he.1] at hn
      exact hm m hn
    · exact hg.metatables n m hn
  · exact (hg.vault w hw).congr (by simp [Heap.modifyTable]) rfl fun n ho => hown w hw n ho

theorem set (hid : (Value.table id).Clean V) {k : Key} {v : Value} (hk : k.toValue.Clean V)
    (hv : v.Clean V) : h.Follows V (h.set id k v) :=
  hg.modifyTable hid ((hg.tables id).set (Value.fits_nil id) (fun _ => trivial) hk (hv.fits id))
    fun m hm => hg.metatables id m (by rwa [Table.metatable_set] at hm)

theorem newTable_clean (t : Table) : (Value.table (h.newTable t).1).Clean V := by
  intro w hw ho
  exact absurd ((hg.vault w hw).inside _ ho) (Nat.lt_irrefl _)

theorem newTable {t : Table} (ht : t.Each (Value.Clean V) (Value.Clean V))
    (hm : ∀ m, t.metatable = some m → (Value.table m).Clean V) :
    h.Follows V (h.newTable t).2 := by
  have hown : ∀ w ∈ V, ∀ n, w.Owns n → (h.newTable t).2.table n = h.table n := by
    intro w hw n ho
    rw [table_newTable, if_neg]
    rintro rfl
    exact hg.newTable_clean t w hw ho
  refine ⟨⟨fun n => ?_, fun n m hn => ?_, hg.cells, hg.natives, hg.roots, hg.views,
    hg.typeMetas, fun w hw => ?_⟩, fun w hw => hown w hw _ (.inl rfl)⟩
  · rw [table_newTable]
    split
    · exact ht.mono fun v hv => hv.fits n
    · exact hg.tables n
  · rw [table_newTable] at hn
    split at hn
    · exact hm m hn
    · exact hg.metatables n m hn
  · refine (hg.vault w hw).congr ?_ rfl fun n ho => hown w hw n ho
    show h.tables.size ≤ (h.tables.push t).size
    simp

theorem newCell {v : Value} (hv : v.Clean V) : h.Follows V (h.newCell v).2 := by
  refine ⟨⟨hg.tables, hg.metatables, fun u hu => ?_, hg.natives, hg.roots, hg.views,
    hg.typeMetas, fun w hw => (hg.vault w hw).of_tables rfl rfl⟩, fun _ _ => rfl⟩
  rcases Array.mem_push.mp hu with hu | rfl
  · exact hg.cells u hu
  · exact hv

theorem setCell (n : Nat) {v : Value} (hv : v.Clean V) : h.Follows V (h.setCell n v) := by
  refine ⟨⟨hg.tables, hg.metatables, fun u hu => ?_, hg.natives, hg.roots, hg.views,
    hg.typeMetas, fun w hw => (hg.vault w hw).of_tables rfl rfl⟩, fun _ _ => rfl⟩
  rcases Table.mem_of_mem_setIfInBounds hu with hu | rfl
  · exact hg.cells u hu
  · exact hv

theorem newClosure (c : Closure) : h.Follows V (h.newClosure c).2 :=
  ⟨⟨hg.tables, hg.metatables, hg.cells, hg.natives, hg.roots, hg.views,
    hg.typeMetas, fun w hw => (hg.vault w hw).of_tables rfl rfl⟩, fun _ _ => rfl⟩

theorem newNative {n : Native} (hn : n.Clean V) : h.Follows V (h.newNative n).2 := by
  refine ⟨⟨hg.tables, hg.metatables, hg.cells, fun m hm => ?_, hg.roots, hg.views,
    hg.typeMetas, fun w hw => (hg.vault w hw).of_tables rfl rfl⟩, fun _ _ => rfl⟩
  rcases Array.mem_push.mp hm with hm | rfl
  · exact hg.natives m hm
  · exact hn

theorem setNative (id : Nat) {n : Native} (hn : n.Clean V) : h.Follows V (h.setNative id n) := by
  refine ⟨⟨hg.tables, hg.metatables, hg.cells, fun m hm => ?_, hg.roots, hg.views,
    hg.typeMetas, fun w hw => (hg.vault w hw).of_tables rfl rfl⟩, fun _ _ => rfl⟩
  rcases Table.mem_of_mem_setIfInBounds hm with hm | rfl
  · exact hg.natives m hm
  · exact hn

theorem newObject (o : Object) : h.Follows V (h.newObject o).2 :=
  ⟨⟨hg.tables, hg.metatables, hg.cells, hg.natives, hg.roots, hg.views,
    hg.typeMetas, fun w hw => (hg.vault w hw).of_tables rfl rfl⟩, fun _ _ => rfl⟩

theorem newChunk (p : Proto) {environment : Value} (he : environment.Clean V) :
    h.Follows V (h.newChunk p environment).2 :=
  (hg.newCell he).trans ((hg.newCell he).good.newClosure _)

theorem withFiles {input output : Value} (hi : input.Clean V) (ho : output.Clean V) :
    h.Follows V { h with roots := { h.roots with input, output } } :=
  ⟨⟨hg.tables, hg.metatables, hg.cells, hg.natives,
    ⟨hg.roots.globals, hg.roots.stringMeta, hg.roots.fileMeta, hg.roots.failureMeta, hi, ho⟩,
    hg.views, hg.typeMetas, fun w hw => (hg.vault w hw).withFiles input output⟩, fun _ _ => rfl⟩

theorem withView {e : Nat × Nat} (he : (Value.table e.2).Clean V) :
    h.Follows V { h with views := e :: h.views } := by
  refine ⟨⟨hg.tables, hg.metatables, hg.cells, hg.natives, hg.roots, fun d hd => ?_,
    hg.typeMetas, fun w hw => (hg.vault w hw).of_tables rfl rfl⟩, fun _ _ => rfl⟩
  rcases List.mem_cons.mp hd with rfl | hd
  · exact he
  · exact hg.views d hd

end Good

end Heap

/-! ## Registering modules -/

section

variable {w : Vault}

/-- All entries of the table of loaded modules are clean, but for the one of the vault itself. -/
theorem Vault.Holds.get_clean (hw : w.Holds h) {s : Bytes} (hs : s ≠ "package") :
    ((h.table w.loaded).get (.string s)).Clean (.vault w) := by
  rw [Table.get_of_not_int (by simp)]
  split
  · rename_i i hi
    obtain ⟨hlt, hk⟩ := hw.listed.sound _ _ hi
    rw [Array.getD_eq_getD_getElem?, Array.getElem?_eq_getElem hlt]
    obtain hp | hc := hw.modules _ (Array.getElem_mem hlt)
    · rw [hk] at hp
      exact absurd (Key.string.inj hp) hs
    · exact hc
  · trivial

/-- The table of loaded modules after one of them is registered. -/
theorem Vault.Holds.table_register (hw : w.Holds h) (s : Bytes) (v : Value) :
    (h.set w.loaded (.string s) v).table w.loaded
      = (h.table w.loaded).setSlot (.string s) v := by
  rw [Heap.set, Heap.table_modifyTable, if_pos ⟨rfl, hw.inside _ (.inl rfl)⟩]
  rfl

/-- Registering a module that was not there at first, or did not count as true. -/
theorem Heap.Good.register (hg : h.Good (.vault w)) {s : Bytes} {v : Value}
    (hv : v.Clean (.vault w)) (hn : v.isNil = false)
    (hs : (w.loadedTable.get (.string s)).isTrue = false) :
    (h.set w.loaded (.string s) v).Good (.vault w) := by
  have hw := hg.vault w rfl
  have htable : ∀ n, n ≠ w.loaded → (h.set w.loaded (.string s) v).table n = h.table n := by
    intro n hn
    rw [Heap.set, Heap.table_modifyTable, if_neg fun h => hn h.1]
  have hloaded := hw.table_register s v
  refine ⟨fun n => ?_, fun n m hm => ?_, hg.cells, hg.natives, hg.roots, hg.views,
    hg.typeMetas, fun w' hw' => ?_⟩
  · by_cases he : n = w.loaded
    · subst he
      rw [hloaded]
      exact (hg.tables w.loaded).setSlot trivial (hv.fits _)
    · rw [htable n he]
      exact hg.tables n
  · by_cases he : n = w.loaded
    · subst he
      rw [hloaded, Table.metatable_setSlot, hw.plainLoaded] at hm
      cases hm
    · rw [htable n he] at hm
      exact hg.metatables n m hm
  · cases hw'
    obtain ⟨hp, hr, hc⟩ := w.apart
    refine ⟨fun id ho => ?_, hw.loadedRoot, hw.packageRoot, hw.preloadRoot,
      (htable _ hp.symm).trans hw.package, (htable _ hr.symm).trans hw.preload,
      (htable _ hc.symm).trans hw.searchers, ?_, ?_, fun e he => ?_, fun k hk => ?_⟩
    · exact Nat.lt_of_lt_of_eq (hw.inside id ho) (by simp [Heap.set, Heap.modifyTable])
    · rw [hloaded]
      exact hw.listed.setSlot hn _
    · rw [hloaded, Table.metatable_setSlot]
      exact hw.plainLoaded
    · rw [hloaded] at he
      obtain rfl | ⟨he, _⟩ := hw.listed.mem_setSlot hn he
      · exact .inr hv
      · exact hw.modules e he
    · rw [hloaded, hw.listed.get_setSlot_of_ne hn]
      · exact hw.kept k hk
      · rintro rfl
        rw [hs] at hk
        cases hk

end

end OscHost.Script
