import OscHost.Proofs.Script.Library.Modules
import OscHost.Sandbox
/-!
  Scripts start in a good heap.

  With all flags of the policy off the heap that scripts start in names no withheld function, and
  none of its tables but those by which modules are found names one of these.  So it is good, with
  those four tables in the vault and without a vault.  Where the mark of `sleep` alone is kept back,
  the flags for processes and for files may be on as well.
-/

namespace OscHost.Sandbox

open Script

variable {V : Ward} {root : String} {asked : Bytes → Prop} {reserved : ¬ asked "package"}

/-! ## Filling tables -/

/-- Whether no value of some entries is nil, so that each has a place in their table. -/
abbrev AllThere (fields : List (String × Value)) : Prop := ∀ f ∈ fields, f.2.isNil = false

theorem listed_setTexts {fields : List (String × Value)} (hf : AllThere fields) {t : Table}
    (ht : t.Listed) : (fields.foldl (fun t f => t.setText f.1 f.2) t).Listed :=
  List.foldlRecOn (motive := Table.Listed) _ _ ht fun _ ht f hm => ht.setSlot (hf f hm) _

theorem mem_setTexts {fields : List (String × Value)} (hf : AllThere fields) {t : Table}
    (ht : t.Listed) {e : Key × Value}
    (he : e ∈ (fields.foldl (fun t f => t.setText f.1 f.2) t).slots) :
    e ∈ t.slots ∨ ∃ f ∈ fields, e = (.string f.1, f.2) := by
  induction fields generalizing t with
  | nil => exact .inl he
  | cons f fields ih =>
    obtain ⟨hv, hf⟩ := List.forall_mem_cons.mp hf
    obtain hm | ⟨g, hg, rfl⟩ := ih hf (ht.setSlot hv _) he
    · obtain rfl | ⟨hm, _⟩ := ht.mem_setSlot hv hm
      · exact .inr ⟨f, List.mem_cons_self, rfl⟩
      · exact .inl hm
    · exact .inr ⟨g, List.mem_cons_of_mem f hg, rfl⟩

/-- Entries under other names do not change what a name stands for. -/
theorem getText_setTexts {fields : List (String × Value)} (hf : AllThere fields) {t : Table}
    (ht : t.Listed) {name : String} (hn : ∀ f ∈ fields, f.1 ≠ name) :
    (fields.foldl (fun t f => t.setText f.1 f.2) t).getText name = t.getText name := by
  induction fields generalizing t with
  | nil => rfl
  | cons f fields ih =>
    obtain ⟨hv, hf⟩ := List.forall_mem_cons.mp hf
    obtain ⟨hname, hn⟩ := List.forall_mem_cons.mp hn
    refine (ih hf (ht.setSlot hv _) hn).trans (ht.get_setSlot_of_ne hv fun he => hname ?_)
    exact (String.toByteArray_inj.mp (Key.string.inj he)).symm

theorem listed_tableOf {fields : List (String × Value)} (hf : AllThere fields) :
    (tableOf fields).Listed :=
  listed_setTexts hf Table.listed_empty

/-- A name stands for the last of its values. -/
theorem getText_tableOf (before after : List (String × Value)) {name : String} {v : Value}
    (hf : AllThere (before ++ (name, v) :: after)) (hn : ∀ f ∈ after, f.1 ≠ name) :
    (tableOf (before ++ (name, v) :: after)).getText name = v := by
  obtain ⟨hb, hf⟩ := List.forall_mem_append.mp hf
  obtain ⟨hv, ha⟩ := List.forall_mem_cons.mp hf
  have ht := listed_tableOf hb
  have hlast := getText_setTexts ha (ht.setSlot hv (.string name)) hn
  rw [tableOf, List.foldl_append, List.foldl_cons]
  exact hlast.trans (ht.getText_setText hv name)

/-- Where no name stands for two values, each stands for its own. -/
theorem getText_tableOf_of_mem {fields : List (String × Value)} {name : String} {v : Value}
    (hf : AllThere fields) (hn : (fields.map (·.1)).Nodup) (h : (name, v) ∈ fields) :
    (tableOf fields).getText name = v := by
  obtain ⟨before, after, rfl⟩ := List.append_of_mem h
  refine getText_tableOf before after hf fun f hm he => ?_
  rw [List.map_append, List.map_cons, List.nodup_append, List.nodup_cons] at hn
  exact hn.2.1.1 (List.mem_map.mpr ⟨f, hm, he⟩)

/-! ## The vault -/

theorem searchers_own (n : Int64) : ((Table.ofList (searchers {})).getInt n = .nil) ∨
    ∃ b : Builtin, b.isWithheld = false ∧ (Table.ofList (searchers {})).getInt n = .builtin b := by
  have he : (Table.ofList (searchers {})).Each (fun _ => True)
      fun v => v = .nil ∨ ∃ b : Builtin, b.isWithheld = false ∧ v = .builtin b := by
    refine Table.each_ofList (fun _ => trivial) ?_
    simp [searchers, Builtin.isWithheld]
  exact he.getInt (.inl rfl) n

theorem packageEntries_there : AllThere (packageEntries {} root) := by
  simp only [AllThere, packageEntries, List.forall_mem_cons]
  exact ⟨rfl, rfl, rfl, rfl, rfl, rfl, rfl, rfl, List.forall_mem_nil _⟩

/-- The tables by which modules are found, as scripts start. -/
def vault (root : String) (asked : Bytes → Prop) (reserved : ¬ asked "package") : Vault where
  asked
  reserved
  loaded := Place.loaded.id
  package := Place.package.id
  preload := Place.preload.id
  searchers := Place.searchers.id
  loadedTable := contents {} root .loaded
  packageTable := contents {} root .package
  preloadTable := contents {} root .preload
  searchersTable := contents {} root .searchers
  apart := by decide
  plain := ⟨Table.metatable_setTexts .., rfl, Table.metatable_ofList _⟩
  registered := getText_tableOf [] (libraries {}) (by decide) (by decide)
  named := getText_tableOf ((packageEntries {} root).take 6) [("searchpath", .builtin .searchpath)]
    packageEntries_there (by decide)
  vacant := fun k => (Table.each_empty (K := fun _ => True)).get (P := (· = .nil)) rfl k
  own := searchers_own

/-! ## Policies -/

/-- Whether a policy gives scripts nothing that is kept back. -/
def Suits (V : Ward) (p : Policy) : Prop :=
  p = {} ∨ V = .mark ∧ p.debug = false ∧ p.nativeLibraries = false ∧ p.foreignModules = false

namespace Suits

variable {p : Policy} (hp : Suits V p)
include hp

/-- Where there is a vault, all flags are off. -/
theorem eq_of_mem {w : Vault} (hw : w ∈ V) : p = {} := by
  obtain rfl | ⟨rfl, -⟩ := hp
  · rfl
  · exact absurd hw Ward.not_mem_mark

theorem off : p.debug = false ∧ p.nativeLibraries = false ∧ p.foreignModules = false := by
  obtain rfl | ⟨-, h⟩ := hp
  · exact ⟨rfl, rfl, rfl⟩
  · exact h

/-- Such a policy makes a difference for files and the system only. -/
theorem contents_eq {t : Place} (hio : t ≠ .io) (hos : t ≠ .os) :
    contents p root t = contents {} root t := by
  obtain ⟨hdebug, hlibraries, hforeign⟩ := hp.off
  have hl : libraries p = libraries {} := by
    unfold libraries
    rw [hdebug]
  cases t with
  | io => exact absurd rfl hio
  | os => exact absurd rfl hos
  | globals | loaded => rw [contents, contents, hl]
  | searchers => rw [contents, contents, searchers, searchers, hforeign]
  | package => rw [contents, contents, packageEntries, packageEntries, hlibraries, hforeign]
  | debug => rw [contents, contents, hdebug]
  | _ => rfl

/-- A function that a policy allows is kept back from nobody whom the policy suits. -/
theorem gated_clean (allowed : Policy → Bool) (hoff : allowed {} = false) (r : Refusal) {b : Builtin}
    (hb : Ward.mark.withholds b = false) : (gated (allowed p) r b).Clean V := by
  obtain rfl | ⟨rfl, -⟩ := hp
  · rw [hoff]
    trivial
  · unfold gated
    split
    · exact hb
    · trivial

end Suits

/-! ## Tables -/

/-- The tables that are not in the vault. -/
def Place.isOpen : Place → Bool
  | .loaded | .package | .preload | .searchers => false
  | _ => true

theorem id_injective {s t : Place} (h : s.id = t.id) : s = t := by
  cases s <;> cases t <;> first | rfl | cases h

theorem vault_owns {t : Place} (ht : t.isOpen = false) : (vault root asked reserved).Owns t.id := by
  cases t with
  | loaded => exact .inl rfl
  | package => exact .inr (.inl rfl)
  | preload => exact .inr (.inr (.inl rfl))
  | searchers => exact .inr (.inr (.inr rfl))
  | _ => cases ht

theorem lt_of_owns {n : Nat} (h : (vault root asked reserved).Owns n) : n < Place.all.length := by
  obtain rfl | rfl | rfl | rfl := h <;> exact of_decide_eq_true rfl

section

variable (hV : ∀ w ∈ V, w = vault root asked reserved)
include hV

/-- A table with another number than those in the vault is clean. -/
theorem clean_of_not_owns {n : Nat} (hn : ¬ (vault root asked reserved).Owns n) : (Value.table n).Clean V := by
  intro w hw
  rw [hV w hw]
  exact hn

theorem clean_place {t : Place} (ht : t.isOpen) : (Value.table t.id).Clean V := by
  refine clean_of_not_owns hV fun ho => ?_
  obtain he | he | he | he := ho
  · cases id_injective (t := .loaded) he
    cases ht
  · cases id_injective (t := .package) he
    cases ht
  · cases id_injective (t := .preload) he
    cases ht
  · cases id_injective (t := .searchers) he
    cases ht

end

theorem entries_clean {fs : Functions} (h : ∀ f ∈ fs, f.2.isWithheld = false) :
    ∀ f ∈ entries fs, f.2.Clean V :=
  List.forall_mem_map.mpr fun f hf => Ward.withholds_of_isWithheld (h f hf)

theorem tableOf_fits {fields : List (String × Value)} {n : Nat} (h : ∀ f ∈ fields, f.2.Fits V n) :
    (tableOf fields).Each (Value.Clean V) (Value.Fits V n) :=
  Table.Each.setTexts Table.each_empty (Value.fits_nil n) (fun _ => trivial) (fun _ => trivial) h

theorem tableOf_each {fields : List (String × Value)} (h : ∀ f ∈ fields, f.2.Clean V) (n : Nat) :
    (tableOf fields).Each (Value.Clean V) (Value.Fits V n) :=
  tableOf_fits fun f hf => (h f hf).fits n

section

variable (hV : ∀ w ∈ V, w = vault root asked reserved)
include hV

theorem libraries_clean : ∀ f ∈ libraries {}, f.2.Clean V := by
  refine List.forall_mem_map.mpr fun f hf => clean_place hV ?_
  revert f
  decide

/-- Any table may be in the vault. -/
theorem fits_vault {t : Place} (ht : t.isOpen = false) (n : Nat) : (Value.table n).Fits V t.id := by
  cases V with
  | vault w => exact .inr ⟨⟨w, rfl, hV w rfl ▸ vault_owns ht⟩, n, rfl⟩
  | free => exact .inl fun w hw => absurd hw Ward.not_mem_free
  | mark => exact .inl fun w hw => absurd hw Ward.not_mem_mark
  | trusted => exact .inl fun w hw => absurd hw Ward.not_mem_trusted

/-- What is in the vault is clean but for tables. -/
theorem contents_fits {p : Policy} (hp : Suits V p) (t : Place) (ht : t.isOpen = false) :
    (contents p root t).Each (Value.Clean V) (Value.Fits V t.id) := by
  have hio : t ≠ .io := by
    rintro rfl
    cases ht
  have hos : t ≠ .os := by
    rintro rfl
    cases ht
  rw [hp.contents_eq hio hos]
  cases t with
  | loaded =>
    refine tableOf_fits (List.forall_mem_cons.mpr ⟨fits_vault hV rfl _, ?_⟩)
    exact List.forall_mem_map.mpr fun f _ => fits_vault hV rfl _
  | package =>
    refine tableOf_fits ?_
    simp only [packageEntries, List.forall_mem_cons]
    exact ⟨.inl trivial, .inl trivial, fits_vault hV rfl _, .inl trivial, .inl trivial,
      fits_vault hV rfl _, fits_vault hV rfl _, .inl rfl, List.forall_mem_nil _⟩
  | preload => exact Table.each_empty
  | searchers =>
    refine Table.each_ofList (fun _ => trivial) ?_
    simp [searchers, Value.Fits, Ward.withholds, Builtin.isWithheld]
  | _ => cases ht

/-- What is outside the vault is clean. -/
theorem contents_each {p : Policy} (hp : Suits V p) (t : Place) (ht : t.isOpen) :
    (contents p root t).Each (Value.Clean V) (Value.Fits V t.id) := by
  have hnil : ∀ f ∈ ([] : List (String × Value)), f.2.Clean V := List.forall_mem_nil _
  cases t with
  | loaded | package | preload | searchers => cases ht
  | globals =>
    rw [hp.contents_eq (t := .globals) (by decide) (by decide)]
    refine tableOf_each ?_ _
    have hfacade : (Value.table facade).Clean V :=
      clean_of_not_owns hV fun h => absurd (lt_of_owns h) (by decide)
    simp only [List.forall_mem_append, List.forall_mem_cons]
    exact ⟨⟨⟨entries_clean (by decide), hfacade, trivial, hnil⟩, libraries_clean hV⟩,
      clean_place hV rfl, clean_place hV rfl, clean_place hV rfl, hnil⟩
  | string | coroutine | fileMethods | table | json =>
    refine tableOf_each ?_ _
    exact entries_clean (by decide)
  | debug =>
    rw [hp.contents_eq (t := .debug) (by decide) (by decide)]
    exact tableOf_each hnil _
  | stringMeta =>
    refine tableOf_each ?_ _
    rw [List.forall_mem_cons, List.forall_mem_map]
    exact ⟨clean_place hV rfl, fun _ _ => rfl⟩
  | failureMeta =>
    refine tableOf_each ?_ _
    simp only [List.forall_mem_cons]
    exact ⟨rfl, trivial, hnil⟩
  | fileMeta =>
    refine tableOf_each ?_ _
    simp only [List.forall_mem_append, List.forall_mem_cons]
    exact ⟨entries_clean (by decide), clean_place hV rfl, trivial, hnil⟩
  | io =>
    refine tableOf_each ?_ _
    simp only [List.forall_mem_append, List.forall_mem_cons, List.forall_mem_map]
    have hpopen := hp.gated_clean (·.processes) rfl .popen (b := .ioPopen) rfl
    exact ⟨⟨⟨entries_clean (by decide), hpopen, hnil⟩, entries_clean (by decide)⟩,
      fun _ _ => trivial⟩
  | math =>
    refine tableOf_each ?_ _
    simp only [mathConstants, List.forall_mem_append, List.forall_mem_cons]
    exact ⟨entries_clean (by decide), trivial, trivial, trivial, trivial, hnil⟩
  | os =>
    refine tableOf_each ?_ _
    simp only [List.forall_mem_append, List.forall_mem_cons]
    have hexecute := hp.gated_clean (·.processes) rfl .execute (b := .osExecute) rfl
    have htmpname := hp.gated_clean (·.unrestrictedFiles) rfl .tmpname (b := .osTmpname) rfl
    exact ⟨⟨⟨entries_clean (by decide), hexecute, trivial, hnil⟩, entries_clean (by decide)⟩,
      htmpname, hnil⟩
  | utf8 =>
    refine tableOf_each ?_ _
    simp only [List.forall_mem_append, List.forall_mem_cons]
    exact ⟨entries_clean (by decide), trivial, hnil⟩
  | osc =>
    refine tableOf_each ?_ _
    simp only [List.forall_mem_cons]
    exact ⟨rfl, hnil⟩
  | menu =>
    refine tableOf_each ?_ _
    simp only [List.forall_mem_cons]
    exact ⟨rfl, rfl, hnil⟩

end

/-! ## The heap -/

theorem table_base {p : Policy} (root : String) (t : Place) :
    (base p root).table t.id = contents p root t := by
  cases t <;> rfl

theorem table_base_of_ge {p : Policy} {n : Nat} (hn : Place.all.length ≤ n) : (base p root).table n = {} := by
  have hsize : (base p root).tables.size ≤ n := by simpa [base] using hn
  unfold Heap.table
  rw [Array.getD_eq_getD_getElem?, Array.getElem?_eq_none hsize]
  rfl

theorem id_all (n : Fin Place.all.length) : Place.all[n].id = n := by
  revert n
  decide

/-- The view of the table of modules leaves all tables as they are. -/
theorem table_heap {p : Policy} (root : String) (t : Place) :
    (heap p root).table t.id = contents p root t := by
  have hsize : (base p root).tables.size = Place.all.length := by simp [base]
  have hid : t.id < Place.all.length := by cases t <;> decide
  rw [heap, Library.Modules.table_view (Nat.lt_of_lt_of_eq hid hsize.symm)]
  exact table_base root t

/-- Every table is one of those that scripts start with or empty. -/
theorem table_base_cases (p : Policy) (root : String) (n : Nat) : (∃ t : Place, n = t.id ∧
    (base p root).table n = contents p root t) ∨ (base p root).table n = {} := by
  rcases Nat.lt_or_ge n Place.all.length with hn | hn
  · have hid := id_all ⟨n, hn⟩
    refine .inl ⟨_, hid.symm, ?_⟩
    rw [← table_base, hid]
  · exact .inr (table_base_of_ge hn)

theorem metatable_contents {p : Policy} (root : String) (t : Place) :
    (contents p root t).metatable = none := by
  cases t with
  | preload => rfl
  | searchers => exact Table.metatable_ofList _
  | _ => exact Table.metatable_setTexts ..

theorem loaded_there : AllThere (("package", .table Place.package.id) :: libraries {}) := by
  decide

theorem table_loaded :
    (base {} root).table (vault root asked reserved).loaded = (vault root asked reserved).loadedTable := by
  dsimp only [vault]
  exact table_base root .loaded

theorem listed_loaded : (vault root asked reserved).loadedTable.Listed :=
  listed_tableOf loaded_there

/-- The table of loaded modules names no table of the vault but the table of modules. -/
theorem loaded_modules : ∀ e ∈ (vault root asked reserved).loadedTable.slots,
    e.1 = .string "package" ∨ e.2.Clean (.vault (vault root asked reserved)) := by
  intro e he
  obtain he | ⟨f, hf, rfl⟩ := mem_setTexts loaded_there Table.listed_empty he
  · exact absurd he (Array.not_mem_empty e)
  · rcases List.mem_cons.mp hf with rfl | hf
    · exact .inl rfl
    · exact .inr (libraries_clean (fun _ hw => Ward.mem_vault.mp hw) f hf)

/-- The vault holds what it is to hold. -/
theorem vault_holds : (vault root asked reserved).Holds (base {} root) where
  inside id ho := Nat.lt_of_lt_of_eq (lt_of_owns ho) (by simp [base])
  loadedRoot := by
    unfold base vault
    rfl
  packageRoot := by
    unfold base vault
    rfl
  preloadRoot := by
    unfold base vault
    rfl
  package := by
    dsimp only [vault]
    exact table_base root .package
  preload := by
    dsimp only [vault]
    exact table_base root .preload
  searchers := by
    dsimp only [vault]
    exact table_base root .searchers
  listed := by
    rw [table_loaded]
    exact listed_loaded
  plainLoaded := by
    rw [table_loaded]
    exact metatable_contents root .loaded
  modules := by
    rw [table_loaded]
    exact loaded_modules
  kept k _ := by rw [table_loaded]

section

variable (hV : ∀ w ∈ V, w = vault root asked reserved) {p : Policy} (hp : Suits V p)
include hV hp

/-- The keys of every table are clean, and so are the values outside the vault. -/
theorem base_each (n : Nat) :
    ((base p root).table n).Each (Value.Clean V) (Value.Fits V n) := by
  obtain ⟨t, rfl, ht⟩ | ht := table_base_cases p root n
  · rw [ht]
    cases ho : t.isOpen
    · exact contents_fits hV hp t ho
    · exact contents_each hV hp t ho
  · rw [ht]
    exact Table.each_empty

theorem base_good : (base p root).Good V := by
  refine ⟨base_each hV hp, fun n m hm => ?_, ?_, ?_, ?_, ?_, ?_, fun w hw => ?_⟩
  · obtain ⟨t, rfl, ht⟩ | ht := table_base_cases p root n
    · rw [ht, metatable_contents] at hm
      cases hm
    · rw [ht] at hm
      cases hm
  · exact fun v hv => absurd hv (Array.not_mem_empty v)
  · intro n hn
    obtain ⟨r, _, rfl⟩ := List.mem_map.mp (List.mem_toArray.mp hn)
    trivial
  · exact ⟨clean_place hV (t := .globals) rfl, clean_place hV (t := .stringMeta) rfl,
      clean_place hV (t := .fileMeta) rfl, clean_place hV (t := .failureMeta) rfl, trivial, trivial⟩
  · exact fun e he => nomatch he
  · exact fun e he => nomatch he
  · rw [hV w hw, hp.eq_of_mem hw]
    exact vault_holds

/-- Scripts start in a good heap. -/
theorem heap_good : (heap p root).Good V :=
  (Library.Modules.view_clean (base_good hV hp) Place.package.id "package").2.good

end

end OscHost.Sandbox
