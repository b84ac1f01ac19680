import OscHost.Proofs.Script.Library.Base
import OscHost.Script.Library.Modules
/-!
  Functions on modules are safe.

  A view hands out what its table holds with views in place of tables, so the tables in the vault
  stay there.  `require` works on those tables themselves: it hands out the entry of a loaded
  module, and it registers what its searchers find.  It is safe for every name but one, `package`,
  whose entry is the table of modules itself.
-/

namespace OscHost.Script.Library.Modules

open Lib

variable {V : Ward} {a : Actor} {args : Args} {P : Value → Prop}

/-! ## Tables without metatable -/

/-- The entry of a table for a value, metamethods aside. -/
def rawEntry (t : Table) (k : Value) : Value :=
  match Key.ofValue k with
  | .ok k => t.get k
  | .error _ => .nil

theorem lookup_plain {h : Heap} {id : Nat} (hm : (h.table id).metatable = none) (k : Value) :
    lookup h (.table id) k = .found (rawEntry (h.table id) k) := by
  unfold lookup
  dsimp only
  rw [hm]
  split
  · rename_i hn
    exact congrArg Lookup.found hn.symm
  · rfl

/-- Reading an entry of a table that has no metatable. -/
theorem safe_indexPlain {id : Nat} {k : Value}
    (hm : ∀ h : Heap, h.Good V → (h.table id).metatable = none)
    (hp : ∀ h : Heap, h.Good V → P (rawEntry (h.table id) k)) :
    (index (.table id) k).Safe V a P := by
  show (indexFrom _ _ _ (1999 + 1)).Safe V a P
  refine .bind (P := fun r => ∃ v, r = .found v ∧ P v)
    (safe_read fun h hg => ⟨_, lookup_plain (hm h hg) k, hp h hg⟩) ?_
  rintro _ ⟨v, rfl, hv⟩
  exact .pure hv

/-- The tables in the vault have no metatable. -/
theorem plain_of_owns {h : Heap} (hg : h.Good V) {w : Vault} (hw : w ∈ V) {id : Nat}
    (ho : w.Owns id) : (h.table id).metatable = none := by
  have hh := hg.vault w hw
  obtain rfl | rfl | rfl | rfl := ho
  · exact hh.plainLoaded
  · rw [hh.package]
    exact w.plain.1
  · rw [hh.preload]
    exact w.plain.2.1
  · rw [hh.searchers]
    exact w.plain.2.2

/-- A table is clean or in the vault. -/
theorem clean_or_owned (V : Ward) (id : Nat) :
    (Value.table id).Clean V ∨ ∃ w ∈ V, w.Owns id := by
  by_cases h : ∃ w ∈ V, w.Owns id
  · exact .inr h
  · exact .inl fun w hw ho => h ⟨w, hw, ho⟩

/-- Reading an entry of any table yields something that may be there. -/
theorem safe_indexTable (id : Nat) {k : Value} (hk : k.Clean V) :
    (index (.table id) k).Safe V a (Value.Fits V id) := by
  obtain hid | ⟨w, hw, ho⟩ := clean_or_owned V id
  · exact (safe_index hid hk).mono fun v hv => hv.fits id
  · refine safe_indexPlain (fun h hg => plain_of_owns hg hw ho) fun h hg => ?_
    unfold rawEntry
    split
    · exact (hg.tables id).get (Value.fits_nil id) _
    · exact Value.fits_nil id

theorem safe_lengthTable (id : Nat) : (length (.table id)).Safe V a (Value.Clean V) := by
  obtain hid | ⟨w, hw, ho⟩ := clean_or_owned V id
  · exact safe_length hid
  · refine .bind (P := (· = .nil)) (safe_read fun h hg => ?_) fun f hf => ?_
    · unfold Heap.metamethod Heap.metatable
      simp only [plain_of_owns hg hw ho]
    · subst hf
      exact .then (safe_read fun _ _ => trivial) fun _ => .pure trivial

/-! ## Views -/

/-- Making an empty table that a metatable turns into the view of a table. -/
theorem newProxy_clean {h : Heap} (hg : h.Good V) {t : Table}
    (ht : t.Each (Value.Clean V) (Value.Clean V)) (hm : t.metatable = none) (id : Nat) :
    let (m, h₁) := h.newTable t
    let (proxy, h₂) := h₁.newTable { metatable := some m }
    (Value.table proxy).Clean V ∧ h.Follows V { h₂ with views := (id, proxy) :: h₂.views } := by
  have h₁ := hg.newTable ht fun m h => by rw [hm] at h; cases h
  have hp : (Value.table (h.newTable t).2.tables.size).Clean V := h₁.good.newTable_clean {}
  have h₂ := h₁.trans (h₁.good.newTable (t := { metatable := some (h.newTable t).1 })
    (Table.each_empty.withMetatable _) fun m h => by cases h; exact hg.newTable_clean t)
  exact ⟨hp, h₂.trans (h₂.good.withView hp)⟩

theorem view_clean {h : Heap} (hg : h.Good V) (id : Nat) (name : Bytes) :
    (view id name h).1.Clean V ∧ h.Follows V (view id name h).2 := by
  unfold view
  split
  · exact ⟨hg.view ‹_›, hg.follows⟩
  · have h₁ := hg.newNative (n := .view .index id name) trivial
    have h₂ := h₁.trans (h₁.good.newNative (n := .view .assign id name) trivial)
    have h₃ := h₂.trans (h₂.good.newNative (n := .view .pairs id name) trivial)
    have h₄ := h₃.trans (h₃.good.newNative (n := .view .length id name) trivial)
    refine (newProxy_clean h₄.good ?_ (by simp) id).imp_right h₄.trans
    exact ((((Table.each_empty.setText (Value.clean_native _)).setText
      (Value.clean_native _)).setText (Value.clean_native _)).setText
      (Value.clean_native _)).setText (Value.clean_bool false)

/-- Making a view leaves the tables that are there as they are. -/
theorem table_view {h : Heap} {n : Nat} (hn : n < h.tables.size) (id : Nat) (name : Bytes) :
    (view id name h).2.table n = h.table n := by
  have hpush : ∀ {h : Heap} (t : Table), n < h.tables.size → (h.newTable t).2.table n = h.table n :=
    fun t hn => by rw [Heap.table_newTable, if_neg (Nat.ne_of_lt hn)]
  unfold view
  split
  · rfl
  · -- the functions of the view are no tables, so only the last two places are new
    refine (hpush (h := (Heap.newTable _ _).2) _ ?_).trans (hpush _ hn)
    exact Nat.lt_of_lt_of_eq (Nat.lt_succ_of_lt hn) (Array.size_push _).symm

theorem safe_shown (name : Bytes) {key v : Value} {id : Nat} (hk : key.Clean V)
    (hv : v.Fits V id) : (shown name key v).Safe V a (Value.Clean V) := by
  unfold shown
  split
  · exact (safe_text hk).then fun key => safe_update fun h hg => view_clean hg _ _
  · exact .pure (hv.clean_of_not_table ‹_›)

theorem safe_callView (role : ViewRole) (id : Nat) (name : Bytes) (ha : CleanAll V args) :
    (callView role id name args).Safe V a (CleanAll V) := by
  have hk := clean_get ha 2
  cases role with
  | index =>
    exact (safe_indexTable id hk).bind fun v hv => (safe_shown name hk hv).bind fun v hv =>
      .pure (by simp [hv])
  | assign => exact (safe_text hk).then fun _ => safe_raise _
  | pairs =>
    refine .bind (P := fun r => r.1.Clean V ∧ r.2.Clean V) (safe_update fun h hg => ?_)
      fun (step, proxy) ⟨hs, hp⟩ => .pure (by simp [hs, hp])
    have hn := hg.newNative (n := .view .step id name) trivial
    obtain ⟨hp, hv⟩ := view_clean hn.good id name
    exact ⟨⟨trivial, hp⟩, hn.trans hv⟩
  | step =>
    refine (Base.safe_nextEntry _).bind fun r hr => ?_
    obtain rfl | ⟨_, k, v, hid, rfl, hk, hv⟩ := hr
    · exact .pure (by simp)
    · cases hid
      exact (safe_shown name hk hv).bind fun v hv => .pure (by simp [hk, hv])
  | length => exact (safe_lengthTable id).bind fun v hv => .pure (by simp [hv])

/-! ## Searchers -/

theorem safe_findLoader {searchers : Nat}
    (hs : ∀ h : Heap, h.Good V → ∀ n, ((h.table searchers).getInt n).Clean V) (name : Bytes)
    (fuel i : Nat) (tried : Bytes) :
    (findLoader searchers name fuel i tried).Safe V a fun r => r.1.Clean V ∧ r.2.Clean V := by
  induction fuel generalizing i tried with
  | zero => exact safe_raise _
  | succ fuel ih =>
    refine (safe_read fun h hg => hs h hg _).bind fun searcher hc => ?_
    split
    · exact safe_raise _
    · refine (safe_call hc (by simp)).bind fun r hr => ?_
      have h₀ := hr.getD 0
      have h₁ := hr.getD 1
      split
      · exact .pure ⟨trivial, h₁⟩
      · rename_i b he
        rw [he] at h₀
        exact .pure ⟨h₀, h₁⟩
      · exact .pure ⟨trivial, h₁⟩
      · split
        · exact ih ..
        · exact ih ..

theorem safe_searchIn (name stem tried : String) (places : List String) :
    (searchIn name stem tried places).Safe V a (CleanAll V) := by
  induction places generalizing tried with
  | nil => exact .pure (by simp)
  | cons template places ih =>
    refine .then (safe_ask trivial) fun isFile => .ite (fun _ => ?_) fun _ => ih _
    refine (Base.safe_loadScript _ (by simp)).bind fun r hr => ?_
    split
    · exact .pure (by simp [hr _ rfl])
    · exact (safe_log _).then fun _ => .pure (by simp)

theorem safe_searchScript (args : Args) : (searchScript args).Safe V a (CleanAll V) :=
  (safe_hostText args 1).then fun _ => safe_searchIn ..

theorem safe_firstReadable (ha : V.reachesOut ∨ a.function = .builtin .searchpath) (paths : List Bytes) :
    (firstReadable paths).Safe V a fun _ => True := by
  induction paths with
  | nil => exact .pure trivial
  | cons path paths ih =>
    exact .then (safe_ask ha) fun found => .ite (fun _ => .pure trivial) fun _ => ih

theorem safe_searchpath (ha : a.function = .builtin .searchpath) (args : Args) :
    (searchpath args).Safe V a (CleanAll V) := by
  refine (safe_textArg args 1).then fun name => (safe_textArg args 2).then fun path => ?_
  refine (safe_textArg? args 3).then fun sep => (safe_textArg? args 4).then fun filler => ?_
  refine (safe_firstReadable (.inr ha) _).then fun r => ?_
  split
  · exact .pure (by simp)
  · exact .pure (by simp)

/-! ## The vault -/

theorem safe_preloadEntry (key : Bytes) :
    (do index (← read fun h => .table h.roots.preload) (.string key) : Lib Value).Safe V a
      (Value.Clean V) := by
  by_cases hV : ∃ w, w ∈ V
  case neg =>
    exact .bind (P := Value.Clean V) (safe_read fun _ _ w hw => absurd ⟨w, hw⟩ hV) fun t ht =>
      safe_index ht (Value.clean_string _)
  case pos =>
    obtain ⟨w, rfl⟩ := hV
    refine .bind (P := (· = .table w.preload))
      (safe_read fun h hg => congrArg _ (hg.vault w rfl).preloadRoot) ?_
    rintro _ rfl
    refine safe_indexPlain (fun h hg => plain_of_owns hg rfl (.inr (.inr (.inl rfl)))) fun h hg => ?_
    show ((h.table w.preload).get (.string key)).Clean (.vault w)
    rw [(hg.vault w rfl).preload, w.vacant]
    trivial

theorem safe_searchPreload (args : Args) : (searchPreload args).Safe V a (CleanAll V) := by
  refine (safe_textArg args 1).then fun name => ?_
  refine (safe_preloadEntry name).bind fun v hv => ?_
  split
  · exact .pure (by simp)
  · exact .pure (by simp [hv])

section

variable {w : Vault}

theorem safe_loadedRoot : (read fun h => Value.table h.roots.loaded).Safe (.vault w) a
    (· = .table w.loaded) :=
  safe_read fun _ hg => congrArg _ (hg.vault w rfl).loadedRoot

theorem safe_packageRoot : (read fun h => Value.table h.roots.package).Safe (.vault w) a
    (· = .table w.package) :=
  safe_read fun _ hg => congrArg _ (hg.vault w rfl).packageRoot

/-- The entry of a loaded module is clean, and one that counted as true at first is still there. -/
theorem safe_loadedEntry {name : Bytes} (hn : name ≠ "package") :
    (index (.table w.loaded) (.string name)).Safe (.vault w) a fun v => v.Clean (.vault w) ∧
      ((w.loadedTable.get (.string name)).isTrue → v.isTrue) := by
  refine safe_indexPlain (fun h hg => plain_of_owns hg rfl (.inl rfl)) fun h hg => ?_
  have hw := hg.vault w rfl
  refine ⟨hw.get_clean hn, fun ht => ?_⟩
  show ((h.table w.loaded).get (.string name)).isTrue
  rw [hw.kept _ ht]
  exact ht

/-- Registering a module under the name that the acting `require` was asked for. -/
theorem safe_register (ha : a.function = .builtin .require) (hasked : w.asked a.name) {v : Value}
    (hv : v.Clean (.vault w)) (hn : v.isNil = false)
    (hs : (w.loadedTable.get (.string a.name)).isTrue = false) :
    (setIndex (.table w.loaded) (.string a.name) v).Safe (.vault w) a fun _ => True := by
  show (setIndexFrom _ _ _ _ (1999 + 1)).Safe (.vault w) a _
  refine .bind (P := (· = .raw w.loaded)) (safe_read fun h hg => ?_) ?_
  · unfold assignment
    dsimp only
    rw [plain_of_owns hg rfl (.inl rfl)]
  · rintro _ rfl
    refine ⟨fun _ k h₀ h ht hk => hk () h₀ _ trivial ⟨ht.good.register hv hn hs, ?_⟩⟩
    intro w' hw' k'
    cases hw'
    have hw := ht.good.vault w rfl
    rw [hw.table_register]
    by_cases he : k' = .string a.name
    · subst he
      refine .inr ⟨ha, hasked, rfl, ?_⟩
      rw [hw.listed.get_setSlot hn (by simp)]
      exact hn
    · rw [hw.listed.get_setSlot_of_ne hn he]
      exact ht.kept w rfl k'

end

/-- Loading a module is safe where its searchers are clean, and registering is safe. -/
theorem safe_loadModule {loaded : Value} {searchers : Nat} {name : Bytes}
    (hs : ∀ h : Heap, h.Good V → ∀ n, ((h.table searchers).getInt n).Clean V)
    (hr : ∀ v : Value, v.Clean V → v.isNil = false →
      (setIndex loaded (.string name) v).Safe V a fun _ => True)
    (hi : (index loaded (.string name)).Safe V a (Value.Clean V)) :
    (loadModule loaded searchers name).Safe V a (CleanAll V) := by
  unfold loadModule
  refine (safe_findLoader hs ..).bind fun (loader, extra) ⟨hl, he⟩ => ?_
  refine (safe_call hl (by simp [he])).bind fun r hres => ?_
  extract_lets next
  have hn : ∀ u, (next u).Safe V a (CleanAll V) := by
    intro u
    refine hi.bind fun v hv => ?_
    split
    · exact (hr _ (Value.clean_bool true) rfl).then fun _ => .pure (by simp [he])
    · exact .pure (by simp [hv, he])
  clear_value next
  split
  · exact hn _
  · rename_i v hv
    refine (hr _ hres.firstOf ?_).then hn
    generalize firstOf r = v at hv
    cases v with
    | nil => exact absurd rfl hv
    | _ => rfl

/-- `require` is safe for every name, in the presence of a vault for those that it may be called for. -/
theorem safe_require (ha : a.function = .builtin .require)
    (hname : ∀ w ∈ V, ∀ s, (args.get 1).asText? = some s → a.name = s ∧ w.asked s) :
    (require args).Safe V a (CleanAll V) := by
  refine (safe_textArg_eq args 1).bind fun name hn => ?_
  by_cases hV : ∃ w, w ∈ V
  case neg =>
    have htable : ∀ id, (Value.table id).Clean V := fun id w hw => absurd ⟨w, hw⟩ hV
    refine .bind (P := Value.Clean V) (safe_read fun h _ => htable _) fun loaded hl => ?_
    refine (safe_index hl (Value.clean_string _)).bind fun present hp => ?_
    refine .ite (fun _ => .pure (by simp [hp])) fun _ => ?_
    refine .bind (P := Value.Clean V) (safe_read fun h _ => htable _) fun package hk => ?_
    refine (safe_index hk (Value.clean_text _)).bind fun searchers _ => ?_
    split
    · exact safe_loadModule (fun h hg n => hg.getInt (htable _) n)
        (fun v hv _ => safe_setIndex hl (Value.clean_string _) hv)
        (safe_index hl (Value.clean_string _))
    · exact safe_raise _
  case pos =>
    obtain ⟨w, rfl⟩ := hV
    obtain ⟨rfl, hasked⟩ := hname w rfl name hn
    have hp : a.name ≠ "package" := fun he => w.reserved (he ▸ hasked)
    refine safe_loadedRoot.bind ?_
    rintro _ rfl
    refine (safe_loadedEntry hp).bind fun present ⟨hc, ht⟩ => ?_
    refine .ite (fun _ => .pure (by simp [hc])) fun hfalse => ?_
    have hs : (w.loadedTable.get (.string a.name)).isTrue = false :=
      Bool.eq_false_iff.mpr fun h => hfalse (ht h)
    refine safe_packageRoot.bind ?_
    rintro _ rfl
    refine .bind (P := (· = .table w.searchers))
      (safe_indexPlain (fun h hg => plain_of_owns hg rfl (.inr (.inl rfl))) fun h hg => ?_) ?_
    · show (h.table w.package).getText "searchers" = _
      rw [(hg.vault w rfl).package]
      exact w.named
    · rintro _ rfl
      refine safe_loadModule (fun h hg n => ?_) (fun v hv hn => safe_register ha hasked hv hn hs)
        ((safe_loadedEntry hp).mono fun _ h => h.1)
      rw [(hg.vault w rfl).searchers]
      obtain hnil | ⟨b, hb, he⟩ := w.own n
      · rw [hnil]
        trivial
      · rw [he]
        exact Ward.withholds_of_isWithheld hb

end OscHost.Script.Library.Modules
