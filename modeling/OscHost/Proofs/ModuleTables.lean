import OscHost.Proofs.FirstSteps
/-!
  Who can change how modules are found.

  With all flags off the tables by which modules are found stay as they are, whatever scripts do and
  in whatever order the host runs them: only `require` adds to them, a module under the name that it
  was called for.  All this holds as long as `require` is not called for the module `package`.  Such a
  call hands over the table of modules itself, not its view, and from then on scripts write to it as
  to any other table.
-/

namespace OscHost

open Script Relation

namespace Moment

variable {asked : Bytes → Prop} {s : Host} {t t' : Moment}

/-- Whether modules are found as at first.  More of them may have been loaded. -/
structure Intact (s : Host) (t : Moment) : Prop where
  roots : t.heap.roots.loaded = (new s).heap.roots.loaded ∧
    t.heap.roots.package = (new s).heap.roots.package ∧
    t.heap.roots.preload = (new s).heap.roots.preload
  package : t.heap.table Sandbox.Place.package.id = (new s).heap.table Sandbox.Place.package.id
  preload : t.heap.table Sandbox.Place.preload.id = (new s).heap.table Sandbox.Place.preload.id
  searchers : t.heap.table Sandbox.Place.searchers.id = (new s).heap.table Sandbox.Place.searchers.id
  loaded : ∀ k, (((new s).heap.table Sandbox.Place.loaded.id).get k).isNil = false →
    (t.heap.table Sandbox.Place.loaded.id).get k = ((new s).heap.table Sandbox.Place.loaded.id).get k

/-- Whether a library function is at work. -/
def Serves (f : Value) : Moment → Prop
  | .busy _ (.library _ c) _ _ => c.function = f
  | _ => False

/-- Whether a library function is about to hand over a value. -/
def HandsOver (v : Value) (t : Moment) : Prop :=
  ∃ m vs h c s known, t = .busy m (.library (.done vs h) c) s known ∧ v ∈ vs

/-- Whether `require` has just registered a module. -/
def Registers (asked : Bytes → Prop) (t : Moment) (k : Key) : Prop :=
  t.Serves (.builtin .require) ∧ ∃ name, asked name ∧ k = .string name ∧
    ((t.heap.table Sandbox.Place.loaded.id).get k).isNil = false

/-! ## The tables of a good moment -/

section

variable {reserved : ¬ asked "package"}

theorem new_holds (hs : s.policy = {}) : (vaultOf s asked reserved).Holds (new s).heap :=
  (new_sealed hs asked reserved).heap.vault _ rfl

/-- Every entry of the table of loaded modules counts as true at first. -/
theorem loaded_isTrue {root : String} {k : Key}
    (hk : ((Sandbox.contents {} root .loaded).get k).isNil = false) :
    ((Sandbox.contents {} root .loaded).get k).isTrue := by
  have he : (Sandbox.contents {} root .loaded).Each (fun _ => True)
      fun v => v.isNil = false → v.isTrue := by
    refine Table.Each.setTexts Table.each_empty nofun (fun _ => trivial) (fun _ => trivial) ?_
    decide
  exact he.get (P := fun v => v.isNil = false → v.isTrue) nofun k hk

theorem Good.intact (hs : s.policy = {}) (ht : t.Good (.vault (vaultOf s asked reserved))) :
    t.Intact s := by
  have h₀ : (vaultOf s asked reserved).Holds (new s).heap := new_holds hs
  have h₁ := ht.heap.vault _ rfl
  refine ⟨⟨h₁.loadedRoot.trans h₀.loadedRoot.symm, h₁.packageRoot.trans h₀.packageRoot.symm,
    h₁.preloadRoot.trans h₀.preloadRoot.symm⟩, h₁.package.trans h₀.package.symm,
    h₁.preload.trans h₀.preload.symm, h₁.searchers.trans h₀.searchers.symm, fun k hk => ?_⟩
  rw [table_new hs] at hk ⊢
  exact h₁.kept k (loaded_isTrue hk)

/-- What a good step makes of the table of loaded modules. -/
theorem GoodAfter.registers {h : Heap} (ht : t.GoodAfter (.vault (vaultOf s asked reserved)) h) (k : Key) :
    (t.heap.table Sandbox.Place.loaded.id).get k = (h.table Sandbox.Place.loaded.id).get k ∨
      t.Registers asked k := by
  have hsame : ∀ {h' : Heap}, h.Follows (.vault (vaultOf s asked reserved)) h' →
      (h'.table Sandbox.Place.loaded.id).get k = (h.table Sandbox.Place.loaded.id).get k :=
    fun hf => congrArg (Table.get · k) (hf.same _ rfl)
  cases t with
  | idle vm known => exact .inl (hsame ht.2.1)
  | busy m f s' known =>
    have hf := ht.2.1
    cases f with
    | library x c =>
      obtain ⟨name, hx⟩ := hf
      exact (hx.tidy.kept _ rfl k).imp_right fun ⟨hc, ha, hk, hn⟩ => ⟨hc, name, ha, hk, hn⟩
    | script _ _ | values _ _ | error _ _ | unwind _ _ => exact .inl (hsame hf.1)

/-! ## The table of modules handed over -/

/-- Reading an entry of a table without metatable. -/
theorem index_plain {id : Nat} {k : Value} {h : Heap} (hm : (h.table id).metatable = none)
    (site : Site) (next : Value → Heap → Action) :
    Lib.index (.table id) k none site next h =
      next (Library.Modules.rawEntry (h.table id) k) h := by
  have hl := Library.Modules.lookup_plain hm k
  unfold Lib.index Lib.maxChain Lib.indexFrom
  simp only [bind, Lib.read, hl]
  rfl

/-- Called for the module `package`, `require` hands over the table of modules. -/
theorem require_package {w : Vault} {h : Heap} (hg : h.Good (.vault w)) {args : Args}
    (hn : (args.get 1).asText? = some "package") (site : Site) :
    (Library.invoke (.builtin .require) args).action site h = .done [.table w.package] h := by
  have hw := hg.vault w rfl
  have hentry : Library.Modules.rawEntry (h.table w.loaded) (.string "package") = .table w.package := by
    have htrue : (w.loadedTable.get (.string "package")).isTrue := by
      rw [show w.loadedTable.get (.string "package") = .table w.package from w.registered]
      rfl
    exact (hw.kept _ htrue).trans w.registered
  show Library.Modules.require args site .done h = _
  unfold Library.Modules.require Lib.textArg
  rw [hn]
  show Lib.index (.table h.roots.loaded) (.string "package") none site _ h = _
  rw [hw.loadedRoot, index_plain hw.plainLoaded, hentry]
  rfl

theorem CalmRun.mono {asked' : Bytes → Prop} (hsub : ∀ name, asked name → asked' name)
    (hr : CalmRun asked t t') : CalmRun asked' t t' :=
  ReflTransGen.mono (fun _ _ hs => ⟨hs.1, fun name hn => hsub name (hs.2 name hn)⟩) _ _ hr

theorem CalmRun.run (hr : CalmRun asked t t') : Run t t' :=
  ReflTransGen.mono (fun _ _ hs => hs.1) _ _ hr

/-- Nothing but `require` called for the module `package` hands over a table that modules are found
    by. -/
theorem Step.demands_of_handsOver (hs : Step t t')
    (ht : t.Good (.vault (vaultOf s (· ≠ "package") (absurd rfl)))) {p : Sandbox.Place}
    (hp : p.isOpen = false) (hv : t'.HandsOver (.table p.id)) : t'.Demands "package" := by
  obtain hgood | ⟨w, hw, name, hn, ha⟩ := hs.good ht nofun
  · -- what a good moment hands over is clean, and these tables are not
    obtain ⟨m, vs, h, c, s', known, rfl, hmem⟩ := hv
    obtain ⟨_, ⟨_, hx⟩, _⟩ := hgood
    cases hx with
    | done tidy values => exact absurd (Sandbox.vault_owns hp) (values _ hmem _ rfl)
  · cases hw
    rwa [Classical.not_not.mp ha] at hn

/-- With all flags off scripts do not change how modules are found, and `require` only adds modules
    under the names that it is called for, as long as these names do not include `package`.  Nothing
    else hands over one of the tables, and `require` called for `package` always does; what a script
    assigns to that table goes right into it. -/
theorem module_tables_kept (hs : s.policy = {}) (ha : ¬ asked "package")
    (hr : CalmRun asked (new s) t) :
    t.Intact s ∧
    (∀ t', CalmStep asked t t' → ∀ k, t'.Registers asked k ∨
      (t'.heap.table Sandbox.Place.loaded.id).get k = (t.heap.table Sandbox.Place.loaded.id).get k) ∧
    (∀ t', Step t t' → ∀ p : Sandbox.Place, p.isOpen = false → t'.HandsOver (.table p.id) →
      t'.Demands "package") ∧
    (∀ args site, (Args.get args 1).asText? = some "package" →
      (Library.invoke (.builtin .require) args).action site t.heap =
        .done [.table Sandbox.Place.package.id] t.heap) ∧
    ∀ k, Lib.assignment t.heap (.table Sandbox.Place.package.id) k =
      .raw Sandbox.Place.package.id := by
  have hgood : ∀ {asked' : Bytes → Prop} (reserved : ¬ asked' "package"),
      (∀ name, asked name → asked' name) → t.Good (some (vaultOf s asked' reserved)) :=
    fun reserved hsub => CalmRun.good (w := vaultOf s _ reserved) (hr.mono hsub)
      (new_sealed hs _ reserved)
  have ht := hgood ha fun _ h => h
  refine ⟨ht.intact hs, fun t' hst k => ?_, fun t' hst p hp hv => ?_, fun args site hn => ?_, fun k => ?_⟩
  · exact (CalmStep.good (w := vaultOf s asked ha) hst ht).registers k |>.symm
  · exact hst.demands_of_handsOver (hgood (absurd rfl) fun name hn he => ha (he ▸ hn)) hp hv
  · exact require_package ht.heap hn site
  · unfold Lib.assignment
    dsimp only
    have hplain := Library.Modules.plain_of_owns ht.heap rfl (Sandbox.vault_owns (t := .package) rfl)
    rw [hplain]

end

/-! ## A script that changes the table -/

/-- The code of `require('package').path = true`. -/
def intrusion : Proto := .mk
  #[(.getUpvalue 0, 1), (.pushString "require", 1), (.index (some ⟨"upvalue", "_ENV"⟩), 1),
    (.pushString "package", 1), (.call 1 false (.exact 1) (some ⟨"global", "require"⟩), 1),
    (.pushString "path", 1), (.pushBool true, 1), (.setIndex none, 1), (.ret 0 false, 1)]
  #[] [(.slot 0, "_ENV")] 0 true 0 "=s" "main" 0 1

/-- Calling the script up to its first pause. -/
theorem run_intrusion {h : Heap} {i n : Nat} {v : Value}
    (hv : Lib.lookup h (h.cell n) (.string "require") = .found v) (fuel : Nat) :
    let x := Activation.start i ⟨intrusion, #[n]⟩ [] none
    Activation.run (fuel + 5) h x =
      ⟨h, { x with pc := 5, pausedAt := 4, want := .exact 1 },
        .call v [.string "package"] (some ⟨"global", "require"⟩)⟩ := by
  intro x
  rw [run_global (x := x) rfl rfl rfl hv]
  show Activation.run (fuel + 2) h { x with pc := 3, stack := [v] } = _
  rw [Activation.run_code (i := .pushString "package") rfl]
  show Activation.run (fuel + 1) h { x with pc := 4, stack := [.string "package", v] } = _
  rw [Activation.run_code (i := .call 1 false (.exact 1) (some ⟨"global", "require"⟩)) rfl]
  rfl

/-- The rest of the script, once it has been given a table without metatable. -/
theorem run_intrusion_rest {h : Heap} {i n k : Nat}
    (hm : (h.table k).metatable = none) (fuel : Nat) :
    let x := Activation.start i ⟨intrusion, #[n]⟩ [] none
    Activation.run (fuel + 4) h
        (Activation.deliver { x with pc := 5, pausedAt := 4, want := .exact 1 } [.table k]) =
      ⟨h.set k (.string "path") (.bool true), { x with pc := 8, pausedAt := 8, want := .exact 1 },
        .returned []⟩ := by
  intro x
  have hassign : Lib.assignment h (.table k) (.string "path") = .raw k := by
    unfold Lib.assignment
    dsimp only
    rw [hm]
  rw [Activation.run_code (i := .pushString "path") rfl]
  show Activation.run (fuel + 3) h
    { x with pc := 6, pausedAt := 4, want := .exact 1, stack := [.string "path", .table k] } = _
  rw [Activation.run_code (i := .pushBool true) rfl]
  show Activation.run (fuel + 2) h
    { x with pc := 7, pausedAt := 4, want := .exact 1, stack := [.bool true, .string "path", .table k] } = _
  rw [Activation.run_code (i := .setIndex none) rfl, exec_setIndex_raw rfl hassign rfl]
  show Activation.run (fuel + 1) (h.set k (.string "path") (.bool true))
    { x with pc := 8, pausedAt := 4, want := .exact 1 } = _
  rw [Activation.run_code (i := .ret 0 false) rfl]
  rfl

/-- On every host with all flags off the script is handed the table of modules and writes to it. -/
theorem intrusion_run (hs : s.policy = {}) : ∃ t₁ t₂ t₃, CalmRun (fun _ => False) (new s) t₁ ∧
    Step t₁ t₂ ∧ t₂.HandsOver (.table Sandbox.Place.package.id) ∧ Run t₂ t₃ ∧
    t₃.heap.table Sandbox.Place.package.id =
      ((new s).heap.table Sandbox.Place.package.id).setSlot (.string "path") (.bool true) := by
  obtain ⟨h, id, n, hc⟩ := exists_compiled hs intrusion
  have hgood := hc.good (· ≠ "package") (absurd rfl)
  have hplain := Library.Modules.plain_of_owns hgood rfl (Sandbox.vault_owns (t := .package) rfl)
  have hname : (Sandbox.contents {} s.scriptRoot .globals).getText "require" = .builtin .require :=
    Sandbox.getText_tableOf ((Sandbox.entries Sandbox.baseFunctions).take 16) _ (by decide) (by decide)
  have hcall := step_call (m := {}) (run_intrusion (i := id) (hc.lookup_global hname) 9995)
  have hset := step_returned (m := {}) (run_intrusion_rest (i := id) (n := n) hplain 9996)
  rw [enter_builtin, require_package hgood rfl] at hcall
  refine ⟨_, _, .busy {} (.values [] (h.set Sandbox.Place.package.id (.string "path") (.bool true))) s _,
    hc.calmRun (Nat.zero_le _) _, .next hcall, ⟨_, _, _, _, _, _, rfl, List.mem_cons_self⟩,
    .head (.next rfl) (.head (.next rfl) (.single (.next hset))), ?_⟩
  have hsize := (hgood.vault _ rfl).inside _ (Sandbox.vault_owns (t := .package) rfl)
  show (h.set _ _ _).table _ = _
  rw [table_new hs, Heap.set, Heap.table_modifyTable, if_pos ⟨rfl, hsize⟩, hc.table]
  rfl

/-- So on every host with all flags off some script changes where modules are looked for. -/
theorem exists_run_not_intact (hs : s.policy = {}) : ∃ t, Run (new s) t ∧ ¬ t.Intact s := by
  obtain ⟨t₁, t₂, t₃, hcalm, hstep, -, hr, hset⟩ := intrusion_run hs
  refine ⟨t₃, (hcalm.run.tail hstep).trans hr, fun hi => ?_⟩
  have hpath : (Sandbox.contents {} s.scriptRoot .package).getText "path" =
      .text (Sandbox.modulePath s.scriptRoot) :=
    Sandbox.getText_tableOf ((Sandbox.packageEntries {} s.scriptRoot).take 4) _
      Sandbox.packageEntries_there (by decide)
  have hlisted : (Sandbox.contents {} s.scriptRoot .package).Listed :=
    Sandbox.listed_tableOf Sandbox.packageEntries_there
  have hsame := hset.symm.trans hi.package
  rw [table_new hs] at hsame
  have hget := congrArg (Table.get · (.string "path")) hsame
  rw [show Table.get _ (.string "path") = _ from hlisted.get_setSlot rfl (by simp)] at hget
  cases hget.trans hpath

/-- The script is calm until it calls `require`, and the call hands over the table. -/
theorem plain_module_tables_kept : plainHost.policy = {} ∧ ∃ t t',
    CalmRun (fun _ => False) (new plainHost) t ∧ t.Intact plainHost ∧ Step t t' ∧
    t'.HandsOver (.table Sandbox.Place.package.id) ∧ t'.Demands "package" := by
  obtain ⟨t, t', -, hr, hs, hv, -⟩ := intrusion_run (s := plainHost) rfl
  obtain ⟨hi, -, hd, -⟩ := module_tables_kept rfl id hr
  exact ⟨rfl, t, t', hr, hi, hs, hv, hd t' hs .package rfl hv⟩

/-- So not every run leaves the tables intact. -/
theorem not_forall_intact : ¬ ∀ s t, s.policy = {} → Run (new s) t → t.Intact s := by
  intro h
  obtain ⟨t, hr, ht⟩ := exists_run_not_intact (s := plainHost) rfl
  exact ht (h plainHost t rfl hr)

end Moment

end OscHost
