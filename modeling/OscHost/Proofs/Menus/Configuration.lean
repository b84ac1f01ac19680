import Mathlib
import OscHost.Proofs.Files.JailSets
import OscHost.Proofs.Files.Lexical
import OscHost.Proofs.Loading
import OscHost.Proofs.Menus.Directories
import OscHost.Proofs.Menus.Operations
import OscHost.Proofs.Script.Filling
import OscHost.Proofs.Trees.RoundTrip
import OscHost.Proofs.Worker.Inbox
/-!
  What loading the configuration does to the roots for JSON.

  Only the end of it touches them.  A script that runs, the tree that is made of what it returns and
  the records that tell of names without a meaning leave them as they are (`bearings_readConfig`), so
  whatever is refused before the first directory is looked at is refused as a whole.  What is added
  then is a history of insertions (`addRoots_append`), so it comes behind the roots that are there,
  each root once.  A directory without a place ends this history, and does not undo it.
-/

namespace OscHost.Engine

open Files Script

/-! ## What running scripts leaves alone -/

/-- The roots for JSON of an engine, and what new ones are anchored by. -/
def bearings (e : Engine) : JailSet × Surroundings × Config :=
  (e.runner.vm.host.jsonRoots, e.runner.vm.host.around, e.config)

end OscHost.Engine

namespace OscHost.Vm

open Script

/-- The roots for JSON of the host of a machine, and its surroundings. -/
def bearings (vm : Vm) : Files.JailSet × Files.Surroundings :=
  (vm.host.jsonRoots, vm.host.around)

theorem bearings_of_frame {s s' : Host} (h : s'.frame = s.frame) :
    (s'.jsonRoots, s'.around) = (s.jsonRoots, s.around) := by
  show (s'.frame.jsonRoots, s'.frame.around) = (s.frame.jsonRoots, s.frame.around)
  rw [h]

theorem bearings_runFrom (host : Host) (m : Machine) (f : Focus) :
    (runFrom host m f).2.bearings = (host.jsonRoots, host.around) := by
  refine runFrom_part (fun s => (s.jsonRoots, s.around)) (fun e s => ?_) host m f
  show ((s.perform e).2.frame.jsonRoots, (s.perform e).2.frame.around) =
    (s.frame.jsonRoots, s.frame.around)
  rw [Host.perform_frame]

/-- The moves that leave them alone. -/
def Steady (vm : Vm) (_ : Nat) (vm' : Vm) : Prop := vm'.bearings = vm.bearings

instance : Runs Steady where
  record _ _ := rfl
  newThread _ _ := rfl
  readClock _ := rfl
  text vm v := by
    rw [Steady, compute_eq]
    exact bearings_runFrom ..
  thread vm n args _ := bearings_runFrom ..

theorem bearings_of_gets {vm vm' : Vm} (h : Gets Steady vm vm') : vm'.bearings = vm.bearings := by
  obtain ⟨a, h⟩ := h
  induction h with
  | nil => rfl
  | snoc _ last ih => exact Eq.trans last ih

theorem bearings_loadScript (vm : Vm) (path : String) :
    (vm.loadScript path).2.bearings = vm.bearings := by
  unfold loadScript
  split
  · rfl
  · split <;> rfl

theorem bearings_treeOf (vm : Vm) (v : Value) : (vm.treeOf v).2.bearings = vm.bearings :=
  bearings_of_frame (Host.records_frame ..)

end OscHost.Vm

namespace OscHost.Engine

open Files Script

variable {α : Type} {e : Engine}

theorem leaves_onRunner {f : Runner → α × Runner}
    (hf : ∀ r : Runner, (f r).2.vm.bearings = r.vm.bearings) :
    Leaves (Keeping bearings) (onRunner f) := by
  intro e
  have hsame : (onRunner f e).2.bearings = e.bearings :=
    congrArg (fun b : JailSet × Surroundings => (b.1, b.2, e.config)) (hf e.runner)
  exact .of_move (a := 0) hsame

theorem leaves_onVm {f : Vm → α × Vm} (hf : ∀ vm, (f vm).2.bearings = vm.bearings) :
    Leaves (Keeping bearings) (onVm f) :=
  leaves_onRunner fun r => hf r.vm

/-- What comes of the configuration script. -/
inductive Reading
  /-- There is no such file. -/
  | missing
  /-- It was not loaded, or its thread did not end at once with values. -/
  | failed (e : HostError)
  /-- What the first value that it returned is made into. -/
  | returned (tree : Json)

/-- Runs the configuration script and makes a tree of the first value that it returns. -/
def readConfig : EngineM Reading := do
  match ← runConfigScript configScript [] with
  | .error e => return .failed e
  | .ok none => return .missing
  | .ok (some values) => return .returned (← firstTree values)

theorem leaves_runConfigScript (path : String) (args : List Value) :
    Leaves (Keeping bearings) (runConfigScript path args) := by
  refine (Leaves.hasScript path).bind fun found => ?_
  split
  · refine (leaves_onVm fun vm => Vm.bearings_loadScript vm path).bind fun loaded => ?_
    split
    · exact .pure _
    · refine (leaves_onRunner fun r => Vm.bearings_of_gets (Runner.gets_run r path _ args)).bind
        fun result => ?_
      split
      · exact .pure _
      · exact .pure _
  · exact .pure _

theorem leaves_readConfig : Leaves (Keeping bearings) readConfig := by
  refine (leaves_runConfigScript _ _).bind fun result => ?_
  split
  · exact .pure _
  · exact .pure _
  · exact (leaves_onVm fun vm => Vm.bearings_treeOf vm _).bind fun _ => .pure _

/-- Whatever comes of the script, the roots are those that they were. -/
theorem bearings_readConfig (e : Engine) : (readConfig e).2.bearings = e.bearings :=
  leaves_readConfig.keeping e

theorem runConfigScript_apply (path : String) (args : List Value) (e : Engine) :
    runConfigScript path args e =
      if e.runner.vm.host.tree.isFile (e.scriptPath path) then
        match onVm (·.loadScript path) e with
        | (.error error, e) => (.error error, e)
        | (.ok f, e) =>
          match onRunner (·.run (.function path f) args) e with
          | (.ok values, e) => (.ok (some values), e)
          | (.error error, e) => (.error (.configLoad (path ++ ": " ++ error.message)), e)
      else (.ok none, e) := by
  have hscript : hasScript path e =
      (e.runner.vm.host.tree.isFile (e.scriptPath path), e) := rfl
  unfold runConfigScript
  rw [bind_apply, hscript]
  dsimp only
  rw [ite_apply, bind_apply]
  congr 1
  -- what the loader and the run yield is of no matter, so both become variables before they are
  -- split
  generalize onVm (·.loadScript path) e = loaded
  obtain ⟨_ | f, loaded⟩ := loaded
  · rfl
  · dsimp only
    rw [bind_apply]
    generalize onRunner (·.run (.function path f) args) loaded = result
    obtain ⟨_ | values, result⟩ := result <;> rfl

/-- A script for the configuration is missing exactly when there is no file. -/
theorem runConfigScript_eq_none_iff (path : String) (args : List Value) :
    (runConfigScript path args e).1 = .ok none ↔
      e.runner.vm.host.tree.isFile (e.scriptPath path) = false := by
  rw [runConfigScript_apply]
  cases e.runner.vm.host.tree.isFile (e.scriptPath path) with
  | false => exact iff_of_true rfl rfl
  | true =>
    refine iff_of_false ?_ nofun
    rw [if_pos rfl]
    split
    · nofun
    · split <;> nofun

theorem readConfig_apply (e : Engine) :
    readConfig e =
      match runConfigScript configScript [] e with
      | (.error error, e) => (.failed error, e)
      | (.ok none, e) => (.missing, e)
      | (.ok (some values), e) => (.returned (firstTree values e).1, (firstTree values e).2) := by
  unfold readConfig
  rw [bind_apply]
  generalize runConfigScript configScript [] e = result
  obtain ⟨_ | _ | values, result⟩ := result <;> rfl

theorem readConfig_eq_missing_iff :
    (readConfig e).1 = .missing ↔
      e.runner.vm.host.tree.isFile (e.scriptPath configScript) = false := by
  rw [← runConfigScript_eq_none_iff configScript [], readConfig_apply]
  generalize runConfigScript configScript [] e = result
  obtain ⟨_ | _ | values, result⟩ := result
  · exact iff_of_false nofun nofun
  · exact iff_of_true rfl rfl
  · exact iff_of_false nofun nofun

/-- Writes records that tell of names without a meaning. -/
def tellUnknown (keys : List String) : EngineM Unit := do
  for key in keys do
    record (.debug (configScript ++ ": ignoring unknown key '" ++ key ++ "'"))

theorem loadConfig_apply (e : Engine) :
    loadConfig e =
      match readConfig e with
      | (.failed error, e) => (.error error, e)
      | (.missing, e) =>
        (.ok 0, (record (.debug (configScript ++ " not found; using defaults")) e).2)
      | (.returned tree, e) =>
        match Settings.ofJson tree with
        | .error error => (.error error, e)
        | .ok settings => addRoots 0 settings.ioDirs (tellUnknown settings.unknown e).2 := by
  unfold loadConfig
  rw [bind_apply, readConfig_apply]
  generalize runConfigScript configScript [] e = result
  obtain ⟨_ | _ | values, result⟩ := result
  · rfl
  · rfl
  · dsimp only
    rw [bind_apply]
    generalize firstTree values result = read
    obtain ⟨tree, read⟩ := read
    dsimp only
    cases Settings.ofJson tree with
    | error _ => rfl
    | ok settings => rfl

/-! ## Adding roots -/

/-- The roots for JSON. -/
def roots (e : Engine) : JailSet := e.runner.vm.host.jsonRoots

/-- The root that a path names. -/
def rootAt (e : Engine) (path : String) : Jail :=
  Jail.make e.runner.vm.host.tree e.runner.vm.host.around path

/-- All but the roots that decides which root is added for a directory. -/
def grounds (e : Engine) : Tree × Surroundings × Config :=
  (e.runner.vm.host.tree, e.runner.vm.host.around, e.config)

/-- The places of some directories. -/
def Places (e : Engine) : List String → List String → Prop :=
  List.Forall₂ (Stands e.runner.vm.host.around e.config.scriptRoot)

variable {e' : Engine} {dirs before rest paths : List String} {dir path : String} {added : Nat}

theorem rootAt_congr (h : e'.grounds = e.grounds) : e'.rootAt = e.rootAt := by
  obtain ⟨htree, haround, -⟩ : _ = _ ∧ _ = _ ∧ _ = _ := by
    simpa only [grounds, Prod.mk.injEq] using h
  funext path
  rw [rootAt, rootAt, htree, haround]

theorem places_congr (h : e'.grounds = e.grounds) : e'.Places = e.Places := by
  obtain ⟨-, haround, hconfig⟩ : _ = _ ∧ _ = _ ∧ _ = _ := by
    simpa only [grounds, Prod.mk.injEq] using h
  rw [Places, Places, haround, hconfig]

/-- A directory that has a place adds the root there, and counts if that makes them more. -/
theorem addRoots_cons (added : Nat) (rest : List String)
    (h : Stands e.runner.vm.host.around e.config.scriptRoot dir path) :
    ∃ e' n, e'.grounds = e.grounds ∧ e'.roots = e.roots.insert (e.rootAt path) ∧
      e'.roots.jails.length = e.roots.jails.length + n ∧
      addRoots added (dir :: rest) e = addRoots (added + n) rest e' := by
  have hplace : Host.refusal (anchorAt e.runner.vm.host.around e.config.scriptRoot dir) =
      .ok path := by
    rw [anchorAt_eq_ok_iff.mpr h]
    rfl
  -- named, so that no later step looks into the place or into the record
  obtain ⟨root, hroot⟩ : ∃ root, root = e.rootAt path := ⟨_, rfl⟩
  obtain ⟨grown, hgrown⟩ : ∃ grown, grown = (record (.info ("json io root added: " ++ path))
      (onVm (fun vm => ((), vm.onHost fun host =>
        { host with jsonRoots := e.roots.insert root })) e).2).2 := ⟨_, rfl⟩
  have hstep : addRoots added (dir :: rest) e =
      if e.roots.jails.length < (e.roots.insert root).jails.length then
        addRoots (added + 1) rest grown
      else addRoots added rest e := by
    rw [addRoots, bind_apply, get_apply]
    dsimp only
    rw [hplace]
    dsimp only
    rw [ite_apply, hgrown, hroot]
    rfl
  rw [hstep, ← hroot]
  -- the set takes a root in once, so it grows just if the root is new
  by_cases hmem : root ∈ e.roots.jails
  · have hsame : e.roots.insert root = e.roots := by rw [JailSet.insert_eq, if_pos hmem]
    rw [hsame, if_neg (Nat.lt_irrefl _)]
    exact ⟨e, 0, rfl, rfl, rfl, rfl⟩
  · have hmore : (e.roots.insert root).jails.length = e.roots.jails.length + 1 := by
      rw [JailSet.insert_eq, if_neg hmem, List.length_append]
      rfl
    have hroots : grown.roots = e.roots.insert root := hgrown ▸ rfl
    rw [if_pos (by omega)]
    exact ⟨grown, 1, hgrown ▸ rfl, hroots, hroots ▸ hmore, rfl⟩

/-- Directories that have places add the roots there, in order. -/
theorem addRoots_append (added : Nat) (rest : List String) (h : e.Places before paths) :
    ∃ e' n, e'.grounds = e.grounds ∧ e'.roots = e.roots.insertAll (paths.map e.rootAt) ∧
      e'.roots.jails.length = e.roots.jails.length + n ∧
      addRoots added (before ++ rest) e = addRoots (added + n) rest e' := by
  induction before generalizing e paths added with
  | nil =>
    cases h
    exact ⟨e, 0, rfl, rfl, rfl, rfl⟩
  | cons dir before ih =>
    cases h with
    | @cons _ path _ paths hdir hbefore =>
      obtain ⟨e₁, n₁, hgrounds₁, hroots₁, hlength₁, hstep⟩ :=
        addRoots_cons added (before ++ rest) hdir
      have hbefore₁ : e₁.Places before paths := by
        rw [places_congr hgrounds₁]
        exact hbefore
      obtain ⟨e₂, n₂, hgrounds₂, hroots₂, hlength₂, hrun⟩ := ih (added + n₁) hbefore₁
      -- the first step leaves what places are anchored by, so the rest has the places it had
      refine ⟨e₂, n₁ + n₂, hgrounds₂.trans hgrounds₁, ?_, by omega, ?_⟩
      · rw [hroots₂, hroots₁, rootAt_congr hgrounds₁]
        rfl
      · rw [List.cons_append, hstep, hrun, Nat.add_assoc]

/-- The first directory that has no place ends it. -/
theorem addRoots_homeless (hhome : e.runner.vm.host.around.home = none) (hdir : BelowHome dir) :
    addRoots added (dir :: rest) e = (.error (.policyViolation Refusal.noHome.message), e) := by
  rw [addRoots, bind_apply, get_apply]
  dsimp only
  rw [anchorAt_of_homeless hhome hdir]
  rfl

/-! ## Loading -/

theorem tellUnknown_keeps (keys : List String) (e : Engine) :
    (tellUnknown keys e).2.roots = e.roots ∧ (tellUnknown keys e).2.grounds = e.grounds := by
  have hleaves : Leaves (Keeping fun e => (e.roots, e.grounds)) (tellUnknown keys) := by
    refine (Leaves.forIn _ _ fun key _ => ?_).bind fun _ => .pure _
    exact Leaves.bind (fun e => .of_move (a := 0) rfl) fun _ => .pure _
  exact Prod.mk.inj (hleaves.keeping e)

variable {tree : Json}

theorem roots_readConfig (e : Engine) : (readConfig e).2.roots = e.roots :=
  congrArg Prod.fst (bearings_readConfig e)

theorem places_readConfig (e : Engine) : (readConfig e).2.Places = e.Places := by
  obtain ⟨-, haround, hconfig⟩ : _ = _ ∧ _ = _ ∧ _ = _ := by
    simpa only [bearings, Prod.mk.injEq] using bearings_readConfig e
  rw [Places, Places, haround, hconfig]

theorem loadConfig_of_missing (hread : (readConfig e).1 = .missing) :
    (loadConfig e).1 = .ok 0 ∧ (loadConfig e).2.roots = e.roots := by
  have hroots := roots_readConfig e
  rw [loadConfig_apply]
  generalize readConfig e = read at hread hroots ⊢
  obtain ⟨_, _⟩ := read
  subst hread
  exact ⟨rfl, hroots⟩

theorem loadConfig_of_failed {error : HostError} (hread : (readConfig e).1 = .failed error) :
    (loadConfig e).1 = .error error ∧ (loadConfig e).2.roots = e.roots := by
  have hroots := roots_readConfig e
  rw [loadConfig_apply]
  generalize readConfig e = read at hread hroots ⊢
  obtain ⟨_, _⟩ := read
  subst hread
  exact ⟨rfl, hroots⟩

/-- A tree is understood before the first directory is looked at. -/
theorem loadConfig_of_malformed (hread : (readConfig e).1 = .returned tree)
    (htree : Settings.Malformed tree) :
    (∃ text, (loadConfig e).1 = .error (.configLoad text)) ∧
      (loadConfig e).2.roots = e.roots := by
  have hroots := roots_readConfig e
  obtain ⟨text, hsettings⟩ := Settings.ofJson_of_malformed htree
  rw [loadConfig_apply]
  generalize readConfig e = read at hread hroots ⊢
  obtain ⟨_, _⟩ := read
  subst hread
  dsimp only
  rw [hsettings]
  exact ⟨⟨text, rfl⟩, hroots⟩

theorem loadConfig_of_asks (rest : List String) (hread : (readConfig e).1 = .returned tree)
    (hasks : Settings.Asks tree (before ++ rest)) (h : e.Places before paths) :
    ∃ e' n, e'.grounds = (readConfig e).2.grounds ∧
      e'.roots = e.roots.insertAll (paths.map (readConfig e).2.rootAt) ∧
      e'.roots.jails.length = e.roots.jails.length + n ∧
      loadConfig e = addRoots n rest e' := by
  obtain ⟨unknown, hsettings⟩ := Settings.ofJson_eq_ok_iff.mpr hasks
  obtain ⟨hrootsTold, hgroundsTold⟩ := tellUnknown_keeps unknown (readConfig e).2
  -- the records of unknown names stand between the reading and the first directory, and keep both
  have hplaces : (tellUnknown unknown (readConfig e).2).2.Places before paths := by
    rw [places_congr hgroundsTold, places_readConfig]
    exact h
  obtain ⟨e', n, hgrounds, hroots, hlength, hrun⟩ :=
    addRoots_append 0 rest hplaces
  rw [hrootsTold, roots_readConfig, rootAt_congr hgroundsTold] at hroots
  rw [hrootsTold, roots_readConfig] at hlength
  refine ⟨e', n, hgrounds.trans hgroundsTold, hroots, hlength, ?_⟩
  rw [loadConfig_apply]
  obtain ⟨read, he⟩ : ∃ read, readConfig e = (.returned tree, read) := ⟨_, Prod.ext hread rfl⟩
  rw [he] at hrun ⊢
  dsimp only
  rw [hsettings]
  exact hrun.trans (by rw [Nat.zero_add])

theorem loadConfig_of_places (hread : (readConfig e).1 = .returned tree)
    (hasks : Settings.Asks tree dirs) (h : e.Places dirs paths) :
    ∃ new, (loadConfig e).1 = .ok new.length ∧
      (loadConfig e).2.roots.jails = e.roots.jails ++ new ∧
      new = ((paths.map (readConfig e).2.rootAt).filter (· ∉ e.roots.jails)).eraseDups ∧
      new.Nodup ∧ ∀ root ∈ new, root ∉ e.roots.jails := by
  obtain ⟨e', n, -, hroots, hlength, hrun⟩ :=
    loadConfig_of_asks [] hread (by rwa [List.append_nil]) h
  have hdone : loadConfig e = (.ok n, e') := hrun
  -- the count is what the set has grown by, and the history of insertions says what that is
  obtain ⟨new, hnew⟩ : ∃ new, new =
    ((paths.map (readConfig e).2.rootAt).filter (· ∉ e.roots.jails)).eraseDups := ⟨_, rfl⟩
  have hjails : e'.roots.jails = e.roots.jails ++ new := by
    rw [hroots, JailSet.jails_insertAll, hnew]
  have hcount : n = new.length := by
    rw [hjails, List.length_append] at hlength
    omega
  rw [hdone]
  refine ⟨new, congrArg _ hcount, hjails, hnew, hnew ▸ JailSet.nodup_eraseDups _, ?_⟩
  intro root hroot
  rw [hnew, List.mem_eraseDups, List.mem_filter] at hroot
  exact of_decide_eq_true hroot.2

/-- What was added for the directories before the one that has no place stays. -/
theorem loadConfig_of_homeless (hread : (readConfig e).1 = .returned tree)
    (hasks : Settings.Asks tree (before ++ dir :: rest)) (h : e.Places before paths)
    (hhome : e.runner.vm.host.around.home = none) (hdir : BelowHome dir) :
    (loadConfig e).1 = .error (.policyViolation Refusal.noHome.message) ∧
      (loadConfig e).2.roots = e.roots.insertAll (paths.map (readConfig e).2.rootAt) := by
  obtain ⟨e', n, hgrounds, hroots, -, hrun⟩ := loadConfig_of_asks _ hread hasks h
  have haround : e'.runner.vm.host.around = e.runner.vm.host.around :=
    (congrArg (fun g => g.2.1) hgrounds).trans
      (congrArg (fun b => b.2.1) (bearings_readConfig e))
  rw [hrun, addRoots_homeless (haround ▸ hhome) hdir]
  exact ⟨rfl, hroots⟩

/-- What loading the configuration makes of the roots, in whatever state it is done.

    If the script is missing, or the tree that it returns asks for nothing, no root is added.  If
    the script fails, or the tree is not understood, loading fails and the roots are as they were.
    Otherwise every directory has a place, unless it is one below a home that is missing: then the
    roots are those that there were and behind them, in order and each once, the roots of the
    directories that were not there yet, and loading yields how many these are.  A directory that
    has no place makes loading fail, and if those before it are there already, nothing else comes
    of it. -/
theorem loadConfig_all_or_nothing (e : Engine) :
    let old := e.roots.jails
    let home := e.runner.vm.host.around.home
    let read := (readConfig e).1
    let rootAt := (readConfig e).2.rootAt
    let loaded := (loadConfig e).1
    let now := (loadConfig e).2.roots.jails
    (read = .missing ↔ e.runner.vm.host.tree.isFile (e.scriptPath configScript) = false) ∧
    (read = .missing → loaded = .ok 0 ∧ now = old) ∧
    (∀ error, read = .failed error → loaded = .error error ∧ now = old) ∧
    ∀ tree, read = .returned tree →
      (Settings.Malformed tree ∨ ∃ dirs, Settings.Asks tree dirs) ∧
      (Settings.Malformed tree → (∃ text, loaded = .error (.configLoad text)) ∧ now = old) ∧
      (tree = .null ∨ tree = .array [] → loaded = .ok 0 ∧ now = old) ∧
      ∀ dirs, Settings.Asks tree dirs →
        ((home = none → ∀ dir ∈ dirs, ¬ BelowHome dir) →
          ∃ paths new, e.Places dirs paths ∧ loaded = .ok new.length ∧ now = old ++ new ∧
            new = ((paths.map rootAt).filter (· ∉ old)).eraseDups ∧ new.Nodup ∧
            ∀ root ∈ new, root ∉ old) ∧
        ∀ before dir after paths, dirs = before ++ dir :: after → home = none → BelowHome dir →
          e.Places before paths →
            loaded = .error (.policyViolation Refusal.noHome.message) ∧
            ((∀ path ∈ paths, rootAt path ∈ old) → now = old) := by
  intro old home read rootAt loaded now
  have asJails {s : JailSet} (h : s = e.roots) : s.jails = old := congrArg JailSet.jails h
  refine ⟨readConfig_eq_missing_iff, fun hread => ?_, fun error hread => ?_, fun tree hread =>
    ⟨Settings.malformed_or_asks tree, fun htree => ?_, fun htree => ?_, fun dirs hasks =>
      ⟨fun hhome => ?_, fun before dir after paths hdirs hhome hdir hbefore => ?_⟩⟩⟩
  · exact (loadConfig_of_missing hread).imp_right asJails
  · exact (loadConfig_of_failed hread).imp_right asJails
  · exact (loadConfig_of_malformed hread htree).imp_right asJails
  · have hasks : Settings.Asks tree [] := by
      obtain rfl | rfl := htree
      · exact .null
      · exact .empty
    obtain ⟨new, hloaded, hnow, hnew, -, -⟩ := loadConfig_of_places hread hasks .nil
    subst hnew
    exact ⟨hloaded, hnow.trans (List.append_nil _)⟩
  · obtain ⟨paths, hpaths⟩ := exists_forall₂_stands e.config.scriptRoot hhome
    obtain ⟨new, hnew⟩ := loadConfig_of_places hread hasks hpaths
    exact ⟨paths, new, hpaths, hnew⟩
  · obtain ⟨hloaded, hnow⟩ :=
      loadConfig_of_homeless hread (hdirs ▸ hasks) hbefore hhome hdir
    refine ⟨hloaded, fun hthere => asJails ?_⟩
    rw [hnow]
    -- all that was named before the directory without a place is there already
    refine JailSet.insertAll_eq_self fun root hroot => ?_
    obtain ⟨path, hpath, rfl⟩ := List.mem_map.mp hroot
    exact hthere path hpath

/-! ## A shop -/

/-- A script that asks for a directory of its own and for home. -/
def shopScript : String := "return \x7bio_dirs=\x7b\"/stock\",\"~\"\x7d\x7d"

/-- Where it lies. -/
def shopPlace : Location := ["lua", "config", "init.lua"]

def shopFiles : Tree :=
  ⟨[(["lua"], .directory), (["lua", "config"], .directory), (shopPlace, .file shopScript.toUTF8)]⟩

/-- The host of the shop, with a home or without one. -/
def shopHost (home : Option String) : Host :=
  { tree := shopFiles, around := ⟨"/", home⟩, policy := {}, scriptJail := ⟨["lua"]⟩,
    ioJail := ⟨["lua"]⟩, jsonRoots := {} }

/-- The shop before its configuration is loaded. -/
def shop (home : Option String) : Engine :=
  { runner := { vm := { heap := {}, host := shopHost home } }, config := .new "/lua" }

/-- What the script is compiled to. -/
def shopCode : Proto :=
  .mk #[(.newTable, 1), (.pushString "io_dirs".toUTF8, 1), (.newTable, 1),
      (.pushString "/stock".toUTF8, 1), (.pushString "~".toUTF8, 1), (.append 1 2 false, 1),
      (.setField, 1), (.ret 1 false, 1), (.ret 0 false, 1)]
    #[] [(.slot 0, "_ENV")] 0 true 0 ("@" ++ configScript).toUTF8 "main" 0 1

/-- What it asks for. -/
def shopTree : Json := .object [("io_dirs", .array [.string "/stock", .string "~"])]

section

variable (home : Option String)

theorem shopPlace_real : shopFiles.Real shopPlace := by
  have hlua : shopFiles.Real ([] ++ ["lua"]) :=
    .child .root rfl (by unfold WellNamed; decide) (by decide) rfl nofun
  have hconfig : shopFiles.Real (["lua"] ++ ["config"]) :=
    .child hlua rfl (by unfold WellNamed; decide) (by decide) rfl nofun
  have hfile : shopFiles.Real (["lua", "config"] ++ ["init.lua"]) :=
    .child hconfig rfl (by unfold WellNamed; decide) (by decide) rfl nofun
  exact hfile

theorem shop_loadScript :
    (shopHost home).loadScript (some configScript) = .ok ⟨configScript, shopScript⟩ := by
  have hplace : Path.normalize (Path.join (Location.text ["lua"]) configScript) = shopPlace := by
    decide +kernel
  have hhash : Host.withoutHashLine shopScript = shopScript := by decide +kernel
  have hname : "/".intercalate (shopPlace.drop 1) = configScript := by decide
  have hheld : (shopHost home).tree.get? shopPlace = some (.file shopScript.toUTF8) := rfl
  have hanchor : anchorAt (shopHost home).around (shopHost home).scriptJail.root.text configScript =
      .ok (Path.join (shopHost home).scriptJail.root.text configScript) := if_neg (by decide)
  rw [loadScript_of_real shopPlace_real hheld nofun (by decide) hanchor hplace rfl (by decide)
    (by decide)]
  exact congrArg Except.ok (congrArg₂ Source.mk hname hhash)

/-- The machine of the shop with its script opened, and the function that it is. -/
def shopOpened : Value × Runner :=
  let (f, heap) := ({} : Heap).newChunk shopCode ({} : Heap).globalsValue
  (f, { vm := { heap, host := shopHost home } })

/-- What is left when it has run. -/
def shopRan : Runner :=
  ((shopOpened home).2.run (.function configScript (shopOpened home).1) []).2

theorem shop_run :
    (shopOpened home).2.run (.function configScript (shopOpened home).1) [] =
      (.ok [.table 0], shopRan home) :=
  rfl

theorem shopRan_tables :
    (shopRan home).vm.heap.tables =
      #[.ofFields [("io_dirs", .table 1)],
        ({} : Table).setRun 1 [.text "/stock", .text "~"]] :=
  rfl

/-- The two tables that it makes hold what it says. -/
theorem shopRan_unfolds :
    Trees.Unfolds (shopRan home).vm.heap [.table 0] [shopTree] 2 2 := by
  have htables := shopRan_tables home
  generalize (shopRan home).vm.heap = heap at htables ⊢
  have hsize : heap.tables.size = 2 := by
    rw [htables]
    rfl
  have houter : heap.table 0 = .ofFields [("io_dirs", .table 1)] := by
    rw [Heap.table, htables]
    rfl
  have hinner : heap.table 1 = { seq := #[.text "/stock", .text "~"] } := by
    have hget : heap.table 1 = ({} : Table).setRun 1 [.text "/stock", .text "~"] := by
      rw [Heap.table, htables]
      rfl
    rw [hget]
    exact Table.setRun_of_allSome (by decide)
  have hleaf (s : String) : Trees.leaf (.text s) = .string s := congrArg _ (Trees.lossy_ofText s)
  have hleaves : Trees.Unfolds heap [.text "/stock", .text "~"] [.string "/stock", .string "~"]
      0 0 := by
    rw [← hleaf, ← hleaf]
    exact .leaf rfl (.leaf rfl .nil)
  have hlist : Trees.Unfolds heap [.table 1] [.array [.string "/stock", .string "~"]] 1 1 :=
    .seq (by rw [hsize]; decide) hinner (by decide) (by decide) hleaves .nil
  exact .fields (by rw [hsize]; decide) houter (List.cons_ne_nil _ _)
    (List.pairwise_singleton _ _) (by decide) hlist .nil

theorem shopRan_tree : (shopRan home).vm.host.tree = shopFiles := rfl

theorem shop_isFile :
    (shop home).runner.vm.host.tree.isFile ((shop home).scriptPath configScript) = true := by
  have hpath : (shop home).scriptPath configScript = shopPlace.text := by
    have hjoined : Path.join "/lua" configScript = shopPlace.text := by decide +kernel
    show (shopHost home).absolute (Path.join "/lua" configScript) = _
    rw [hjoined, Host.absolute_text]
  rw [hpath]
  exact shopPlace_real.isFile rfl nofun (by decide)

/-- There are no links. -/
theorem shop_plain : shopFiles.Plain := by
  refine Tree.plain_of_entries fun e he => ?_
  simp only [shopFiles, List.mem_cons, List.not_mem_nil, or_false] at he
  rcases he with rfl | rfl | rfl <;> exact fun _ => nofun

theorem shop_asks : Settings.Asks shopTree ["/stock", "~"] := .many rfl

theorem shop_belowHome : ¬ BelowHome "/stock" ∧ BelowHome "~" := by decide

/-- With a home there are two places. -/
theorem shop_places {paths : List String}
    (h : (shop (some "/home")).Places ["/stock", "~"] paths) : paths = ["/stock", "/home/"] := by
  have hstock : anchorAt ⟨"/", some "/home"⟩ "/lua" "/stock" = .ok "/stock" := by
    rw [anchorAt_eq, if_neg shop_belowHome.1]
    exact congrArg Except.ok (by decide)
  have hhome : anchorAt ⟨"/", some "/home"⟩ "/lua" "~" = .ok "/home/" := by
    rw [anchorAt_eq, if_pos shop_belowHome.2]
    exact congrArg Except.ok (by decide +kernel)
  obtain ⟨first, rest, hfirst, hrest, rfl⟩ := List.forall₂_cons_left_iff.mp h
  obtain ⟨second, none, hsecond, hnone, rfl⟩ := List.forall₂_cons_left_iff.mp hrest
  cases hnone
  have hfirst' := hstock.symm.trans (anchorAt_eq_ok_iff.mpr hfirst)
  have hsecond' := hhome.symm.trans (anchorAt_eq_ok_iff.mpr hsecond)
  rw [← Except.ok.inj hfirst', ← Except.ok.inj hsecond']

/-- The places that its directories name below the script root and below home. -/
def shopNamed : List String :=
  ["/stock", "~"].flatMap fun dir => ["/lua/" ++ dir, Path.join "/home" (Path.afterFirst dir)]

/-- None of them is the directory of its own. -/
theorem shop_elsewhere : ∀ path ∈ shopNamed, Path.lexical [] path ≠ ["stock"] := by
  decide +kernel

theorem shop_compiles :
    compileText ("@" ++ configScript).toUTF8 shopScript.toUTF8 = .ok shopCode := by cbv

theorem shop_opens :
    onVm (·.loadScript configScript) (shop home) =
      (.ok (shopOpened home).1, { shop home with runner := (shopOpened home).2 }) := by
  rw [onVm_apply]
  show ((Vm.loadScript ⟨{}, {}, shopHost home⟩ configScript).1, { shop home with
    runner := ⟨(Vm.loadScript ⟨{}, {}, shopHost home⟩ configScript).2, {}⟩ }) = _
  rw [Vm.loadScript, shop_loadScript]
  dsimp only
  rw [shop_compiles]
  rfl

theorem shop_runConfigScript :
    runConfigScript configScript [] (shop home) =
      (.ok (some [.table 0]), { shop home with runner := shopRan home }) := by
  rw [runConfigScript_apply, if_pos (shop_isFile home), shop_opens]
  dsimp only
  rw [onRunner_apply]
  dsimp only
  rw [shop_run]

theorem shop_readConfig : (readConfig (shop home)).1 = .returned shopTree ∧
    (readConfig (shop home)).2.runner.vm.host.tree = shopFiles := by
  have hunfolds := shopRan_unfolds home
  have htree := shopRan_tree home
  rw [readConfig_apply, shop_runConfigScript]
  generalize shopRan home = ran at hunfolds htree ⊢
  have hvalue := Trees.ofValue_of_unfolds hunfolds (by decide) (by decide)
  exact ⟨congrArg Reading.returned hvalue, (Host.records_tree ..).trans htree⟩

theorem shop_rootAt (path : String) :
    (readConfig (shop home)).2.rootAt path = ⟨Path.lexical [] path⟩ := by
  have haround : (readConfig (shop home)).2.runner.vm.host.around = ⟨"/", home⟩ :=
    congrArg (fun b => b.2.1) (bearings_readConfig (shop home))
  have hbase : Path.lexical [] "/" = [] := by decide
  rw [rootAt, (shop_readConfig home).2, haround]
  refine congrArg Jail.mk (Jail.make_of_plain shop_plain |>.trans ?_)
  rw [hbase]

end

/-- The roots there are those of a directory of its own and of home. -/
theorem shop_roots {paths : List String}
    (h : (shop (some "/home")).Places ["/stock", "~"] paths) :
    ((paths.map (readConfig (shop (some "/home"))).2.rootAt).filter
      (· ∉ (shop (some "/home")).roots.jails)).eraseDups = [⟨["stock"]⟩, ⟨["home"]⟩] := by
  rw [shop_places h, List.map_cons, List.map_cons, List.map_nil, shop_rootAt, shop_rootAt]
  decide

/-- The shop with a home gets both. -/
theorem shop_all_or_nothing :
    (readConfig (shop (some "/home"))).1 = .returned shopTree ∧
    Settings.Asks shopTree ["/stock", "~"] ∧
    (loadConfig (shop (some "/home"))).1 = .ok 2 ∧
    (loadConfig (shop (some "/home"))).2.roots.jails = [⟨["stock"]⟩, ⟨["home"]⟩] := by
  have hread := (shop_readConfig (some "/home")).1
  obtain ⟨-, -, -, hreturned⟩ := loadConfig_all_or_nothing (shop (some "/home"))
  obtain ⟨-, -, -, hdirs⟩ := hreturned shopTree hread
  obtain ⟨paths, new, hpaths, hloaded, hnow, hnew, -, -⟩ := (hdirs _ shop_asks).1 nofun
  rw [hnew.trans (shop_roots hpaths)] at hloaded hnow
  exact ⟨hread, shop_asks, hloaded, hnow⟩

/-- A root that is added need not be that of a place below the script root or below home.  And
    loading that fails for want of a home may have added roots before. -/
theorem not_forall_all_or_nothing :
    (¬ ∀ e tree dirs n, (readConfig e).1 = .returned tree → Settings.Asks tree dirs →
      (loadConfig e).1 = .ok n → ∀ root ∈ (loadConfig e).2.roots.jails,
        root ∈ e.roots.jails ∨ ∃ dir ∈ dirs,
          root = (readConfig e).2.rootAt (e.config.scriptRoot ++ "/" ++ dir) ∨
          ∃ home, e.runner.vm.host.around.home = some home ∧
            root = (readConfig e).2.rootAt (Path.join home (Path.afterFirst dir))) ∧
    ¬ ∀ e error, (loadConfig e).1 = .error error → (loadConfig e).2.roots = e.roots := by
  constructor
  · -- with a home, `/stock` is added as it stands
    intro hanchored
    obtain ⟨paths, hpaths⟩ : ∃ paths, (shop (some "/home")).Places ["/stock", "~"] paths :=
      exists_forall₂_stands "/lua" nofun
    have hread := (shop_readConfig (some "/home")).1
    obtain ⟨new, hloaded, hnow, hnew, -, -⟩ :=
      loadConfig_of_places (e := shop (some "/home")) hread shop_asks hpaths
    have hstock : ⟨["stock"]⟩ ∈ (loadConfig (shop (some "/home"))).2.roots.jails := by
      rw [hnow, hnew.trans (shop_roots hpaths)]
      exact List.mem_append_right _ List.mem_cons_self
    obtain hold | ⟨dir, hdir, hroot⟩ := hanchored _ _ _ _ hread shop_asks hloaded _ hstock
    · cases hold
    · have hnamed (path : String)
          (hpath : path ∈ ["/lua/" ++ dir, Path.join "/home" (Path.afterFirst dir)]) :
          (readConfig (shop (some "/home"))).2.rootAt path ≠ ⟨["stock"]⟩ := by
        rw [shop_rootAt]
        exact fun h => shop_elsewhere path (List.mem_flatMap.mpr ⟨dir, hdir, hpath⟩)
          (congrArg Jail.root h)
      obtain hlua | ⟨home, hhome, hbelow⟩ := hroot
      · exact hnamed _ List.mem_cons_self hlua.symm
      · cases hhome
        exact hnamed _ (.tail _ List.mem_cons_self) hbelow.symm
  · -- without one, `/stock` is there when `~` fails
    intro hunchanged
    have hplace : (shop none).Places ["/stock"] ["/stock"] := .cons (.itself (by decide)) .nil
    have hasks : Settings.Asks shopTree (["/stock"] ++ "~" :: []) := shop_asks
    obtain ⟨hfails, hroots⟩ := loadConfig_of_homeless (e := shop none)
      (shop_readConfig none).1 hasks hplace rfl shop_belowHome.2
    have hnone := hroots.symm.trans (hunchanged _ _ hfails)
    have hempty := congrArg JailSet.jails hnone
    rw [JailSet.jails_insertAll] at hempty
    cases hempty

end OscHost.Engine
