import OscHost.Proofs.Files.Lexical
import OscHost.Proofs.Menus.Building
import OscHost.Proofs.Views.Heaps
import OscHost.Proofs.Worker.Inbox
/-!
  The menu, and the requests for a new one.

  An engine is made and then used in any order from outside (`Operation`, and ticks in between),
  while files, declared types and whatever else its host knows may change.  Wherever it gets that
  way (`Reached`), its menu is the one that was presented last, and building it again either
  presents one more or changes nothing about it (`menu_kept`).

  `Asked` counts on the way how often scripts have asked for a new menu since a tick last looked
  whether one has.  To ask is to call `menu.update`, and nothing else is counted.  The flag of the host is
  up exactly when the count is not zero (`Asked.menuRequested_iff`).  So a tick that gets that far builds
  the menu once if a script has asked, be it before the tick, in an event that it applied or in a thread
  that it resumed, and not at all otherwise; what is asked for while it builds counts for the next one
  (`requests_served`).

  In a kiosk both can be seen: its first script asks for a menu, and its menu is made for scripts only
  (`start_kiosk` and `tick_kiosk`).
-/

namespace OscHost.Engine

open Files Script

variable {e e' : Engine} {n : Nat}

/-! ## New engines -/

/-- The engine that is made once there is an io root. -/
def fresh (c : Config) (around : Surroundings) (made : Tree) (transport : Osc.Transport)
    (announces : Bool) (shell : Shell) : Engine where
  runner.vm := (Vm.new { Host.new c around made shell with transport }).record
    (.info ("script host ready: root=" ++ c.scriptRoot ++ " policy=" ++ c.policy.text))
  config := c
  announces := announces

/-- There is one exactly if there is an io root. -/
theorem new_eq_ok {c : Config} {around : Surroundings} {t : Tree} {transport : Osc.Transport}
    {announces : Bool} {shell : Shell} :
    Engine.new c around t transport announces shell = .ok e ↔
      ∃ made, c.makeIoRoot around.current t = .ok made ∧
        fresh c around made transport announces shell = e := by
  unfold Engine.new
  cases c.makeIoRoot around.current t with
  | error refusal => exact ⟨nofun, fun ⟨_, h, _⟩ => nomatch h⟩
  | ok made =>
    constructor
    · intro h
      exact ⟨made, rfl, Except.ok.inj h⟩
    · rintro ⟨_, h, rfl⟩
      rw [← Except.ok.inj h]
      rfl

/-! ## What is done with an engine -/

/-- What can be done with an engine from outside, ticks apart. -/
inductive Operation
  | start
  | call (name : String) (args : List BoundaryValue)
  | message (address : String) (values : List BoundaryValue)
  | endpointsDiscovered
  | enqueue (event : Event)
  | handle (event : Event)
  | loadConfig
  | updateMenu (trigger : String)
  | menuClicked (path : List String)

/-- The engine after an operation. -/
def Operation.perform : Operation → Engine → Engine
  | .start, e => (Engine.start e).2
  | .call name args, e => (Engine.call name args e).2
  | .message address values, e => (Engine.onMessage address values e).2
  | .endpointsDiscovered, e => (Engine.onEndpointsDiscovered e).2
  | .enqueue event, e => (Engine.enqueue event e).2
  | .handle event, e => (Engine.handle event e).2
  | .loadConfig, e => (Engine.loadConfig e).2
  | .updateMenu trigger, e => (Engine.updateMenu trigger e).2
  | .menuClicked path, e => (Engine.onMenuClicked path e).2

/-- Whatever is done leaves a trail. -/
theorem Operation.gets {M : Engine → Nat → Engine → Prop} [Presents M] (hready : Readies M)
    (hinbox : Refills M) (o : Operation) (e : Engine) : Gets M e (o.perform e) := by
  cases o with
  | start => exact Leaves.start e
  | call name args => exact Leaves.call name args e
  | message address values => exact Leaves.onMessage address values e
  | endpointsDiscovered => exact Leaves.onEndpointsDiscovered hready e
  | enqueue event => exact Leaves.setInbox hinbox (fun e => e.inbox ++ [event]) e
  | handle event => exact Leaves.handle event (fun _ => hready) e
  | loadConfig => exact Leaves.loadConfig e
  | updateMenu trigger => exact Leaves.updateMenu trigger e
  | menuClicked path => exact Leaves.onMenuClicked path e

/-- The engine after its host has changed by itself. -/
def withHost (e : Engine) (host : Host) : Engine :=
  { e with runner := { e.runner with vm := e.runner.vm.onHost fun _ => host } }

/-- Whether a new menu is asked for. -/
abbrev menuRequested (e : Engine) : Bool := e.runner.vm.host.menuRequested

/-- Wherever an engine can get. -/
inductive Reached : Engine → Prop
  | new {c : Config} {around : Surroundings} {t : Tree} {transport : Osc.Transport}
      {announces : Bool} {shell : Shell} {e : Engine}
      (h : Engine.new c around t transport announces shell = .ok e) :
      Reached e
  | perform {e : Engine} (h : Reached e) (o : Operation) : Reached (o.perform e)
  | tick {e : Engine} (h : Reached e) (now : Nat) : Reached (Engine.tick now e).2
  /-- Something else than a script changes the host, but does not ask for a menu. -/
  | outside {e : Engine} (h : Reached e) (host : Host)
      (hflag : host.menuRequested = e.menuRequested) : Reached (e.withHost host)

/-- To tick at the time that the clock shows is to read the clock, and then to tick. -/
theorem Reached.tickNow (h : Reached e) : Reached (Engine.tickNow e).2 := by
  rw [tickNow_apply]
  exact (h.outside e.runner.vm.host.readClock.2 rfl).tick e.runner.readClock.1

/-! ## What a tick does -/

/-- The engine after the events that wait have been applied. -/
def drained (e : Engine) : Engine := (applyWaiting e.inbox.length e).2

/-- The engine after the threads have been resumed, too, that are due then. -/
def resumed (now : Nat) (e : Engine) : Engine :=
  (onRunner (fun r => ((), r.tick now)) e.drained).2

/-- An engine whose menu nobody has asked for. -/
def lowered (e : Engine) : Engine :=
  { e with runner := { e.runner with
      vm := e.runner.vm.onHost fun host => { host with menuRequested := false } } }

/-- Where no event waits and all threads have ended, nothing is applied and nobody resumed. -/
theorem stays_resumed (hidle : e.inbox = []) (hsettled : e.runner.Settled) (now : Nat) :
    e.Stays (e.resumed now) := by
  have hdrained : e.drained = e := by
    unfold drained
    rw [hidle]
    rfl
  obtain ⟨hvm, hticked⟩ := Runner.tick_of_settled hsettled now
  unfold resumed
  rw [hdrained]
  exact ⟨congrArg (fun vm : Vm => (vm.host.tree, vm.host.around, vm.host.scriptJail, e.config)) hvm,
    rfl, fun _ => hticked⟩

theorem stays_lowered (e : Engine) : e.Stays e.lowered :=
  ⟨rfl, rfl, fun h => ⟨h.order, h.ended⟩⟩

theorem gets_drained (e : Engine) : Gets Pass e e.drained :=
  Leaves.applyWaiting Pass.readies .inbox _ e

theorem gets_resumed (now : Nat) (e : Engine) : Gets Pass e.drained (e.resumed now) :=
  Leaves.runnerTick now e.drained

/-- A tick gets to the threads unless an event that waits ends everything. -/
theorem applyWaiting_goesOn (e : Engine) :
    (applyWaiting e.inbox.length e).1 = e.inbox.all (! ·.endsAll) := by
  generalize hevents : e.inbox = events
  induction events generalizing e with
  | nil => rfl
  | cons event rest ih =>
    obtain ⟨hgoesOn, hrest⟩ := applyOldest_cons hevents
    rw [List.length_cons, applyWaiting_succ, List.all_cons, hgoesOn]
    cases hends : event.endsAll
    · rw [hends] at hrest
      exact ih _ hrest
    · rfl

theorem serveMenuRequest_eq (e : Engine) : (serveMenuRequest e).2 =
    if e.menuRequested then (updateMenu "script" e.lowered).2 else e.lowered := by
  have hread : onVm (fun vm => (vm.host.menuRequested,
      vm.onHost fun host => { host with menuRequested := false })) e =
    (e.menuRequested, e.lowered) := rfl
  unfold serveMenuRequest
  rw [bind_apply, ite_apply, hread]
  dsimp only
  split
  · rfl
  · rfl

/-- Where no menu is asked for there is nothing to lower. -/
theorem lowered_eq_self (h : e.menuRequested = false) : e.lowered = e := by
  have hhost : { e.runner.vm.host with menuRequested := false } = e.runner.vm.host := by
    rw [← h]
  unfold lowered Vm.onHost
  dsimp only
  rw [hhost]

/-- Unless the events end everything, due threads are resumed, and then the menu is built if it is
    asked for.  That it was is forgotten before. -/
theorem tick_eq (now : Nat) (e : Engine) :
    tick now e =
      if e.inbox.all (! ·.endsAll) then
        (true, if (e.resumed now).menuRequested then (updateMenu "script" (e.resumed now).lowered).2
          else e.resumed now)
      else (false, e.drained) := by
  have hserve : (resumeDue now e.drained).2 =
      if (e.resumed now).menuRequested then (updateMenu "script" (e.resumed now).lowered).2
      else e.resumed now := by
    refine (serveMenuRequest_eq (e.resumed now)).trans ?_
    split
    · rfl
    · rename_i hnot
      exact lowered_eq_self (Bool.eq_false_iff.mpr hnot)
  rw [tick_apply, applyWaiting_goesOn, ← hserve]
  split
  · rfl
  · rfl

theorem tick_of_cut {now : Nat} (h : ¬ (tick now e).1) : tick now e = (false, e.drained) := by
  rw [tick_eq] at h ⊢
  split at h
  · exact absurd rfl h
  · rename_i hends
    exact if_neg hends

/-- What a tick does after it has looked leaves a trail again. -/
theorem gets_served (now : Nat) (e : Engine) (h : (tick now e).1) :
    Gets Pass (e.resumed now).lowered (tick now e).2 := by
  rw [tick_eq] at h ⊢
  split at h
  · rename_i hgoesOn
    rw [if_pos hgoesOn]
    dsimp only
    split
    · exact Leaves.updateMenu "script" _
    · rename_i hnot
      rw [lowered_eq_self (Bool.eq_false_iff.mpr hnot)]
      exact .refl _
  · exact nomatch h

/-! ## What asks for a menu -/

/-- Whether the engine's machine is honest. -/
abbrev Honest (e : Engine) : Prop := e.runner.vm.Honest

/-- A move keeps the machine honest, and after it a menu is asked for if it was before or a script has asked
    for one meanwhile. -/
theorem Pass.menuRequested_iff (h : Pass e n e') (he : e.Honest) :
    e'.Honest ∧ (e'.menuRequested ↔ e.menuRequested ∨ 0 < n) := by
  have quiet : e.menuRequested ↔ e.menuRequested ∨ 0 < 0 := (or_iff_left (Nat.lt_irrefl 0)).symm
  cases h with
  | act h =>
    cases h with
    | move h =>
      cases h with
      | machine h => exact h.menuRequested_iff he
      | threads k => exact ⟨he, quiet⟩
      | ready => exact ⟨he, quiet⟩
    | present items => exact ⟨he, quiet⟩
  | inbox events => exact ⟨he, quiet⟩

theorem trail_menuRequested_iff (h : Trail Pass e n e') (he : e.Honest) :
    e'.Honest ∧ (e'.menuRequested ↔ e.menuRequested ∨ 0 < n) := by
  induction h with
  | nil => exact ⟨he, (or_iff_left (Nat.lt_irrefl 0)).symm⟩
  | snoc _ last ih =>
    obtain ⟨hhonest, hbefore⟩ := ih
    obtain ⟨hhonest', hlast⟩ := last.menuRequested_iff hhonest
    exact ⟨hhonest', by rw [hlast, hbefore, or_assoc, Nat.add_pos_iff_pos_or_pos]⟩

theorem menuRequested_of_gets (h : Gets Pass e e') (he : e.Honest) (hasked : e.menuRequested) :
    e'.menuRequested := by
  obtain ⟨_, h⟩ := h
  exact (trail_menuRequested_iff h he).2.mpr (.inl hasked)

theorem Honest.gets (he : e.Honest) (h : Gets Pass e e') : e'.Honest := by
  obtain ⟨_, h⟩ := h
  exact (trail_menuRequested_iff h he).1

/-- A tick looks at what is asked for, which is not about suspended calls. -/
theorem Honest.tick (he : e.Honest) (now : Nat) : (Engine.tick now e).2.Honest := by
  have hdrained := he.gets (gets_drained e)
  have hresumed := hdrained.gets (gets_resumed now e)
  have hlowered : (e.resumed now).lowered.Honest := hresumed
  cases hgoesOn : (Engine.tick now e).1
  · rw [tick_of_cut (Bool.eq_false_iff.mp hgoesOn)]
    exact hdrained
  · exact hlowered.gets (gets_served now e hgoesOn)

/-- Wherever an engine gets, only `menu.update` asks for a menu. -/
theorem Reached.honest (h : Reached e) : e.Honest := by
  induction h with
  | new h =>
    obtain ⟨made, -, rfl⟩ := new_eq_ok.mp h
    exact Machine.good_new
  | perform _ o ih => exact ih.gets (o.gets Pass.readies .inbox _)
  | tick _ now ih => exact ih.tick now
  | outside _ host _ ih => exact ih

/-! ## What becomes of the menu -/

/-- What is not about the menu leaves it as it is. -/
theorem Move.menu_eq (h : Move e n e') : e'.menu = e.menu ∧ e'.presented = e.presented := by
  cases h <;> exact ⟨rfl, rfl⟩

theorem Leaves.menu_eq {α : Type} {x : EngineM α} (hx : Leaves Move x) (e : Engine) :
    (x e).2.menu = e.menu ∧ (x e).2.presented = e.presented := by
  refine hx.keeps (P := fun e e' => e'.menu = e.menu ∧ e'.presented = e.presented)
    (fun _ => ⟨rfl, rfl⟩) ?_ Move.menu_eq e
  rintro e e' e'' ⟨hmenu, hpresented⟩ ⟨hmenu', hpresented'⟩
  exact ⟨hmenu'.trans hmenu, hpresented'.trans hpresented⟩

/-- Whether the menu is the one that was presented last. -/
def Current (e : Engine) : Prop := e.menu = e.presented.back?

theorem Pass.current (h : Pass e n e') (he : e.Current) : e'.Current := by
  cases h with
  | act h =>
    cases h with
    | move h =>
      obtain ⟨hmenu, hpresented⟩ := h.menu_eq
      unfold Current
      rw [hmenu, hpresented]
      exact he
    | present items => exact Array.back?_push.symm
  | inbox events => exact he

theorem Current.gets (he : e.Current) (h : Gets Pass e e') : e'.Current :=
  h.keeps (P := fun e e' => e.Current → e'.Current) (fun _ => id) (fun h h' => h' ∘ h)
    Pass.current he

/-- A tick looks at what is asked for, which is not about the menu that is there. -/
theorem Current.tick (he : e.Current) (now : Nat) : (Engine.tick now e).2.Current := by
  have hdrained := he.gets (gets_drained e)
  have hresumed := hdrained.gets (gets_resumed now e)
  have hlowered : (e.resumed now).lowered.Current := hresumed
  cases hgoesOn : (Engine.tick now e).1
  · rw [tick_of_cut (Bool.eq_false_iff.mp hgoesOn)]
    exact hdrained
  · exact hlowered.gets (gets_served now e hgoesOn)

theorem Reached.current (h : Reached e) : e.Current := by
  induction h with
  | new h =>
    obtain ⟨made, -, rfl⟩ := new_eq_ok.mp h
    rfl
  | perform _ o ih => exact ih.gets (o.gets Pass.readies .inbox _)
  | tick _ now ih => exact ih.tick now
  | outside _ host _ ih => exact ih

theorem present_eq (items : List MenuItem) (e : Engine) :
    (present items e).2.presented = e.presented.push items ∧
      (present items e).2.menu = some items := by
  unfold present
  rw [bind_apply, get_apply]
  dsimp only
  split
  · exact ⟨rfl, rfl⟩
  · exact ⟨rfl, rfl⟩

/-- Building the menu presents one more, keeps it and says so, or it changes nothing about menus and
    says that. -/
theorem updateMenu_cases (trigger : String) (e : Engine) :
    (∃ items, (updateMenu trigger e).1 = true ∧
      (updateMenu trigger e).2.presented = e.presented.push items ∧
      (updateMenu trigger e).2.menu = some items) ∨
    ((updateMenu trigger e).1 = false ∧ (updateMenu trigger e).2.presented = e.presented ∧
      (updateMenu trigger e).2.menu = e.menu) := by
  obtain ⟨hmenu, hpresented⟩ := (Leaves.buildMenu trigger).menu_eq e
  unfold updateMenu
  rw [bind_apply]
  generalize buildMenu trigger e = r at hmenu hpresented ⊢
  rcases r with ⟨error | _ | items, built⟩
  · obtain ⟨hmenu', hpresented'⟩ := (Leaves.record (.warn ("menu update (" ++ trigger ++
      ") failed, keeping previous menu: " ++ error.message))).menu_eq built
    exact .inr ⟨rfl, hpresented'.trans hpresented, hmenu'.trans hmenu⟩
  · exact .inr ⟨rfl, hpresented, hmenu⟩
  · obtain ⟨hpresented', hmenu'⟩ := present_eq items built
    exact .inl ⟨items, rfl, hpresented'.trans (congrArg (·.push items) hpresented), hmenu'⟩

/-! ## An engine whose host asks -/

/-- Where nothing stands in its way, an io root is made. -/
theorem makeIoRoot_of_absent {t : Tree} (h : t.get? ["io_dir"] = none) :
    (Config.new "/").makeIoRoot "/" t = .ok (t.put ["io_dir"] .directory) := by
  have hsteps : Tree.steps "/io_dir" = [.name "io_dir"] := by decide
  have hroot : (t.walk Tree.maxLinks [] [] >>= Tree.Target.existing) = .ok [] := by
    rw [Tree.walk_nil]
    rfl
  have hdirectory : t.get? [] = some .directory := rfl
  have hmake : t.makeDirectory "/io_dir" = .ok (t.put ["io_dir"] .directory) := by
    unfold Tree.makeDirectory Tree.locate
    rw [if_neg (by decide), if_neg (by decide), hsteps]
    dsimp only [List.getLast?, List.getLast, List.dropLast]
    rw [hroot]
    dsimp only [bind, Except.bind]
    rw [hdirectory]
    dsimp only
    rw [if_neg (by decide), List.nil_append, h]
    rfl
  have hpath : (Path.components (Path.join "/" (Config.new "/").ioRoot)).reverse =
      [.name "io_dir", .root] := by decide +kernel
  have htext : Path.ofComponents [.name "io_dir", .root].reverse = "/io_dir" := by decide
  unfold Config.makeIoRoot Tree.makeDirectories
  rw [hpath]
  unfold Tree.makeDirectoriesBelow
  dsimp only
  rw [htext, hmake]

/-- An engine for a file system without scripts. -/
def bare : Engine := fresh (Config.new "/") ⟨"/", none⟩ ⟨[(["io_dir"], .directory)]⟩ {} false .basic

theorem new_bare : Engine.new (Config.new "/") ⟨"/", none⟩ {} = .ok bare :=
  new_eq_ok.mpr ⟨_, makeIoRoot_of_absent rfl, rfl⟩

/-- The same engine, whose host asks for a menu as scripts do. -/
def nudged : Engine := (Operation.enqueue (.updateMenu "script")).perform bare

/-! ## A kiosk -/

/-- A first script that asks for a menu. -/
def kioskMain : String := "menu.update()"

/-- A menu that lists what it is made for, and is made for scripts only. -/
def kioskMenu : String := "return ... == \"script\" and \x7b...\x7d"

/-- Where the two scripts lie. -/
def kioskMainPlace : Location := ["main.lua"]

def kioskMenuPlace : Location := ["config", "context_menu.lua"]

def kioskFiles : Tree :=
  ⟨[(["io_dir"], .directory), (["config"], .directory), (kioskMainPlace, .file kioskMain.toUTF8),
    (kioskMenuPlace, .file kioskMenu.toUTF8)]⟩

/-- The kiosk before it is started. -/
def kiosk : Engine := fresh (Config.new "/") ⟨"/", none⟩ kioskFiles {} false .basic

/-- What its scripts are compiled to. -/
def kioskMainCode : Proto :=
  .mk #[(.getUpvalue 0, 1), (.pushString "menu".toUTF8, 1),
      (.index (some ⟨"upvalue", "_ENV".toUTF8⟩), 1), (.pushString "update".toUTF8, 1),
      (.index (some ⟨"global", "menu".toUTF8⟩), 1),
      (.call 0 false (.exact 0) (some ⟨"field", "update".toUTF8⟩), 1), (.ret 0 false, 1)]
    #[] [(.slot 0, "_ENV")] 0 true 0 ("@" ++ entryScript).toUTF8 "main" 0 1

def kioskMenuCode : Proto :=
  .mk #[(.varargs (.exact 1), 1), (.pushString "script".toUTF8, 1),
      (.binary .eq (none, some ⟨"constant", "script".toUTF8⟩), 1), (.jumpKeeping false 7, 1),
      (.newTable, 1), (.varargs .all, 1), (.append 1 0 true, 1), (.ret 1 false, 1),
      (.ret 0 false, 1)]
    #[] [(.slot 0, "_ENV")] 0 true 0 ("@" ++ menuScript).toUTF8 "main" 0 1

theorem kioskMain_compiles :
    compileText ("@" ++ entryScript).toUTF8 kioskMain.toUTF8 = .ok kioskMainCode := by cbv

theorem kioskMenu_compiles :
    compileText ("@" ++ menuScript).toUTF8 kioskMenu.toUTF8 = .ok kioskMenuCode := by cbv

theorem new_kiosk : Engine.new (Config.new "/") ⟨"/", none⟩ ⟨kioskFiles.entries.tail⟩ = .ok kiosk :=
  new_eq_ok.mpr ⟨_, makeIoRoot_of_absent (by decide), rfl⟩

theorem reached_kiosk : Reached (start kiosk).2 := (Reached.new new_kiosk).perform .start

theorem kioskMainPlace_real : kioskFiles.Real kioskMainPlace := by
  have hfile : kioskFiles.Real ([] ++ ["main.lua"]) :=
    .child .root rfl (by unfold WellNamed; decide) (by decide) rfl nofun
  exact hfile

theorem kioskMenuPlace_real : kioskFiles.Real kioskMenuPlace := by
  have hconfig : kioskFiles.Real ([] ++ ["config"]) :=
    .child .root rfl (by unfold WellNamed; decide) (by decide) rfl nofun
  have hfile : kioskFiles.Real (["config"] ++ ["context_menu.lua"]) :=
    .child hconfig rfl (by unfold WellNamed; decide) (by decide) rfl nofun
  exact hfile

theorem kioskFiles_plain : kioskFiles.Plain := by
  refine Tree.plain_of_entries fun e he => ?_
  simp only [kioskFiles, List.mem_cons, List.not_mem_nil, or_false] at he
  rcases he with rfl | rfl | rfl | rfl <;> exact fun _ => nofun

theorem kiosk_scriptJail : kiosk.runner.vm.host.scriptJail = ⟨[]⟩ :=
  congrArg Jail.mk ((Jail.make_of_plain kioskFiles_plain).trans (by decide))

/-- A script of the kiosk is found where its path says. -/
theorem kiosk_finds {path text : String} {l : Location} {code : Proto} (hreal : kioskFiles.Real l)
    (hheld : kioskFiles.get? l = some (.file text.toUTF8)) (hl : l ≠ []) (hne : path ≠ "")
    (hhome : ¬ BelowHome path) (hjoin : Path.join "/" path = l.text)
    (hlong : l.text.utf8ByteSize ≤ Tree.maxPath) (hname : '\x00' ∉ l.text.toList)
    (hpath : "/".intercalate l = path) (hhash : Host.withoutHashLine text = text)
    (hcode : compileText ("@" ++ path).toUTF8 text.toUTF8 = .ok code) : kiosk.Finds path code := by
  have hroot : Location.text [] = "/" := by decide
  have hanchor : anchorAt kiosk.runner.vm.host.around kiosk.runner.vm.host.scriptJail.root.text
      path = .ok (Path.join kiosk.runner.vm.host.scriptJail.root.text path) := if_neg hhome
  have hplace : Path.normalize (Path.join kiosk.runner.vm.host.scriptJail.root.text path) = l := by
    rw [kiosk_scriptJail, hroot, hjoin, Location.normalize_text hreal.wellNamed]
  have hinside : kiosk.runner.vm.host.scriptJail.root.isPrefixOf l := by
    rw [kiosk_scriptJail]
    rfl
  have hload : kiosk.runner.vm.host.loadScript (some path) = .ok ⟨path, text⟩ := by
    rw [loadScript_of_real hreal hheld hl hne hanchor hplace hinside hlong hname, kiosk_scriptJail]
    exact congrArg Except.ok (congrArg₂ Source.mk hpath hhash)
  have hscript : kiosk.scriptPath path = l.text := by
    show kiosk.runner.vm.host.absolute (Path.join "/" path) = _
    rw [hjoin, Host.absolute_text]
  refine ⟨?_, _, hload, hcode⟩
  rw [hscript]
  exact hreal.isFile hheld hl hlong

theorem kiosk_finds_main : kiosk.Finds entryScript kioskMainCode :=
  kiosk_finds kioskMainPlace_real rfl nofun (by decide) (by decide) (by decide +kernel) (by decide)
    (by decide) (by decide) (by decide +kernel) kioskMain_compiles

theorem kiosk_finds_menu : kiosk.Finds menuScript kioskMenuCode :=
  kiosk_finds kioskMenuPlace_real rfl nofun (by decide) (by decide) (by decide +kernel) (by decide)
    (by decide) (by decide) (by decide +kernel) kioskMenu_compiles

/-- It has no script for the configuration. -/
theorem kiosk_unconfigured :
    kiosk.runner.vm.host.tree.isFile (kiosk.scriptPath configScript) = false := by
  have hpath : kiosk.scriptPath configScript = "/config/init.lua" := by decide +kernel
  show kioskFiles.isFile _ = false
  rw [hpath]
  unfold Tree.isFile
  split
  · rename_i l hl
    have hwalk := Tree.walk_of_followText (Tree.existing_eq_ok.mp hl)
    obtain rfl : l = ["config", "init.lua"] :=
      (kioskFiles_plain.eq_of_walk hwalk).trans (by decide)
    rfl
  · rfl

theorem kiosk_settled : kiosk.runner.Settled := ⟨Scheduler.orderly_empty 0, nofun⟩

/-- Running the first script up to its call. -/
theorem run_kioskMain {h : Heap} {i n : Nat} {o v : Value}
    (ho : Lib.lookup h (h.cell n) (.string "menu".toUTF8) = .found o)
    (hv : Lib.lookup h o (.string "update".toUTF8) = .found v) (fuel : Nat) :
    let x := Activation.start i ⟨kioskMainCode, #[n]⟩ [] none
    Activation.run (fuel + 6) h x = ⟨h, { x with pc := 6, pausedAt := 5, want := .exact 0 },
      .call v [] (some ⟨"field", "update".toUTF8⟩)⟩ := by
  intro x
  rw [Moment.run_global (x := x) rfl rfl rfl ho, Moment.run_member rfl rfl rfl hv,
    Activation.run_code (i := .call 0 false (.exact 0) (some ⟨"field", "update".toUTF8⟩)) rfl]
  rfl

/-- The first script asks for a menu. -/
theorem runEntryScript_kiosk :
    kiosk.Stays (runEntryScript kiosk).2 ∧ (runEntryScript kiosk).2.menuRequested := by
  let host := Host.new (Config.new "/") ⟨"/", none⟩ kioskFiles
  have hc := Moment.compiled_new (s := host) rfl kioskMainCode
  have hmenu : (Sandbox.contents {} host.scriptRoot .globals).getText "menu" =
      .table Sandbox.Place.menu.id := by
    refine Sandbox.getText_tableOf_of_mem (by decide) (by decide) ?_
    simp [Sandbox.libraries]
  have hupdate : (Sandbox.contents {} host.scriptRoot .menu).getText "update" =
      .builtin .menuUpdate := by
    refine Sandbox.getText_tableOf_of_mem (by decide) (by decide) ?_
    simp
  exact runEntryScript_of_menuUpdate kiosk_settled kiosk_finds_main (by decide)
    (run_kioskMain (hc.lookup_global hmenu) (hc.lookup hupdate) 9994) rfl

section

variable (he : e.runner.Settled) (hf : e.Finds menuScript kioskMenuCode)

include he hf

/-- Nobody else is given a menu. -/
theorem updateMenu_other {trigger : String} (h : trigger ∈ ["startup", "again"]) :
    (updateMenu trigger e).1 = false ∧ e.Stays (updateMenu trigger e).2 := by
  have hreturns : kioskMenuCode.Returns [.text trigger] (fun _ => [.bool false]) id := by
    refine ⟨by decide, fun heap id cells => ?_⟩
    simp only [List.mem_cons, List.not_mem_nil, or_false] at h
    rcases h with rfl | rfl
    · exact ⟨_, rfl⟩
    · exact ⟨_, rfl⟩
  obtain ⟨ran, hrun, hran, -⟩ := runConfigScript_of_returns he hf hreturns
  obtain ⟨hnone, hstays⟩ := updateMenu_of_malformed hrun rfl
  exact ⟨hnone, hran.trans hstays⟩

/-- Scripts are given one. -/
theorem updateMenu_script : (updateMenu "script" e).2.menu = some [.entry "script" false []] ∧
    e.Stays (updateMenu "script" e).2 := by
  have hreturns : kioskMenuCode.Returns [.text "script"] (fun h => [.table h.tables.size])
      fun h => (h.newTable {}).2.modifyTable h.tables.size (·.setRun 1 [.text "script"]) :=
    ⟨by decide, fun h id cells => ⟨_, rfl⟩⟩
  obtain ⟨ran, hrun, hran, hheap⟩ := runConfigScript_of_returns he hf hreturns
  generalize e.opened kioskMenuCode = h at hrun hheap
  have hsize : h.tables.size < (h.newTable {}).2.tables.size :=
    Nat.lt_of_lt_of_eq (Nat.lt_succ_self _) (Heap.size_newTable ..).symm
  have htable : ran.runner.vm.heap.table h.tables.size = { seq := #[.text "script"] } := by
    rw [hheap, Heap.table_modifyTable, Heap.table_newTable_self, if_pos ⟨rfl, hsize⟩]
    exact Table.setRun_of_allSome (by decide)
  have hleaf : Trees.leaf (.text "script") = .string "script" := congrArg _ (Trees.lossy_ofText _)
  have hunfolds : Trees.Unfolds ran.runner.vm.heap [.table h.tables.size]
      [.array [.string "script"]] 1 1 := by
    refine .seq ?_ htable (by decide) (by decide) (hleaf ▸ .leaf rfl .nil) .nil
    rw [hheap]
    show _ < (Array.modify _ _ _).size
    rw [Array.size_modify]
    exact hsize
  have htree : (firstTree [.table h.tables.size] ran).1 = .array [.string "script"] :=
    Trees.ofValue_of_unfolds hunfolds (by decide) (by decide)
  obtain ⟨-, hmenu, hstays⟩ := updateMenu_of_items hrun (congrArg Menu.parse htree)
  exact ⟨hmenu, hran.trans hstays⟩

end

/-- Once it is started there is no menu, but one is asked for. -/
theorem start_kiosk : kiosk.Stays (start kiosk).2 ∧ (start kiosk).2.menu = none ∧
    (start kiosk).2.menuRequested := by
  obtain ⟨hentry, hasked⟩ := runEntryScript_kiosk
  obtain ⟨hmenu, -⟩ := Leaves.menu_eq Leaves.runEntryScript kiosk
  have hhonest := (Reached.new new_kiosk).honest.gets (Leaves.runEntryScript kiosk)
  rw [start_eq]
  generalize (runEntryScript kiosk).2 = entered at hentry hasked hmenu hhonest ⊢
  have hconfigured := hentry.trans
    (stays_configure ((isFile_of_stays configScript hentry).trans kiosk_unconfigured))
  have hgets : Gets Pass entered (configure entered).2 := Leaves.configure entered
  obtain ⟨hmenu', -⟩ := Leaves.menu_eq Leaves.configure entered
  generalize (configure entered).2 = configured at hconfigured hgets hmenu' ⊢
  obtain ⟨hnone, hstays⟩ := updateMenu_other (hconfigured.settled kiosk_settled)
    (kiosk_finds_menu.of_stays hconfigured) (by decide : "startup" ∈ _)
  obtain ⟨_, h, -⟩ | ⟨-, -, hkept⟩ := updateMenu_cases "startup" configured
  · exact nomatch hnone.symm.trans h
  · exact ⟨hconfigured.trans hstays, hkept.trans (hmenu'.trans hmenu),
      menuRequested_of_gets (hgets.trans (Leaves.updateMenu "startup" configured)) hhonest hasked⟩

/-- The next tick makes it. -/
theorem tick_kiosk : kiosk.Stays (tick 0 (start kiosk).2).2 ∧
    (tick 0 (start kiosk).2).2.menu = some [.entry "script" false []] := by
  obtain ⟨hstarted, -, hasked⟩ := start_kiosk
  have hhonest := reached_kiosk.honest
  generalize (start kiosk).2 = started at hstarted hasked hhonest ⊢
  have hidle : started.inbox = [] := hstarted.inbox
  have hready := (hstarted.trans (stays_resumed hidle (hstarted.settled kiosk_settled) 0)).trans
    (stays_lowered _)
  have hstill := menuRequested_of_gets ((gets_drained started).trans (gets_resumed 0 started))
    hhonest hasked
  obtain ⟨hmenu, hstays⟩ := updateMenu_script (hready.settled kiosk_settled)
    (kiosk_finds_menu.of_stays hready)
  rw [tick_eq, if_pos (by rw [hidle]; rfl), if_pos hstill]
  exact ⟨hready.trans hstays, hmenu⟩

/-! ## The menu that is kept -/

/-- Wherever an engine gets, its menu is the one that was presented last, if any was; and whoever
    has it build the menu again, and when, one more is presented and kept, or none is. -/
theorem menu_kept :
    (∀ e, Reached e → e.menu = e.presented.back?) ∧
    ∀ trigger e,
      (∃ items, (updateMenu trigger e).1 = true ∧
        (updateMenu trigger e).2.presented = e.presented.push items ∧
        (updateMenu trigger e).2.menu = some items) ∨
      ((updateMenu trigger e).1 = false ∧ (updateMenu trigger e).2.presented = e.presented ∧
        (updateMenu trigger e).2.menu = e.menu) :=
  ⟨fun _ h => h.current, updateMenu_cases⟩

/-- The kiosk presents a menu in its first tick, and keeps it when there is none to follow. -/
theorem menu_kept_kiosk : ∃ e, Reached e ∧ (tick 0 (start kiosk).2).2 = e ∧
    e.presented.back? = some [.entry "script" false []] ∧
    (updateMenu "again" e).1 = false ∧
    (updateMenu "again" e).2.menu = some [.entry "script" false []] := by
  have hreached := reached_kiosk.tick 0
  obtain ⟨hstays, hmenu⟩ := tick_kiosk
  obtain ⟨hagain, -⟩ := updateMenu_other (hstays.settled kiosk_settled)
    (kiosk_finds_menu.of_stays hstays) (by decide : "again" ∈ _)
  refine ⟨_, hreached, rfl, (menu_kept.1 _ hreached).symm.trans hmenu, hagain, ?_⟩
  obtain ⟨_, h, -⟩ | ⟨-, -, hkept⟩ := menu_kept.2 "again" (tick 0 (start kiosk).2).2
  · exact nomatch hagain.symm.trans h
  · exact hkept.trans hmenu

/-! ## Requests that are served -/

/-- Wherever an engine can get, with how often scripts have asked for a new menu since a tick looked
    whether one has. -/
inductive Asked : Engine → Nat → Prop
  | new {c : Config} {around : Surroundings} {t : Tree} {transport : Osc.Transport}
      {announces : Bool} {shell : Shell} {e : Engine}
      (h : Engine.new c around t transport announces shell = .ok e) :
      Asked e 0
  | perform {e : Engine} {n k : Nat} (h : Asked e n) (o : Operation)
      (trail : Trail Pass e k (o.perform e)) : Asked (o.perform e) (n + k)
  /-- A tick looks after the due threads, and begins to count anew. -/
  | tick {e : Engine} {n k : Nat} (h : Asked e n) {now : Nat} (hgoesOn : (Engine.tick now e).1)
      (trail : Trail Pass (e.resumed now).lowered k (Engine.tick now e).2) :
      Asked (Engine.tick now e).2 k
  /-- A tick that is cut short does not look. -/
  | cut {e : Engine} {n k : Nat} (h : Asked e n) {now : Nat} (hends : ¬ (Engine.tick now e).1)
      (trail : Trail Pass e k (Engine.tick now e).2) : Asked (Engine.tick now e).2 (n + k)
  | outside {e : Engine} {n : Nat} (h : Asked e n) (host : Host)
      (hflag : host.menuRequested = e.menuRequested) : Asked (e.withHost host) n

theorem Reached.exists_asked (h : Reached e) : ∃ n, Asked e n := by
  induction h with
  | new h => exact ⟨0, .new h⟩
  | @perform e _ o ih =>
    obtain ⟨n, hn⟩ := ih
    obtain ⟨k, hk⟩ := o.gets Pass.readies .inbox e
    exact ⟨n + k, hn.perform o hk⟩
  | @tick e _ now ih =>
    obtain ⟨n, hn⟩ := ih
    by_cases hgoesOn : (Engine.tick now e).1
    · obtain ⟨k, hk⟩ := gets_served now e hgoesOn
      exact ⟨k, hn.tick hgoesOn hk⟩
    · obtain ⟨k, hk⟩ := gets_drained e
      exact ⟨n + k, hn.cut hgoesOn (tick_of_cut hgoesOn ▸ hk)⟩
  | outside _ host hflag ih =>
    obtain ⟨n, hn⟩ := ih
    exact ⟨n, hn.outside host hflag⟩

theorem Asked.reached (h : Asked e n) : Reached e := by
  induction h with
  | new h => exact .new h
  | perform _ o _ ih => exact ih.perform o
  | @tick _ _ _ _ now _ _ ih => exact ih.tick now
  | @cut _ _ _ _ now _ _ ih => exact ih.tick now
  | outside _ host hflag ih => exact ih.outside host hflag

/-- A menu is asked for when a script has asked for one since a tick looked last. -/
theorem Asked.menuRequested_iff (h : Asked e n) : e.menuRequested ↔ 0 < n := by
  have further {e e' : Engine} {n k : Nat} (h : Asked e n) (ih : e.menuRequested ↔ 0 < n)
      (trail : Trail Pass e k e') : e'.menuRequested ↔ 0 < n + k := by
    rw [(trail_menuRequested_iff trail h.reached.honest).2, ih, Nat.add_pos_iff_pos_or_pos]
  induction h with
  | new h =>
    obtain ⟨made, -, rfl⟩ := new_eq_ok.mp h
    exact iff_of_false Bool.false_ne_true (Nat.lt_irrefl 0)
  | perform h o trail ih => exact further h ih trail
  | @tick e _ _ h now hgoesOn trail ih =>
    have hresumed : (e.resumed now).Honest :=
      (h.reached.honest.gets (gets_drained e)).gets (gets_resumed now e)
    rw [(trail_menuRequested_iff trail (e := (e.resumed now).lowered) hresumed).2]
    exact or_iff_right Bool.false_ne_true
  | cut h hends trail ih => exact further h ih trail
  | outside _ host hflag ih => exact (Bool.eq_iff_iff.mp hflag).trans ih

/-- The machine's next step after a call of `menu.update` is to ask for a menu, and no other request is
    counted.  A tick that is not cut short builds the menu once if a script has asked for it since a tick
    looked last, and not at all otherwise.  It looks after the due threads and before it builds, so
    what is asked for while it builds counts for the next one; and a tick that is cut short leaves
    all requests to the next one too. -/
theorem requests_served (h : Reached e) :
    (∀ (m : Machine) args origin heap,
      Machine.step Library.invoke m
          (m.enter Library.invoke (.builtin .menuUpdate) args origin heap) =
        .ask m .requestMenu heap (fun _ heap => .done [] heap)
          ⟨.builtin .menuUpdate, origin, m.siteOf (.builtin .menuUpdate) origin⟩) ∧
    (∃ n, Asked e n) ∧ ∀ n, Asked e n → ∀ now,
      (∃ b, Trail Pass e b e.drained) ∧ (∃ c, Trail Pass e.drained c (e.resumed now)) ∧
      ∀ b c, Trail Pass e b e.drained → Trail Pass e.drained c (e.resumed now) →
        if e.inbox.all (! ·.endsAll) then
          tick now e = (true,
            if 0 < n + b + c then (updateMenu "script" (e.resumed now).lowered).2
            else e.resumed now) ∧
          ∃ d, Trail Pass (e.resumed now).lowered d (tick now e).2 ∧ Asked (tick now e).2 d
        else tick now e = (false, e.drained) ∧ Asked e.drained (n + b) := by
  refine ⟨menuUpdate_asks, h.exists_asked, fun n hn now => ⟨gets_drained e, gets_resumed now e, ?_⟩⟩
  intro b c hb hc
  -- the three stretches add up: before the tick, while the inbox is drained, and while threads run
  obtain ⟨hdrained, hbefore⟩ := trail_menuRequested_iff hb h.honest
  have hasked : (e.resumed now).menuRequested ↔ 0 < n + b + c := by
    rw [(trail_menuRequested_iff hc hdrained).2, hbefore, hn.menuRequested_iff,
      Nat.add_pos_iff_pos_or_pos, Nat.add_pos_iff_pos_or_pos]
  have htick := tick_eq now e
  split
  · rename_i hgoesOn
    rw [if_pos hgoesOn] at htick
    have hlooks : (tick now e).1 := by rw [htick]
    obtain ⟨d, hd⟩ := gets_served now e hlooks
    refine ⟨?_, d, hd, hn.tick hlooks hd⟩
    rw [htick]
    simp only [hasked]
  · rename_i hends
    rw [if_neg hends] at htick
    -- the flag was not looked at, so what has been asked for still stands
    have hcut : ¬ (tick now e).1 := by
      rw [htick]
      exact Bool.false_ne_true
    have hafter : (tick now e).2 = e.drained := congrArg (·.2) htick
    exact ⟨htick, hafter ▸ hn.cut hcut (hafter.symm ▸ hb)⟩

/-- The first script of the kiosk asks for a menu, which its first tick serves. -/
theorem requests_served_kiosk : Reached (start kiosk).2 ∧ (start kiosk).2.menu = none ∧
    ∃ n, Asked (start kiosk).2 n ∧ 0 < n ∧
      tick 0 (start kiosk).2 =
        (true, (updateMenu "script" ((start kiosk).2.resumed 0).lowered).2) ∧
      (tick 0 (start kiosk).2).2.menu = some [.entry "script" false []] := by
  obtain ⟨hstarted, hnone, hasked⟩ := start_kiosk
  obtain ⟨-, ⟨n, hn⟩, hserved⟩ := requests_served reached_kiosk
  obtain ⟨⟨b, hb⟩, ⟨c, hc⟩, hserved⟩ := hserved n hn 0
  have hpos : 0 < n := hn.menuRequested_iff.mp hasked
  have hidle : (start kiosk).2.inbox = [] := hstarted.inbox
  have htick := hserved b c hb hc
  rw [if_pos (by rw [hidle]; rfl), if_pos (by omega)] at htick
  exact ⟨reached_kiosk, hnone, n, hn, hpos, htick.1, tick_kiosk.2⟩

/-- Nobody has asked for a menu of the engine whose host does. -/
theorem asked_nudged : Asked nudged 0 := by
  have hqueue : Trail Pass bare 0 nudged := .single (.inbox bare [.updateMenu "script"])
  exact (Asked.new new_bare).perform (.enqueue (.updateMenu "script")) hqueue

/-- That engine when it has taken the event and noted that, and is about to build the menu. -/
def poised : Engine := (record (.trace "host event: update_menu") { nudged with inbox := [] }).2

/-- The event alone has it build the menu with the trigger of scripts.  So it is not true that a
    tick does that only if a script has asked for a menu since a tick looked last. -/
theorem not_forall_script_asked : ¬ ∀ e n now k e', Asked e n → (tick now e).1 →
    Trail Pass e k e' → e.drained = (updateMenu "script" e').2 → 0 < n + k := by
  intro h
  have htick : (tick 0 nudged).1 := by
    rw [tick_eq]
    rfl
  have hpop : Trail Pass nudged 0 { nudged with inbox := [] } := .single (.inbox nudged [])
  have hpoised : Trail Pass nudged 0 poised := hpop.snoc (.act (.move (.machine (.record _ _))))
  exact Nat.lt_irrefl 0 (h nudged 0 0 0 poised asked_nudged htick hpoised rfl)

end OscHost.Engine
