import OscHost.Proofs.Menus.Configuration
import OscHost.Proofs.Scheduler.Refusals
/-!
  Scripts that return at once.

  Code that comes to its end without a call, or with no other call than one of `menu.update`, is done in
  the first turn of its thread.  So whatever the engine runs it for goes on with its values, the thread
  has ended, and the host is as it was but for its clock and its log, and for the request
  (`Runner.firstTurn_of_menuUpdate`).  What the engine finds when it runs the next script is what it found
  before (`Engine.Stays`).
-/

namespace OscHost

open Files Script

/-! ## Threads that have ended -/

namespace Runner

variable {r : Runner} {vm : Vm} {f : Value} {args vs : List Value}

/-- Whether all threads have ended. -/
structure Settled (r : Runner) : Prop where
  order : r.scheduler.Orderly
  ended : ∀ t ∈ r.scheduler.threads, t.state.isTerminal

/-- A thread that ends in its first turn has handed back its values. -/
theorem launch_of_finished (h : r.Settled) (label : String)
    (hturn : r.firstTurn f args = (.finished vs, vm)) :
    ∃ k, r.launch (.function label f) args = (.ok (r.scheduler.nextId, .finished vs), ⟨vm, k⟩) ∧
      Settled ⟨vm, k⟩ := by
  obtain ⟨hback, -⟩ := launch_function h.order label f args
  obtain ⟨-, -, hthreads, hvm⟩ := callsOnce_launch h.order label f args
  have horder := orderly_launch h.order label f args
  rw [hturn] at hback hthreads hvm
  generalize r.launch (.function label f) args = launched at hback hthreads hvm horder ⊢
  obtain ⟨_, ⟨vm', k⟩⟩ := launched
  obtain rfl := hback
  obtain rfl : vm' = vm := hvm
  refine ⟨k, rfl, horder, fun t ht => ?_⟩
  rw [show k.threads = _ from hthreads] at ht
  obtain ht | ht := List.mem_append.mp ht
  · exact h.ended t ht
  · rw [List.mem_singleton.mp ht]
    rfl

theorem run_of_finished (h : r.Settled) (label : String)
    (hturn : r.firstTurn f args = (.finished vs, vm)) :
    ∃ k, r.run (.function label f) args = (.ok vs, ⟨vm, k⟩) ∧ Settled ⟨vm, k⟩ := by
  obtain ⟨k, hlaunch, hk⟩ := launch_of_finished h label hturn
  unfold run
  rw [hlaunch]
  exact ⟨k, rfl, hk⟩

theorem spawn_of_finished (h : r.Settled) (label : String)
    (hturn : r.firstTurn f args = (.finished vs, vm)) :
    ∃ k, r.spawn (.function label f) args = (.ok r.scheduler.nextId, ⟨vm, k⟩) ∧ Settled ⟨vm, k⟩ := by
  obtain ⟨k, hlaunch, hk⟩ := launch_of_finished h label hturn
  rw [spawn_eq, hlaunch]
  exact ⟨k, rfl, hk⟩

/-- A tick has nobody to resume then. -/
theorem tick_of_settled (h : r.Settled) (now : Nat) :
    (r.tick now).vm = r.vm ∧ (r.tick now).Settled := by
  have hdue : r.scheduler.due now = [] := by
    refine List.eq_nil_iff_forall_not_mem.mpr fun id hid => ?_
    obtain ⟨t, ht, hdue, -⟩ := Scheduler.mem_due.mp hid
    have hended := h.ended t ht
    rw [not_terminal_of_due hdue] at hended
    cases hended
  have horder := orderly_tick h.order now
  rw [tick_eq] at horder ⊢
  unfold Scheduler.tick at horder ⊢
  rw [hdue] at horder ⊢
  exact ⟨rfl, horder, fun t ht => h.ended t (List.mem_of_mem_filter ht)⟩

/-- The first turn of a function of a script that calls `menu.update` and then returns. -/
theorem firstTurn_of_menuUpdate {id : Nat} {c : Closure} {given : List Value} {origin : Option Origin}
    {y z : Activation} (hc : r.vm.heap.closures[id]? = some c) (hp : c.proto.slots ≤ Machine.maxExtent)
    (hcall : Activation.run Machine.burst r.vm.heap (.start id c args none) =
      ⟨r.vm.heap, y, .call (.builtin .menuUpdate) given origin⟩)
    (hreturn : Activation.run Machine.burst r.vm.heap (y.deliver []) = ⟨r.vm.heap, z, .returned vs⟩) :
    ∃ m, r.firstTurn (.closure id) args = (.finished vs,
      ⟨r.vm.heap, m, { (r.launchVm (.closure id)).host with menuRequested := true }⟩) := by
  obtain ⟨m, hframes, hresumers, hturn⟩ := r.firstTurn_closure hc hp args
  obtain ⟨m', hended⟩ := m.step_values hframes hresumers vs r.vm.heap
  have hfuel : Vm.fuel = 0x3FFFFFFFFFFFFFFA + 1 + 1 + 1 + 1 + 1 + 1 := rfl
  have hanswered (caller : Context) : Machine.step Library.invoke (m.hold y)
      (.library (.done [] r.vm.heap) caller) = .next (m.hold y) (.values [] r.vm.heap) := rfl
  have hback : Machine.step Library.invoke (m.hold y) (.values [] r.vm.heap) =
    .next m (.script (y.deliver []) r.vm.heap) := rfl
  rw [hturn]
  unfold Vm.runFrom
  rw [hfuel, Machine.run, Moment.step_call hcall]
  dsimp only
  rw [Machine.run, menuUpdate_asks]
  dsimp only [Host.perform]
  rw [Machine.run, hanswered]
  dsimp only
  rw [Machine.run, hback]
  dsimp only
  rw [Machine.run, Moment.step_returned hreturn]
  dsimp only
  rw [Machine.run, hended]
  exact ⟨_, rfl⟩

end Runner

/-! ## Code that returns at once -/

/-- Whether code that is given some arguments returns without a call, whatever the heap is. -/
structure Script.Proto.Returns (p : Proto) (args : List Value) (vs : Heap → List Value)
    (after : Heap → Heap) : Prop where
  slots : p.slots ≤ Machine.maxExtent
  run : ∀ h id cells, ∃ y, Activation.run Machine.burst h (.start id ⟨p, cells⟩ args none) =
    ⟨after h, y, .returned (vs h)⟩

namespace Engine

variable {e e' : Engine} {path trigger : String} {code : Proto} {args vs : List Value}
  {items : List MenuItem}

/-- What decides which scripts the engine finds. -/
def shelf (e : Engine) : Tree × Surroundings × Jail × Config :=
  (e.runner.vm.host.tree, e.runner.vm.host.around, e.runner.vm.host.scriptJail, e.config)

/-- Whether the same scripts are found afterwards and the same events wait, and no thread is left behind that
    has not ended. -/
structure Stays (e e' : Engine) : Prop where
  shelf : e'.shelf = e.shelf
  inbox : e'.inbox = e.inbox
  settled : e.runner.Settled → e'.runner.Settled

theorem Stays.trans {e'' : Engine} (h : e.Stays e') (h' : e'.Stays e'') : e.Stays e'' :=
  ⟨h'.shelf.trans h.shelf, h'.inbox.trans h.inbox, h'.settled ∘ h.settled⟩

theorem stays_record (r : LogRecord) (e : Engine) : e.Stays (record r e).2 :=
  ⟨rfl, rfl, fun h => ⟨h.order, h.ended⟩⟩

theorem stays_firstTree (values : List Value) (e : Engine) : e.Stays (firstTree values e).2 := by
  let tree := Trees.ofValue e.runner.vm.heap (firstOf values)
  have hframe := Host.records_frame e.runner.vm.host tree.log
  have htree := Host.records_tree e.runner.vm.host tree.log
  refine ⟨?_, rfl, fun h => ⟨h.order, h.ended⟩⟩
  show ((e.runner.vm.host.records tree.log).tree, (e.runner.vm.host.records tree.log).frame.around,
    (e.runner.vm.host.records tree.log).frame.scriptJail, e.config) = _
  rw [htree, hframe]
  rfl

/-- Whether some code is found for a script. -/
structure Finds (e : Engine) (path : String) (code : Proto) : Prop where
  file : e.runner.vm.host.tree.isFile (e.scriptPath path)
  loads : ∃ source, e.runner.vm.host.loadScript (some path) = .ok source ∧
    compileText ("@" ++ source.name).toUTF8 source.text.toUTF8 = .ok code

theorem isFile_of_stays (path : String) (hs : e.Stays e') :
    e'.runner.vm.host.tree.isFile (e'.scriptPath path) =
      e.runner.vm.host.tree.isFile (e.scriptPath path) := by
  obtain ⟨htree, haround, -, hconfig⟩ : _ = _ ∧ _ = _ ∧ _ = _ ∧ _ = _ := by
    simpa only [shelf, Prod.mk.injEq] using hs.shelf
  unfold scriptPath Host.absolute
  rw [htree, haround, hconfig]

theorem Finds.of_stays (h : e.Finds path code) (hs : e.Stays e') : e'.Finds path code := by
  obtain ⟨htree, haround, hjail, -⟩ : _ = _ ∧ _ = _ ∧ _ = _ ∧ _ = _ := by
    simpa only [shelf, Prod.mk.injEq] using hs.shelf
  have hload : e'.runner.vm.host.loadScript (some path) = e.runner.vm.host.loadScript (some path) := by
    unfold Host.loadScript Host.readText Host.absolute
    rw [htree, haround, hjail]
  exact ⟨(isFile_of_stays path hs).trans h.file, hload ▸ h.loads⟩

/-- The heap once some code has been made a function. -/
def opened (e : Engine) (code : Proto) : Heap :=
  (e.runner.vm.heap.newChunk code e.runner.vm.heap.globalsValue).2

/-- The runner with that heap. -/
def opening (e : Engine) (code : Proto) : Runner :=
  { e.runner with vm := { e.runner.vm with heap := e.opened code } }

theorem Finds.loadScript (h : e.Finds path code) : onVm (·.loadScript path) e =
    (.ok (.closure e.runner.vm.heap.closures.size), { e with runner := e.opening code }) := by
  obtain ⟨source, hload, hcode⟩ := h.loads
  rw [onVm_apply]
  unfold Vm.loadScript
  rw [hload]
  dsimp only
  rw [hcode]
  rfl

theorem closure_opened (e : Engine) (code : Proto) :
    (e.opened code).closures[e.runner.vm.heap.closures.size]? =
      some ⟨code, #[e.runner.vm.heap.cells.size]⟩ :=
  Array.getElem?_push_size

/-- A configuration script yields what its code returns. -/
theorem runConfigScript_of_returns {vs : Heap → List Value} {after : Heap → Heap}
    (he : e.runner.Settled) (hf : e.Finds path code) (hc : code.Returns args vs after) :
    ∃ e', runConfigScript path args e = (.ok (some (vs (e.opened code))), e') ∧ e.Stays e' ∧
      e'.runner.vm.heap = after (e.opened code) := by
  have hopened : (e.opening code).Settled := ⟨he.order, he.ended⟩
  obtain ⟨y, hrun⟩ := hc.run (e.opened code) e.runner.vm.heap.closures.size
    #[e.runner.vm.heap.cells.size]
  obtain ⟨m, hturn⟩ := Runner.firstTurn_of_returned (r := e.opening code) (e.closure_opened code)
    hc.slots hrun
  obtain ⟨k, hran, hk⟩ := Runner.run_of_finished hopened path hturn
  rw [runConfigScript_apply, if_pos hf.file, hf.loadScript]
  dsimp only
  rw [onRunner_apply]
  dsimp only
  rw [hran]
  exact ⟨_, rfl, ⟨rfl, rfl, fun _ => hk⟩, rfl⟩

/-! ## Building the menu -/

theorem buildMenu_of_values (hrun : runConfigScript menuScript [.text trigger] e =
    (.ok (some vs), e')) : buildMenu trigger e =
      ((Menu.parse (firstTree vs e').1).map some, (firstTree vs e').2) := by
  unfold buildMenu
  rw [bind_apply, hrun]
  dsimp only
  rw [bind_apply]
  generalize firstTree vs e' = read
  obtain ⟨tree, read⟩ := read
  dsimp only
  cases Menu.parse tree with
  | error error => rfl
  | ok items => rfl

/-- Items that are returned are the menu from then on. -/
theorem updateMenu_of_items (hrun : runConfigScript menuScript [.text trigger] e = (.ok (some vs), e'))
    (hparse : Menu.parse (firstTree vs e').1 = .ok items) : (updateMenu trigger e).1 = true ∧
      (updateMenu trigger e).2.menu = some items ∧ e'.Stays (updateMenu trigger e).2 := by
  have hread := stays_firstTree vs e'
  unfold updateMenu
  rw [bind_apply, buildMenu_of_values hrun, hparse]
  generalize (firstTree vs e').2 = read at hread ⊢
  show _ ∧ (present items read).2.menu = _ ∧ e'.Stays (present items read).2
  unfold present
  rw [bind_apply, get_apply]
  dsimp only
  split
  · exact ⟨rfl, rfl, hread.trans ⟨rfl, rfl, fun h => ⟨h.order, h.ended⟩⟩⟩
  · exact ⟨rfl, rfl, hread.trans ⟨rfl, rfl, fun h => ⟨h.order, h.ended⟩⟩⟩

/-- Anything else is told. -/
theorem updateMenu_of_malformed {error : HostError}
    (hrun : runConfigScript menuScript [.text trigger] e = (.ok (some vs), e'))
    (hparse : Menu.parse (firstTree vs e').1 = .error error) : (updateMenu trigger e).1 = false ∧
      e'.Stays (updateMenu trigger e).2 := by
  unfold updateMenu
  rw [bind_apply, buildMenu_of_values hrun, hparse]
  exact ⟨rfl, (stays_firstTree vs e').trans (stays_record _ _)⟩

/-! ## The first scripts -/

/-- There need not be a script for the configuration. -/
theorem stays_configure (h : e.runner.vm.host.tree.isFile (e.scriptPath configScript) = false) :
    e.Stays (configure e).2 := by
  have hrun : runConfigScript configScript [] e = (.ok none, e) := by
    rw [runConfigScript_apply, h]
    rfl
  unfold configure
  rw [bind_apply, loadConfig_apply, readConfig_apply, hrun]
  exact stays_record _ e

theorem start_eq (e : Engine) :
    (start e).2 = (updateMenu "startup" (configure (runEntryScript e).2).2).2 := by
  unfold start
  rw [bind_apply, bind_apply]
  generalize (configure (runEntryScript e).2).2 = configured
  rfl

/-- The first script may do nothing else than to call `menu.update`. -/
theorem runEntryScript_of_menuUpdate {given : List Value} {origin : Option Origin} {y z : Activation}
    (he : e.runner.Settled) (hf : e.Finds entryScript code) (hp : code.slots ≤ Machine.maxExtent)
    (hcall : Activation.run Machine.burst (e.opened code) (.start e.runner.vm.heap.closures.size
      ⟨code, #[e.runner.vm.heap.cells.size]⟩ [] none) =
        ⟨e.opened code, y, .call (.builtin .menuUpdate) given origin⟩)
    (hreturn : Activation.run Machine.burst (e.opened code) (y.deliver []) =
      ⟨e.opened code, z, .returned vs⟩) :
    e.Stays (runEntryScript e).2 ∧ (runEntryScript e).2.runner.vm.host.menuRequested := by
  have hopened : (e.opening code).Settled := ⟨he.order, he.ended⟩
  obtain ⟨m, hturn⟩ := Runner.firstTurn_of_menuUpdate (r := e.opening code) (e.closure_opened code)
    hp hcall hreturn
  obtain ⟨k, hspawned, hk⟩ := Runner.spawn_of_finished hopened entryScript hturn
  have hfound : hasScript entryScript e = (true, e) := congrArg (·, e) hf.file
  have hleft : (spawnFunction entryScript (.closure e.runner.vm.heap.closures.size) []
      { e with runner := e.opening code }).2 = { e with runner := ⟨⟨e.opened code, m,
        { ((e.opening code).launchVm (.closure e.runner.vm.heap.closures.size)).host with
          menuRequested := true }⟩, k⟩ } := by
    unfold spawnFunction
    rw [bind_apply, onRunner_apply]
    dsimp only
    rw [hspawned]
    rfl
  have hran : (runEntryScript e).2 = (spawnFunction entryScript
      (.closure e.runner.vm.heap.closures.size) [] { e with runner := e.opening code }).2 := by
    unfold runEntryScript
    rw [bind_apply, hfound]
    dsimp only
    rw [if_pos rfl, bind_apply, hf.loadScript]
    rfl
  rw [hran, hleft]
  exact ⟨⟨rfl, rfl, fun _ => hk⟩, rfl⟩

end Engine

end OscHost
