import OscHost.Proofs.Scheduler.Agreement
/-!
  Functions that the host calls on threads of their own.

  To call a function of a script, the host registers a thread with a new coroutine of the function and
  resumes that once.  So exactly one thread more is there afterwards, and what its coroutine begins
  with is a call of the function with the arguments of the host, with nothing below it
  (`Runner.CallsOnce`).  Whatever the function does from there on, and whether it ends, fails or is
  suspended, the call was made once.

  Scripts name their functions by globals.  Looking one up may call a function as well; if the name is
  found at once, it does nothing to the machine (`Vm.global_eq`).
-/

namespace OscHost

open Script

/-! ## First turns -/

/-- A new coroutine is entered by a call of its function. -/
theorem Script.Machine.awaken_new {m : Machine} {n : Nat} {f : Value}
    (h : m.coroutines[n]? = some { body := f }) (invoke : Value → List Value → Lib (List Value))
    (args : List Value) (heap : Heap) : ∃ m' : Machine, m'.thread = some n ∧ m'.frames = [] ∧
      m'.resumers = m.resumers ∧
      m.awaken invoke n args heap = (m', m'.enter invoke f args none heap) := by
  have hbody : m.bodyOf n = f := by
    unfold bodyOf
    rw [h]
  have hframes : m.framesOf n = [] := by
    unfold framesOf
    rw [h]
  unfold awaken
  rw [hbody, hframes]
  refine ⟨_, ?_, ?_, ?_, rfl⟩
  · rfl
  · rfl
  · rfl

/-- Values that nothing waits for end a run. -/
theorem Script.Machine.step_values {m : Machine} (hframes : m.frames = [])
    (hresumers : m.resumers = []) (vs : List Value) (heap : Heap) :
    ∃ m', step Library.invoke m (.values vs heap) = .ended (.finished vs) m' heap := by
  have hsame : (m.stand m.thread .dead).resumers = m.resumers := by
    cases m.thread <;> rfl
  show ∃ m', giveBack m vs heap = _
  unfold giveBack
  rw [hframes]
  dsimp only
  unfold leave
  dsimp only
  rw [hsame, hresumers]
  exact ⟨_, rfl⟩

namespace Runner

/-- How a new thread hands back control for the first time, and the machine then. -/
def firstTurn (r : Runner) (f : Value) (args : List Value) : Resumption × Vm :=
  (r.launchVm f).resume (r.vm.newThread f).1 args

/-- Whether a function was called once, with some arguments, on a new thread, and no other thread was
    resumed. -/
structure CallsOnce (label : String) (f : Value) (args : List Value) (r r' : Runner) : Prop where
  /-- Nobody has had the coroutine of the thread before. -/
  fresh : r.vm.machine.coroutines[(r.vm.newThread f).1]? = none
  /-- Its first turn begins with a call of the function, below which there is nothing. -/
  called : ∃ m, m.thread = some (r.vm.newThread f).1 ∧ m.frames = [] ∧
    r.firstTurn f args = Vm.settleThread (Vm.runFrom (r.launchVm f).host m
      (m.enter Library.invoke f args none (r.launchVm f).heap))
  /-- One thread more is registered, as it stands after that turn. -/
  threads : r'.scheduler.threads = r.scheduler.threads ++ [⟨r.scheduler.nextId, label,
    (r.vm.newThread f).1, (ofResumption (r.firstTurn f args).1).state (r.launching label f).now⟩]
  vm : r'.vm = (r.firstTurn f args).2.records (Scheduler.report ⟨r.scheduler.nextId, label,
    (r.vm.newThread f).1, .runnable⟩ (ofResumption (r.firstTurn f args).1))

variable {r : Runner}

/-- A new coroutine begins with a call of its function. -/
theorem firstTurn_eq (r : Runner) (f : Value) (args : List Value) :
    ∃ m, m.thread = some (r.vm.newThread f).1 ∧ m.frames = [] ∧ m.resumers = [] ∧
      r.firstTurn f args = Vm.settleThread (Vm.runFrom (r.launchVm f).host m
        (m.enter Library.invoke f args none (r.launchVm f).heap)) := by
  have hnew : (r.launchVm f).machine.coroutines[(r.vm.newThread f).1]? = some { body := f } := by
    rw [machine_launchVm]
    exact (getElem?_newCoroutine r.vm.machine f).2
  have hstanding : (r.launchVm f).machine.standing (r.vm.newThread f).1 = .suspended := by
    unfold Machine.standing
    rw [hnew]
  obtain ⟨m, hthread, hframes, hresumers, hawaken⟩ := Machine.awaken_new
    (m := { (r.launchVm f).machine with base := 1, resumers := [] }) hnew Library.invoke args
    (r.launchVm f).heap
  refine ⟨m, hthread, hframes, hresumers, ?_⟩
  unfold firstTurn
  rw [Vm.resume_eq hstanding]
  unfold Vm.runThread Vm.resumption
  rw [hawaken]

/-- A function of a script begins with its code. -/
theorem firstTurn_closure {id : Nat} {c : Closure} (hc : r.vm.heap.closures[id]? = some c)
    (hp : c.proto.slots ≤ Machine.maxExtent) (args : List Value) :
    ∃ m, m.frames = [] ∧ m.resumers = [] ∧ r.firstTurn (.closure id) args =
      Vm.settleThread (Vm.runFrom (r.launchVm (.closure id)).host m
        (.script (.start id c args none) r.vm.heap)) := by
  obtain ⟨m, -, hframes, hresumers, hturn⟩ := r.firstTurn_eq (.closure id) args
  have hextent : m.extent + c.proto.slots ≤ Machine.maxExtent := by
    unfold Machine.extent
    rw [hframes]
    dsimp only
    rw [Nat.zero_add]
    exact hp
  refine ⟨m, hframes, hresumers, ?_⟩
  rw [hturn]
  exact congrArg (fun f => Vm.settleThread (Vm.runFrom _ m f))
    (Moment.enter_closure (h := r.vm.heap) hc hextent)

/-- If that returns without a call, so does the first turn. -/
theorem firstTurn_of_returned {id : Nat} {c : Closure} {args vs : List Value} {heap : Heap}
    {y : Activation} (hc : r.vm.heap.closures[id]? = some c)
    (hp : c.proto.slots ≤ Machine.maxExtent)
    (hrun : Activation.run Machine.burst r.vm.heap (.start id c args none) = ⟨heap, y, .returned vs⟩) :
    ∃ m, r.firstTurn (.closure id) args =
      (.finished vs, ⟨heap, m, (r.launchVm (.closure id)).host⟩) := by
  obtain ⟨m, hframes, hresumers, hturn⟩ := r.firstTurn_closure hc hp args
  obtain ⟨m', hended⟩ := m.step_values hframes hresumers vs heap
  rw [hturn, Moment.runFrom_of_steps (Moment.step_returned hrun) hended]
  exact ⟨_, rfl⟩

/-- Writing some log records is writing one after the other. -/
theorem records_eq (lines : List LogRecord) (vm : Vm) :
    vm.records lines = lines.foldl (fun vm line => world.record line vm) vm := by
  induction lines generalizing vm with
  | nil => rfl
  | cons line lines ih => exact ih (vm.record line)

/-- A launch calls the function once. -/
theorem callsOnce_launch (h : r.scheduler.Orderly) (label : String) (f : Value)
    (args : List Value) : CallsOnce label f args r (r.launch (.function label f) args).2 := by
  have hturn := h.resumeThread_register world (r.launching label f).now label (r.vm.newThread f).1
    args (r.launchVm f)
  rw [launch_eq]
  have hlaunching : r.launching label f = r.scheduler.register (r.launching label f).now label
    (r.vm.newThread f).1 := rfl
  rw [hlaunching, hturn]
  obtain ⟨m, hthread, hframes, -, hcalled⟩ := r.firstTurn_eq f args
  refine ⟨(getElem?_newCoroutine r.vm.machine f).1, ⟨m, hthread, hframes, hcalled⟩, rfl, ?_⟩
  unfold firstTurn
  dsimp only
  rw [world_resume]
  generalize (r.launchVm f).resume (r.vm.newThread f).1 args = back
  exact (records_eq _ back.2).symm

/-- To spawn a function is to launch it, which never fails. -/
theorem spawn_eq (r : Runner) (label : String) (f : Value) (args : List Value) :
    r.spawn (.function label f) args =
      (.ok r.scheduler.nextId, (r.launch (.function label f) args).2) := by
  obtain ⟨back, vm, hlaunch⟩ := r.scheduler.launch_eq world (r.launching label f).now label
    (r.vm.newThread f).1 args (readClock { r with vm := (r.vm.newThread f).2 }).2.vm
  have hok : (r.launch (.function label f) args).1 = .ok (r.scheduler.nextId, back) :=
    congrArg (·.1) hlaunch
  unfold spawn
  generalize r.launch (.function label f) args = result at hok ⊢
  obtain ⟨_, r'⟩ := result
  obtain rfl := hok
  rfl

end Runner

/-! ## Globals that are there -/

namespace Vm

/-- Reading an entry that is there calls nothing. -/
theorem action_entryOf {heap : Heap} {o v : Value} {name : String}
    (hfound : Lib.lookup heap o (.text name) = .found v) (s : Site) :
    (entryOf o name).action s heap = .done [v] heap := by
  have hindex (k : Value → Heap → Action) :
      Lib.indexFrom o (.text name) none (1999 + 1) s k heap = k v heap := by
    unfold Lib.indexFrom
    dsimp only [bind, Lib.read]
    rw [hfound]
    rfl
  exact hindex fun v h => .done [v] h

/-- Values that nothing waits for are what a run ends with. -/
theorem runFrom_done {vm : Vm} (hthread : vm.machine.thread = none)
    (hframes : vm.machine.frames = []) (hresumers : vm.machine.resumers = []) (vs : List Value)
    (c : Context) :
    runFrom vm.host vm.machine (.library (.done vs vm.heap) c) = (.finished vs, vm) := by
  obtain ⟨heap, ⟨coroutines, thread, frames, base, resumers⟩, host⟩ := vm
  obtain rfl := hthread
  obtain rfl := hframes
  obtain rfl := hresumers
  rfl

/-- A global name that is found without a call. -/
theorem global_eq {vm : Vm} {name : String} {v : Value} (hthread : vm.machine.thread = none)
    (hframes : vm.machine.frames = []) (hresumers : vm.machine.resumers = [])
    (hfound : Lib.lookup vm.heap vm.heap.globalsValue (.text name) = .found v) :
    vm.global name = (.ok v, vm) := by
  have hcompute : vm.compute (entryOf vm.heap.globalsValue name) = (.ok [v], vm) := by
    show settle (runFrom vm.host vm.machine (.library ((entryOf vm.heap.globalsValue name).action
      Machine.hostSite vm.heap) Machine.hostContext)) = _
    rw [action_entryOf hfound, runFrom_done hthread hframes hresumers]
    rfl
  unfold global field
  rw [hcompute]
  rfl

end Vm

end OscHost
