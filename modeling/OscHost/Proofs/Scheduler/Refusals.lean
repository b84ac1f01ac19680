import OscHost.Proofs.Scheduler.Calls
/-!
  What failed operations leave behind.

  Before a thread is registered, what it is to run is looked up or compiled.  That may fail, and it may
  call functions of a script, but the scheduler has no part in it: a launch that comes to nothing
  leaves it as it is, and the number that the thread would have had is still free (`launch_refused`).
  From then on a launch cannot fail.  It comes to a first turn (`launch_begins`), and a caller who waits
  for values and sees none is told so; but the thread is there, in the state in which that turn has
  left it.

  A thread is resumed out of turn exactly if it is due.
-/

namespace OscHost.Runner

open Script

variable {r : Runner} {vm : Vm} {entry : Entry} {f : Value} {e : HostError}

/-! ## Schedulers that come about -/

theorem orderly_perform (h : r.scheduler.Orderly) (act : Act) :
    (r.perform act).scheduler.Orderly := by
  cases act with
  | launch entry args =>
    show (r.launch entry args).2.scheduler.Orderly
    obtain ⟨⟨found, vm⟩, hfound⟩ : ∃ x, entryFunction r.vm entry = x := ⟨_, rfl⟩
    cases found with
    | error e =>
      rw [launch_of_error hfound]
      exact h
    | ok f =>
      rw [launch_of_ok hfound]
      exact orderly_launch (r := { r with vm }) h entry.label f args
  | resume id args => exact orderly_resume h id args
  | tick now => exact orderly_tick h now
  | sweep => exact h.perform (w := world) .sweep r.vm
  | call f args => exact h
  | compute x => exact h
  | change f g => exact h

theorem orderly_performAll (h : r.scheduler.Orderly) (acts : List Act) :
    (performAll acts r).scheduler.Orderly := by
  induction acts generalizing r with
  | nil => exact h
  | cons act acts ih => exact ih (orderly_perform h act)

/-! ## Launches -/

/-- How the first turn of a thread that is to run an entry comes out, once what the entry stands for
    is found. -/
inductive Begins (r : Runner) (entry : Entry) (args : List Value) : Resumption → Prop
  | turn {f : Value} {vm : Vm} (found : entryFunction r.vm entry = (.ok f, vm)) :
      Begins r entry args ({ r with vm }.firstTurn f args).1

/-- Whether one thread more is registered, in some state, and no record of another has changed. -/
def Joined (r : Runner) (label : String) (state : ThreadState) (r' : Runner) : Prop :=
  r'.scheduler.nextId = r.scheduler.nextId + 1 ∧
    ∃ body, r'.scheduler.threads = r.scheduler.threads ++ [⟨r.scheduler.nextId, label, body, state⟩]

/-- A launch of a function comes to the first turn of a new thread. -/
theorem launch_function (h : r.scheduler.Orderly) (label : String) (f : Value) (args : List Value) :
    (r.launch (.function label f) args).1 =
        .ok (r.scheduler.nextId, ofResumption (r.firstTurn f args).1) ∧
      Joined r label ((ofResumption (r.firstTurn f args).1).state (r.launching label f).now)
        (r.launch (.function label f) args).2 := by
  have hturn := h.resumeThread_register world (r.launching label f).now label (r.vm.newThread f).1
    args (r.launchVm f)
  have hlaunching : r.launching label f = r.scheduler.register (r.launching label f).now label
    (r.vm.newThread f).1 := rfl
  constructor
  · refine (Scheduler.launch_fst_of_turn (congrArg (·.1) hturn)).trans ?_
    rw [world_resume]
    rfl
  · rw [launch_eq, hlaunching, hturn, world_resume]
    exact ⟨rfl, _, rfl⟩

/-- A launch that finds nothing to run does not reach the scheduler. -/
theorem launch_refused {e : HostError} (hfound : (entryFunction r.vm entry).1 = .error e)
    (args : List Value) : (r.launch entry args).1 = .error e ∧
      (r.launch entry args).2.scheduler = r.scheduler := by
  obtain ⟨⟨found, vm⟩, heq⟩ : ∃ x, entryFunction r.vm entry = x := ⟨_, rfl⟩
  rw [heq] at hfound
  obtain rfl : found = .error e := hfound
  rw [launch_of_error heq]
  exact ⟨rfl, rfl⟩

/-- A launch that finds something to run comes to a first turn. -/
theorem launch_begins (h : r.scheduler.Orderly) {args : List Value} {back : Resumption}
    (hbegins : Begins r entry args back) :
    (r.launch entry args).1 = .ok (r.scheduler.nextId, ofResumption back) ∧
      ∃ now, Joined r entry.label ((ofResumption back).state now) (r.launch entry args).2 := by
  cases hbegins with
  | @turn f vm found =>
    obtain ⟨hback, hjoined⟩ := launch_function (r := { r with vm }) h entry.label f args
    rw [launch_of_ok found]
    exact ⟨hback, _, hjoined⟩

/-- Every launch is of one of these two kinds. -/
theorem refused_or_begins (r : Runner) (entry : Entry) (args : List Value) :
    (∃ e, (entryFunction r.vm entry).1 = .error e) ∨ ∃ back, Begins r entry args back := by
  obtain ⟨⟨found, vm⟩, heq⟩ : ∃ x, entryFunction r.vm entry = x := ⟨_, rfl⟩
  cases found with
  | error e => exact .inl ⟨e, by rw [heq]⟩
  | ok f => exact .inr ⟨_, .turn heq⟩

/-! ## What a caller is told -/

theorem spawn_refused {e : HostError} (hfound : (entryFunction r.vm entry).1 = .error e)
    (args : List Value) : (r.spawn entry args).1 = .error e ∧
      (r.spawn entry args).2.scheduler = r.scheduler := by
  obtain ⟨herror, hsame⟩ := launch_refused hfound args
  rw [← (perform_launch r entry args).1]
  refine ⟨?_, hsame⟩
  unfold spawn
  generalize r.launch entry args = back at herror
  obtain ⟨_, r'⟩ := back
  obtain rfl := herror
  rfl

/-- Someone who waits for values has exactly those of a thread that has finished. -/
theorem awaited_ofResumption (id : Nat) (back : Resumption) :
    Scheduler.awaited id (ofResumption back) = match back with
      | .finished values => .ok values
      | .failed message => .error (.runtime message)
      | .yielded _ =>
        .error (.runtime ("thread " ++ threadName id ++ " suspended before returning")) := by
  cases back with
  | finished values => rfl
  | failed message => rfl
  | yielded values =>
    cases values with
    | nil => rfl
    | cons v rest =>
      unfold ofResumption ofYield
      dsimp only
      split <;> rfl

/-- Who has yielded is suspended. -/
theorem state_yielded (values : List Value) (now : Nat) :
    ∃ wakeAt, (ofResumption (.yielded values)).state now = .suspended wakeAt := by
  cases values with
  | nil => exact ⟨none, rfl⟩
  | cons v rest =>
    unfold ofResumption ofYield
    dsimp only
    split
    · exact ⟨_, rfl⟩
    · exact ⟨none, rfl⟩

theorem run_fst (r : Runner) (entry : Entry) (args : List Value) :
    (r.run entry args).1 =
      (r.launch entry args).1.bind fun back => Scheduler.awaited back.1 back.2 := by
  unfold run
  generalize r.launch entry args = back
  obtain ⟨found, r'⟩ := back
  cases found <;> rfl

theorem run_refused {e : HostError} (hfound : (entryFunction r.vm entry).1 = .error e)
    (args : List Value) : (r.run entry args).1 = .error e ∧
      (r.run entry args).2.scheduler = r.scheduler := by
  obtain ⟨herror, hsame⟩ := launch_refused hfound args
  rw [run_fst, herror, ← (perform_launch r entry args).2]
  exact ⟨rfl, hsame⟩

theorem run_begins (h : r.scheduler.Orderly) {args : List Value} {back : Resumption}
    (hbegins : Begins r entry args back) :
    (r.run entry args).1 = Scheduler.awaited r.scheduler.nextId (ofResumption back) ∧
      ∃ now, Joined r entry.label ((ofResumption back).state now) (r.run entry args).2 := by
  obtain ⟨hback, hjoined⟩ := launch_begins h hbegins
  rw [run_fst, hback, ← (perform_launch r entry args).2]
  exact ⟨rfl, hjoined⟩

/-- Whether a thread is there and may be resumed at a time. -/
def Due (r : Runner) (id now : Nat) : Prop :=
  ∃ t ∈ r.scheduler.threads, t.id = id ∧ t.state.isDue now

theorem due_iff (h : r.scheduler.Orderly) (id now : Nat) :
    Due r id now ↔ (r.scheduler.status id).any (·.isDue now) := by
  rw [Option.any_eq_true]
  constructor
  · rintro ⟨t, ht, rfl, hdue⟩
    exact ⟨t.state, h.status_eq_some ht, hdue⟩
  · rintro ⟨state, hstate, hdue⟩
    obtain ⟨t, ht, hid, rfl⟩ := Scheduler.status_mem hstate
    exact ⟨t, ht, hid, hdue⟩

theorem resume_fst (r : Runner) (id : Nat) (args : List Value) : (r.resume id args).1 =
    (r.scheduler.resume world r.readClock.1 id args r.readClock.2.vm).1 := rfl

/-- Who is due is resumed. -/
theorem resume_due (h : r.scheduler.Orderly) {id : Nat} (hdue : Due r id r.readClock.1)
    (args : List Value) : ∃ state, (r.resume id args).1 = .ok state := by
  obtain ⟨back, vm, -, hresume⟩ := Scheduler.resume_eq_of_due (w := world)
    ((due_iff h id r.readClock.1).mp hdue) args r.readClock.2.vm
  rw [resume_fst, hresume]
  exact ⟨_, rfl⟩

/-- Nobody else is, and then nothing but the time is noted. -/
theorem resume_not_due (h : r.scheduler.Orderly) {id : Nat} (hdue : ¬ Due r id r.readClock.1)
    (args : List Value) : (∃ e, (r.resume id args).1 = .error e) ∧
      (r.resume id args).2.scheduler = { r.scheduler with now := r.readClock.1 } := by
  obtain ⟨refusal, hresume⟩ := Scheduler.resume_eq_of_not_due (w := world)
    (mt (due_iff h id r.readClock.1).mpr hdue) args r.readClock.2.vm
  rw [resume_fst, resume_eq, hresume]
  exact ⟨⟨refusal, rfl⟩, rfl⟩

/-! ## All of it -/

/-- What it means that an operation fails, and what it leaves behind then. -/
structure FailsCleanly (r : Runner) : Prop where
  /-- A spawn fails exactly if what the entry stands for cannot be had, and for this reason. -/
  spawn_error : ∀ entry args e,
    (r.spawn entry args).1 = .error e ↔ (entryFunction r.vm entry).1 = .error e
  /-- Then no thread is registered and no number is used up. -/
  spawn_same : ∀ entry args e, (r.spawn entry args).1 = .error e →
    (r.spawn entry args).2.scheduler = r.scheduler
  /-- A run yields values exactly if the first turn has. -/
  run_ok : ∀ entry args values,
    (r.run entry args).1 = .ok values ↔ Begins r entry args (.finished values)
  /-- It fails if the first turn has, and the thread is there as a failed one. -/
  run_failed : ∀ entry args message, Begins r entry args (.failed message) →
    (r.run entry args).1 = .error (.runtime message) ∧
      Joined r entry.label (.failed message) (r.run entry args).2
  /-- It fails if the thread is suspended, and that goes on. -/
  run_suspended : ∀ entry args values, Begins r entry args (.yielded values) →
    (r.run entry args).1 = .error (.runtime
        ("thread " ++ threadName r.scheduler.nextId ++ " suspended before returning")) ∧
      ∃ wakeAt, Joined r entry.label (.suspended wakeAt) (r.run entry args).2
  /-- It fails for nothing else but what a spawn fails for. -/
  run_error : ∀ entry args e, (r.run entry args).1 = .error e →
    ((entryFunction r.vm entry).1 = .error e ∧ (r.run entry args).2.scheduler = r.scheduler) ∨
      (∃ message, Begins r entry args (.failed message)) ∨
        ∃ values, Begins r entry args (.yielded values)
  /-- A resumption fails exactly if no thread of that number is there or it is not due. -/
  resume_error : ∀ id args, (∃ e, (r.resume id args).1 = .error e) ↔
    id ∉ r.scheduler.ids ∨
      ∃ t ∈ r.scheduler.threads, t.id = id ∧ t.state.isDue r.readClock.1 = false
  /-- Then every thread is as before. -/
  resume_same : ∀ id args e, (r.resume id args).1 = .error e →
    (r.resume id args).2.scheduler.threads = r.scheduler.threads ∧
      (r.resume id args).2.scheduler.nextId = r.scheduler.nextId

theorem spawn_error_iff (h : r.scheduler.Orderly) (entry : Entry) (args : List Value)
    (e : HostError) :
    (r.spawn entry args).1 = .error e ↔ (entryFunction r.vm entry).1 = .error e := by
  refine ⟨fun herror => ?_, fun hfound => (spawn_refused hfound args).1⟩
  rcases refused_or_begins r entry args with ⟨e', hfound⟩ | ⟨back, hbegins⟩
  · obtain rfl := Except.error.inj ((spawn_refused hfound args).1.symm.trans herror)
    exact hfound
  · obtain ⟨hback, -⟩ := launch_begins h hbegins
    unfold spawn at herror
    generalize r.launch entry args = result at hback herror
    obtain ⟨_, r'⟩ := result
    obtain rfl := hback
    cases herror

theorem run_ok_iff (h : r.scheduler.Orderly) (entry : Entry) (args values : List Value) :
    (r.run entry args).1 = .ok values ↔ Begins r entry args (.finished values) := by
  refine ⟨fun hok => ?_, fun hbegins => (run_begins h hbegins).1⟩
  rcases refused_or_begins r entry args with ⟨e, hfound⟩ | ⟨back, hbegins⟩
  · rw [(run_refused hfound args).1] at hok
    cases hok
  · rw [(run_begins h hbegins).1, awaited_ofResumption] at hok
    cases back with
    | finished values' =>
      cases hok
      exact hbegins
    | failed message => cases hok
    | yielded values' => cases hok

theorem resume_error_iff (h : r.scheduler.Orderly) (id : Nat) (args : List Value) :
    (∃ e, (r.resume id args).1 = .error e) ↔ ¬ Due r id r.readClock.1 := by
  refine ⟨fun ⟨e, herror⟩ hdue => ?_, fun hdue => (resume_not_due h hdue args).1⟩
  obtain ⟨state, hok⟩ := resume_due h hdue args
  rw [hok] at herror
  cases herror

theorem not_due_iff (h : r.scheduler.Orderly) (id now : Nat) : ¬ Due r id now ↔
    id ∉ r.scheduler.ids ∨ ∃ t ∈ r.scheduler.threads, t.id = id ∧ t.state.isDue now = false := by
  constructor
  · intro hdue
    by_cases hid : id ∈ r.scheduler.ids
    · obtain ⟨t, ht, rfl⟩ := List.mem_map.mp hid
      exact .inr ⟨t, ht, rfl, Bool.not_eq_true _ ▸ fun hd => hdue ⟨t, ht, rfl, hd⟩⟩
    · exact .inl hid
  · rintro (hid | ⟨t, ht, rfl, hearly⟩) ⟨t', ht', hid', hdue⟩
    · exact hid (hid' ▸ Scheduler.mem_ids ht')
    · obtain rfl := h.unique ht' ht hid'
      rw [hearly] at hdue
      cases hdue

theorem failsCleanly (h : r.scheduler.Orderly) : FailsCleanly r where
  spawn_error := spawn_error_iff h
  spawn_same := fun entry args e herror =>
    (spawn_refused ((spawn_error_iff h entry args e).mp herror) args).2
  run_ok := run_ok_iff h
  run_failed := by
    intro entry args message hbegins
    obtain ⟨hrun, now, hjoined⟩ := run_begins h hbegins
    exact ⟨hrun, hjoined⟩
  run_suspended := by
    intro entry args values hbegins
    obtain ⟨hrun, now, hjoined⟩ := run_begins h hbegins
    obtain ⟨wakeAt, hstate⟩ := state_yielded values now
    rw [awaited_ofResumption] at hrun
    exact ⟨hrun, wakeAt, hstate ▸ hjoined⟩
  run_error := by
    intro entry args e herror
    -- an error comes of an entry that cannot be had, or of a first turn that yields no values
    rcases refused_or_begins r entry args with ⟨e', hfound⟩ | ⟨back, hbegins⟩
    · obtain ⟨hrun, hsame⟩ := run_refused hfound args
      obtain rfl := Except.error.inj (hrun.symm.trans herror)
      exact .inl ⟨hfound, hsame⟩
    · cases back with
      | failed message => exact .inr (.inl ⟨message, hbegins⟩)
      | yielded values => exact .inr (.inr ⟨values, hbegins⟩)
      | finished values =>
        rw [(run_ok_iff h entry args values).mpr hbegins] at herror
        cases herror
  resume_error := fun id args =>
    (resume_error_iff h id args).trans (not_due_iff h id r.readClock.1)
  resume_same := by
    intro id args e herror
    have hdue := (resume_error_iff h id args).mp ⟨e, herror⟩
    rw [(resume_not_due h hdue args).2]
    exact ⟨rfl, rfl⟩

/-- Whatever the owner and the scripts have done so far, an operation that fails leaves the threads in
    order. -/
theorem operations_fail_cleanly (host : Host) (acts : List Act) :
    FailsCleanly (performAll acts (start host)) :=
  failsCleanly (orderly_performAll (sound_start host).orderly acts)

end OscHost.Runner
