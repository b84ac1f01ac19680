import OscHost.Proofs.FirstSteps
import OscHost.Proofs.Resumption
import OscHost.Proofs.Scheduler.Operations
import OscHost.Runner
/-!
  Threads and their coroutines.

  A scheduler keeps a state for every thread, and the machine keeps how the coroutine of that thread
  stands.  The two agree as long as only the scheduler sees the coroutine end.  Scripts share their
  globals and can pass coroutines to each other: one that closes the coroutine of a thread, or resumes
  it and sees it end, does so behind the scheduler's back.  Then the thread stays suspended, and its
  next turn fails although its body has not.

  An `Act` is something that the owner of the scheduler does.  The invariant is `Agree`; one turn of a
  thread keeps it, and so does everything else.
-/

namespace OscHost

open Script

/-- Whether the state of a thread says how its coroutine is. -/
def ThreadState.Fits (co : Coroutine) : ThreadState → Prop
  | .runnable | .suspended _ => co.standing = .suspended ∧ co.remains.failure = none
  | .finished => co.standing = .dead ∧ co.remains.failure = none
  | .failed _ => co.standing = .dead ∧ co.remains.failure ≠ none

namespace Runner

variable {k : Scheduler Nat} {vm vm' : Vm} {lost lost' : List Nat} {r : Runner}

/-- A thread is left in the state that its coroutine is left in. -/
theorem fits_ofResumption {co : Coroutine} {b : Resumption} (h : b.Fits co) (now : Nat) :
    ((ofResumption b).state now).Fits co := by
  cases b with
  | finished values => exact h
  | failed message => exact h
  | yielded values =>
    cases values with
    | nil => exact h
    | cons v rest =>
      unfold ofResumption ofYield
      dsimp only
      split <;> exact h

/-! ## The invariant -/

/-- Whether the threads of a scheduler agree with their coroutines, those aside that are lost. -/
structure Agree (k : Scheduler Nat) (vm : Vm) (lost : List Nat) : Prop where
  unique : k.ids.Nodup
  idle : vm.Idle
  fits : ∀ t ∈ k.threads, t.body ∉ lost →
    ∃ co, vm.machine.coroutines[t.body]? = some co ∧ t.state.Fits co
  apart : ∀ t ∈ k.threads, ∀ t' ∈ k.threads, t.body ∉ lost → t'.body = t.body → t'.id = t.id

/-- A coroutine that is not resumed goes on fitting. -/
theorem fits_course {co : Coroutine} {n : Nat} {state : ThreadState} (hc : vm.Course lost vm')
    (hn : n ∉ lost) (hco : vm.machine.coroutines[n]? = some co) (hf : state.Fits co) :
    ∃ co, vm'.machine.coroutines[n]? = some co ∧ state.Fits co := by
  cases state with
  | runnable => exact hc.suspended n hn ⟨co, hco, hf⟩
  | suspended wake => exact hc.suspended n hn ⟨co, hco, hf⟩
  | finished => exact ⟨co, hc.dead n hn co hco hf.1, hf⟩
  | failed message => exact ⟨co, hc.dead n hn co hco hf.1, hf⟩

/-- What the host does with its machine between two turns. -/
theorem Agree.course (h : Agree k vm lost) (hc : vm.Course lost' vm') :
    Agree k vm' (lost ++ lost') := by
  refine ⟨h.unique, hc.idle, fun t ht hn => ?_, fun t ht t' ht' hn => ?_⟩
  · obtain ⟨hn, hn'⟩ := not_or.mp (mt List.mem_append.mpr hn)
    obtain ⟨co, hco, hf⟩ := h.fits t ht hn
    exact fits_course hc hn' hco hf
  · exact h.apart t ht t' ht' fun hin => hn (List.mem_append_left _ hin)

theorem Agree.of_machine (h : Agree k vm lost) (hm : vm'.machine = vm.machine) :
    Agree k vm' lost := by
  refine ⟨h.unique, ?_, ?_, h.apart⟩
  · unfold Vm.Idle
    rw [hm]
    exact h.idle
  · rw [hm]
    exact h.fits

theorem Agree.atTime (h : Agree k vm lost) (now : Nat) : Agree { k with now } vm lost :=
  ⟨h.unique, h.idle, h.fits, h.apart⟩

/-- Dropping threads. -/
theorem Agree.sweep (h : Agree k vm lost) : Agree k.sweep vm lost := by
  have hsub : ∀ t ∈ k.sweep.threads, t ∈ k.threads := fun t ht => List.mem_of_mem_filter ht
  refine ⟨?_, h.idle, fun t ht => h.fits t (hsub t ht), fun t ht t' ht' => ?_⟩
  · exact h.unique.sublist (List.filter_sublist.map _)
  · exact h.apart t (hsub t ht) t' (hsub t' ht')

/-! ## A turn -/

/-- The coroutines that are lost in a turn of a thread. -/
def lostByTurn (k : Scheduler Nat) (id : Nat) (args : List Value) (vm : Vm) : Option (List Nat) :=
  match k.find? id with
  | none => some []
  | some t => vm.lostByResume t.body args

/-- The log does not matter to the machine. -/
theorem machine_records (lines : List LogRecord) (vm : Vm) :
    (lines.foldl (fun vm line => world.record line vm) vm).machine = vm.machine := by
  induction lines generalizing vm with
  | nil => rfl
  | cons line lines ih => exact ih _

theorem world_resume (thread : Nat) (args : List Value) (vm : Vm) :
    world.resume thread args vm =
      (ofResumption (vm.resume thread args).1, (vm.resume thread args).2) := by
  unfold world
  dsimp only

/-- A thread after another state is set. -/
theorem mem_setState {id : Nat} {state : ThreadState} {u : ScriptThread Nat}
    (hu : u ∈ (k.setState id state).threads) : ∃ t ∈ k.threads, u.id = t.id ∧ u.body = t.body ∧
      u.state = if t.id = id then state else t.state := by
  obtain ⟨t, ht, rfl⟩ := List.mem_map.mp hu
  refine ⟨t, ht, ?_⟩
  split
  · exact ⟨rfl, rfl, rfl⟩
  · exact ⟨rfl, rfl, rfl⟩

/-- A thread is set to the state that its coroutine is left in; the others go on as before. -/
theorem Agree.setState (h : Agree k vm lost) {t : ScriptThread Nat} (ht : t ∈ k.threads)
    {state : ThreadState} (hc : vm.Course (t.body :: lost') vm')
    (hfits : t.body ∉ lost ++ lost' →
      ∃ co, vm'.machine.coroutines[t.body]? = some co ∧ state.Fits co) :
    Agree (k.setState t.id state) vm' (lost ++ lost') := by
  refine ⟨?_, hc.idle, fun u hu hn => ?_, fun u hu u' hu' hn hb => ?_⟩
  · rw [Scheduler.ids_setState]
    exact h.unique
  · obtain ⟨v, hv, -, hbody, hstate⟩ := mem_setState hu
    rw [hbody] at hn ⊢
    rw [hstate]
    -- the thread itself fits by hypothesis; to the others the course does nothing, since their
    -- coroutines are apart from its own
    by_cases hid : v.id = t.id
    · obtain rfl := Scheduler.thread_unique h.unique hv ht hid
      rw [if_pos rfl]
      exact hfits hn
    · rw [if_neg hid]
      obtain ⟨hn, hn'⟩ := not_or.mp (mt List.mem_append.mpr hn)
      obtain ⟨co, hco, hf⟩ := h.fits v hv hn
      have hne : v.body ≠ t.body := fun hb => hid (h.apart v hv t ht hn hb.symm).symm
      exact fits_course hc (fun hin => (List.mem_cons.mp hin).elim hne hn') hco hf
  · obtain ⟨v, hv, hid, hbody, -⟩ := mem_setState hu
    obtain ⟨v', hv', hid', hbody', -⟩ := mem_setState hu'
    rw [hbody] at hn hb
    rw [hbody'] at hb
    rw [hid, hid']
    exact h.apart v hv v' hv' (fun hin => hn (List.mem_append_left _ hin)) hb

/-- Who has not ended is suspended, if it is not lost. -/
theorem Agree.stands (h : Agree k vm lost) {t : ScriptThread Nat} (ht : t ∈ k.threads)
    (hgoes : t.state.isTerminal = false) (hn : t.body ∉ lost) :
    vm.machine.Stands t.body .suspended := by
  obtain ⟨co, hco, hf⟩ := h.fits t ht hn
  cases hstate : t.state with
  | runnable | suspended wake => rw [hstate] at hf; exact ⟨co, hco, hf⟩
  | finished | failed message => rw [hstate] at hgoes; cases hgoes

/-- A thread that has not ended has its turn. -/
theorem Agree.turn (h : Agree k vm lost) {t : ScriptThread Nat} (ht : t ∈ k.threads)
    (hgoes : t.state.isTerminal = false) (args : List Value)
    (hl : lostByTurn k t.id args vm = some lost') :
    Agree (Scheduler.resumeThread world k t.id args vm).2.1
      (Scheduler.resumeThread world k t.id args vm).2.2 (lost ++ lost') := by
  have hfind := Scheduler.find?_thread h.unique ht
  have hturn := Scheduler.resumeThread_eq (w := world) hfind args vm
  rw [world_resume] at hturn
  unfold lostByTurn at hl
  rw [hfind] at hl
  have hcourse := Vm.resume_course h.idle hl
  -- the state comes from the same resumption that leaves the coroutine where it is
  have hfits : t.body ∉ lost ++ lost' → ∃ co,
      (vm.resume t.body args).2.machine.coroutines[t.body]? = some co ∧
        ((ofResumption (vm.resume t.body args).1).state k.now).Fits co := by
    intro hn
    obtain ⟨hn, hn'⟩ := not_or.mp (mt List.mem_append.mpr hn)
    obtain ⟨co, hco, hf⟩ := Vm.resume_fits (h.stands ht hgoes hn) hl hn'
    exact ⟨co, hco, fits_ofResumption hf k.now⟩
  rw [hturn]
  dsimp only
  generalize vm.resume t.body args = b at hcourse hfits
  exact (h.setState ht hcourse hfits).of_machine (machine_records _ b.2)

/-! ## Turns one after the other -/

/-- The coroutines that are lost in turns of some threads, one after the other. -/
def lostByTurns (args : List Value) : List Nat → Scheduler Nat → Vm → Option (List Nat)
  | [], _, _ => some []
  | id :: ids, k, vm => do
    let lost ← lostByTurn k id args vm
    let next := Scheduler.resumeThread world k id args vm
    let lost' ← lostByTurns args ids next.2.1 next.2.2
    return lost ++ lost'

theorem Agree.turns {ids : List Nat} {args : List Value} (h : Agree k vm lost) (hnodup : ids.Nodup)
    (hgo : ∀ id ∈ ids, ∃ t ∈ k.threads, t.id = id ∧ t.state.isTerminal = false)
    (hl : lostByTurns args ids k vm = some lost') :
    Agree (Scheduler.resumeAll world args ids k vm).2.1
      (Scheduler.resumeAll world args ids k vm).2.2 (lost ++ lost') := by
  induction ids generalizing k vm lost lost' with
  | nil =>
    obtain rfl := Option.some.inj hl
    rw [List.append_nil]
    exact h
  | cons id ids ih =>
    obtain ⟨hid, hrest⟩ := List.nodup_cons.mp hnodup
    obtain ⟨t, ht, rfl, hgoes⟩ := hgo id List.mem_cons_self
    obtain ⟨l, hl₁, hl⟩ := Option.bind_eq_some_iff.mp hl
    obtain ⟨l', hl₂, hl⟩ := Option.bind_eq_some_iff.mp hl
    obtain rfl := Option.some.inj hl
    have hnext := h.turn ht hgoes args hl₁
    have hturn := Scheduler.resumeThread_eq (w := world) (Scheduler.find?_thread h.unique ht) args vm
    rw [Scheduler.resumeAll_cons, ← List.append_assoc]
    refine ih hnext hrest (fun id' hid' => ?_) hl₂
    -- the others stand as before
    obtain ⟨u, hu, rfl, hgoes'⟩ := hgo id' (List.mem_cons_of_mem _ hid')
    have hne : u.id ≠ t.id := fun he => hid (he ▸ hid')
    refine ⟨u, ?_, rfl, hgoes'⟩
    rw [hturn]
    exact List.mem_map.mpr ⟨u, hu, if_neg hne⟩

/-! ## Acts -/

/-- Something that the owner of the scheduler does: a thread begins or goes on, or the owner itself
    uses the machine, or the heap and the host change in some way. -/
inductive Act
  | launch (entry : Entry) (args : List Value)
  | resume (id : Nat) (args : List Value)
  | tick (now : Nat)
  | sweep
  | call (f : Value) (args : List Value)
  | compute (x : Lib (List Value))
  | change (f : Heap → Heap) (g : Host → Host)

/-- The scheduler and the machine after an act. -/
def perform (r : Runner) : Act → Runner
  | .launch entry args => (r.launch entry args).2
  | .resume id args => (r.resume id args).2
  | .tick now => r.tick now
  | .sweep => r.sweep.2
  | .call f args => { r with vm := (r.vm.call f args).2 }
  | .compute x => { r with vm := (r.vm.compute x).2 }
  | .change f g => { r with vm := { r.vm with heap := f r.vm.heap, host := g r.vm.host } }

/-- Spawning and running an entry are launches that differ in what they yield. -/
theorem perform_launch (r : Runner) (entry : Entry) (args : List Value) :
    r.perform (.launch entry args) = (r.spawn entry args).2 ∧
      r.perform (.launch entry args) = (r.run entry args).2 := by
  unfold perform spawn run
  dsimp only
  generalize r.launch entry args = back
  obtain ⟨found, r'⟩ := back
  cases found <;> exact ⟨rfl, rfl⟩

/-- The scheduler in which a new thread has its first turn. -/
def launching (r : Runner) (label : String) (f : Value) : Scheduler Nat :=
  r.scheduler.register (readClock { r with vm := (r.vm.newThread f).2 }).1 label (r.vm.newThread f).1

/-- The machine in which a new thread has its first turn. -/
def launchVm (r : Runner) (f : Value) : Vm :=
  (readClock { r with vm := (r.vm.newThread f).2 }).2.vm.record
    (.trace ("spawned thread " ++ threadName r.scheduler.nextId))

/-- The coroutines that are lost when the owner looks for what a new thread runs. -/
def lostByEntry (vm : Vm) : Entry → Option (List Nat)
  | .function .. | .chunk .. => some []
  | .global name => vm.lostByField vm.heap.globalsValue name

/-- The coroutines that are lost in the first turn of a new thread. -/
def lostByFirst (r : Runner) (label : String) (f : Value) (args : List Value) : Option (List Nat) :=
  lostByTurn (r.launching label f) r.scheduler.nextId args (r.launchVm f)

/-- The coroutines that are lost once the owner has found what a new thread runs. -/
def lostByFound (k : Scheduler Nat) (label : String) (args : List Value) :
    Except HostError Value × Vm → Option (List Nat)
  | (.error _, _) => some []
  | (.ok f, vm) => lostByFirst ⟨vm, k⟩ label f args

/-- The coroutines that are lost in a launch. -/
def lostByLaunch (r : Runner) (entry : Entry) (args : List Value) : Option (List Nat) := do
  let lost ← lostByEntry r.vm entry
  let lost' ← lostByFound r.scheduler entry.label args (entryFunction r.vm entry)
  return lost ++ lost'

/-- The coroutines that are lost in an act; nothing is said of an act that is given up. -/
def lostBy (r : Runner) : Act → Option (List Nat)
  | .launch entry args => r.lostByLaunch entry args
  | .resume id args =>
    if (r.scheduler.status id).any (·.isDue r.readClock.1) then
      lostByTurn { r.scheduler with now := r.readClock.1 } id args r.readClock.2.vm
    else some []
  | .tick now => lostByTurns [] (r.scheduler.due now) { r.scheduler with now } r.vm
  | .call f args => r.vm.lostByCall f args
  | .compute x => r.vm.lostByCompute x
  | .sweep | .change .. => some []

/-- The invariant. -/
structure Sound (r : Runner) (lost : List Nat) : Prop where
  orderly : r.scheduler.Orderly
  agree : Agree r.scheduler r.vm lost

theorem machine_readClock (r : Runner) : r.readClock.2.vm.machine = r.vm.machine := rfl

theorem after_snd {α : Type} (r : α × Scheduler Nat × Vm) : (after r).2 = ⟨r.2.2, r.2.1⟩ := rfl

/-! ### Launching -/

theorem launch_eq (r : Runner) (label : String) (f : Value) (args : List Value) :
    (r.launch (.function label f) args).2 =
      ⟨(Scheduler.resumeThread world (r.launching label f) r.scheduler.nextId args (r.launchVm f)).2.2,
        (Scheduler.resumeThread world (r.launching label f) r.scheduler.nextId args
          (r.launchVm f)).2.1⟩ := by
  have hafter : (r.launch (.function label f) args).2 = (after (r.scheduler.launch world
      (readClock { r with vm := (r.vm.newThread f).2 }).1 label (r.vm.newThread f).1 args
      (readClock { r with vm := (r.vm.newThread f).2 }).2.vm)).2 := by
    unfold launch entryFunction
    dsimp only
    rfl
  rw [hafter, after_snd, Scheduler.launch_snd]
  rfl

/-- A launch keeps a scheduler in order. -/
theorem orderly_launch (h : r.scheduler.Orderly) (label : String) (f : Value)
    (args : List Value) : (r.launch (.function label f) args).2.scheduler.Orderly := by
  have horder := h.perform (w := world)
    (.launch (readClock { r with vm := (r.vm.newThread f).2 }).1 label (r.vm.newThread f).1 args)
    (readClock { r with vm := (r.vm.newThread f).2 }).2.vm
  unfold Scheduler.Operation.perform at horder
  dsimp only at horder
  rw [Scheduler.launch_snd] at horder
  rw [launch_eq]
  exact horder

theorem machine_launchVm (r : Runner) (f : Value) :
    (r.launchVm f).machine = (r.vm.machine.newCoroutine f).2 :=
  machine_readClock _

/-- A new coroutine has a number that none has had. -/
theorem getElem?_newCoroutine (m : Machine) (f : Value) :
    m.coroutines[(m.newCoroutine f).1]? = none ∧
      (m.newCoroutine f).2.coroutines[(m.newCoroutine f).1]? = some { body := f } :=
  ⟨Array.getElem?_size, Array.getElem?_push_size⟩

/-- A new thread agrees with its new coroutine. -/
theorem Sound.launching (h : r.Sound lost) (label : String) (f : Value) :
    Agree (r.launching label f) (r.launchVm f) lost := by
  obtain ⟨hfresh, hnew⟩ := getElem?_newCoroutine r.vm.machine f
  have hkeeps : ∀ n, r.vm.machine.Keeps n (r.vm.machine.newCoroutine f).2 :=
    fun n => Machine.keeps_newCoroutine f
  have hcourse : r.vm.Course [] (r.launchVm f) := by
    refine .of_keeps ?_ fun n _ => ?_
    · unfold Vm.Idle
      rw [machine_launchVm]
      exact h.agree.idle
    · rw [machine_launchVm]
      exact hkeeps n
  have hagree := h.agree.course hcourse
  rw [List.append_nil] at hagree
  -- nobody who still agrees has the new number
  have hother : ∀ t ∈ r.scheduler.threads, t.body ∉ lost → t.body ≠ (r.vm.newThread f).1 := by
    intro t ht hn he
    obtain ⟨co, hco, -⟩ := h.agree.fits t ht hn
    rw [he] at hco
    exact nomatch hfresh.symm.trans hco
  refine ⟨?_, hagree.idle, fun t ht hn => ?_, fun t ht t' ht' hn hb => ?_⟩
  · unfold Scheduler.ids Runner.launching Scheduler.register
    dsimp only
    rw [List.map_append]
    refine List.nodup_append.mpr ⟨h.agree.unique, List.nodup_singleton _, fun id hid id' hid' => ?_⟩
    obtain rfl := List.mem_singleton.mp hid'
    exact Nat.ne_of_lt (h.orderly.below id hid)
  · rcases List.mem_append.mp ht with ht | ht
    · exact hagree.fits t ht hn
    · obtain rfl := List.mem_singleton.mp ht
      rw [machine_launchVm]
      exact ⟨_, hnew, rfl, rfl⟩
  · rcases List.mem_append.mp ht with ht | ht
    · rcases List.mem_append.mp ht' with ht' | ht'
      · exact hagree.apart t ht t' ht' hn hb
      · obtain rfl := List.mem_singleton.mp ht'
        exact absurd hb.symm (hother t ht hn)
    · obtain rfl := List.mem_singleton.mp ht
      rcases List.mem_append.mp ht' with ht' | ht'
      · exact absurd hb (hother t' ht' (hb ▸ hn))
      · rw [List.mem_singleton.mp ht']

/-- A new thread has its first turn. -/
theorem Sound.first (h : r.Sound lost) (label : String) (f : Value) (args : List Value)
    (hl : r.lostByFirst label f args = some lost') :
    (r.launch (.function label f) args).2.Sound (lost ++ lost') := by
  have hnew : (⟨r.scheduler.nextId, label, (r.vm.newThread f).1, .runnable⟩ : ScriptThread Nat) ∈
      (r.launching label f).threads := List.mem_append_right _ List.mem_cons_self
  refine ⟨orderly_launch h.orderly label f args, ?_⟩
  rw [launch_eq]
  exact (h.launching label f).turn hnew rfl args hl

theorem entryFunction_course (h : vm.Idle) {entry : Entry} (hl : lostByEntry vm entry = some lost) :
    vm.Course lost (entryFunction vm entry).2 := by
  cases entry with
  | function label f => exact .refl h
  | chunk name source =>
    obtain rfl := Option.some.inj hl
    exact Vm.compile_course h name source
  | global name =>
    have hc := Vm.field_course h hl
    unfold entryFunction Vm.global
    dsimp only
    generalize vm.field vm.heap.globalsValue name = found at hc
    obtain ⟨v, vm₁⟩ := found
    cases v with
    | error e => exact hc
    | ok v =>
      dsimp only
      split <;> exact hc

/-- Once its function is found, a thread begins like any other. -/
theorem launch_of_ok {entry : Entry} {f : Value} (h : entryFunction r.vm entry = (.ok f, vm))
    (args : List Value) :
    r.launch entry args = { r with vm }.launch (.function entry.label f) args := by
  unfold launch
  rw [h]
  rfl

theorem launch_of_error {entry : Entry} {e : HostError}
    (h : entryFunction r.vm entry = (.error e, vm)) (args : List Value) :
    r.launch entry args = (.error e, { r with vm }) := by
  unfold launch
  rw [h]

theorem Sound.launch (h : r.Sound lost) (entry : Entry) (args : List Value)
    (hl : r.lostByLaunch entry args = some lost') :
    (r.launch entry args).2.Sound (lost ++ lost') := by
  obtain ⟨l, hl₁, hl⟩ := Option.bind_eq_some_iff.mp hl
  obtain ⟨l', hl₂, hl⟩ := Option.bind_eq_some_iff.mp hl
  obtain rfl := Option.some.inj hl
  have hcourse := entryFunction_course h.agree.idle hl₁
  obtain ⟨⟨found, vm⟩, hfound⟩ : ∃ x, entryFunction r.vm entry = x := ⟨_, rfl⟩
  rw [hfound] at hcourse hl₂
  have hsound : Sound { r with vm } (lost ++ l) := ⟨h.orderly, h.agree.course hcourse⟩
  rw [← List.append_assoc]
  cases found with
  | error e =>
    obtain rfl := Option.some.inj hl₂
    rw [launch_of_error hfound, List.append_nil]
    exact hsound
  | ok f =>
    rw [launch_of_ok hfound]
    exact hsound.first entry.label f args hl₂

/-! ### Going on -/

/-- Who is due has not ended. -/
theorem not_terminal_of_due {state : ThreadState} {now : Nat} (h : state.isDue now) :
    state.isTerminal = false := by
  cases state with
  | runnable | suspended wake => rfl
  | finished | failed message => cases h

theorem resume_eq (r : Runner) (id : Nat) (args : List Value) :
    (r.resume id args).2 = ⟨(r.scheduler.resume world r.readClock.1 id args r.readClock.2.vm).2.2,
      (r.scheduler.resume world r.readClock.1 id args r.readClock.2.vm).2.1⟩ := by
  unfold resume
  dsimp only
  rw [after_snd]
  rfl

theorem orderly_resume (h : r.scheduler.Orderly) (id : Nat) (args : List Value) :
    (r.resume id args).2.scheduler.Orderly := by
  rw [resume_eq]
  exact h.perform (w := world) (.resume r.readClock.1 id args) r.readClock.2.vm

/-- A thread that is due goes on out of turn; otherwise nothing happens. -/
theorem Sound.resume (h : r.Sound lost) (id : Nat) (args : List Value)
    (hl : r.lostBy (.resume id args) = some lost') :
    (r.perform (.resume id args)).Sound (lost ++ lost') := by
  refine ⟨orderly_resume h.orderly id args, ?_⟩
  unfold Runner.perform
  dsimp only
  rw [resume_eq]
  have hagree : Agree { r.scheduler with now := r.readClock.1 } r.readClock.2.vm lost :=
    (h.agree.of_machine (machine_readClock r)).atTime r.readClock.1
  unfold lostBy at hl
  dsimp only at hl
  by_cases hdue : (r.scheduler.status id).any (·.isDue r.readClock.1)
  · rw [if_pos hdue] at hl
    obtain ⟨state, hstate, hdue'⟩ := (Option.any_eq_true _ _).mp hdue
    obtain ⟨t, ht, rfl, rfl⟩ := Scheduler.status_mem hstate
    -- out of turn it is a turn all the same, at the time that the clock shows
    rw [Scheduler.resume_snd_of_due hdue]
    exact hagree.turn ht (not_terminal_of_due hdue') args hl
  · rw [if_neg hdue] at hl
    obtain rfl := Option.some.inj hl
    obtain ⟨refusal, hrefused⟩ := Scheduler.resume_eq_of_not_due (w := world) hdue args r.readClock.2.vm
    rw [hrefused, List.append_nil]
    exact hagree

theorem tick_eq (r : Runner) (now : Nat) :
    r.tick now = ⟨(r.scheduler.tick world now r.vm).2, (r.scheduler.tick world now r.vm).1⟩ := by
  unfold tick
  dsimp only

theorem orderly_tick (h : r.scheduler.Orderly) (now : Nat) : (r.tick now).scheduler.Orderly := by
  rw [tick_eq]
  exact h.perform (w := world) (.tick now) r.vm

/-- Whoever is due goes on; then who has ended is dropped. -/
theorem Sound.tick (h : r.Sound lost) (now : Nat) (hl : r.lostBy (.tick now) = some lost') :
    (r.perform (.tick now)).Sound (lost ++ lost') := by
  refine ⟨orderly_tick h.orderly now, ?_⟩
  unfold Runner.perform
  dsimp only
  rw [tick_eq]
  have hdue : ∀ id ∈ r.scheduler.due now, ∃ t ∈ r.scheduler.threads, t.id = id ∧
      t.state.isTerminal = false := by
    intro id hid
    obtain ⟨t, ht, hdue, rfl⟩ := Scheduler.mem_due.mp hid
    exact ⟨t, ht, rfl, not_terminal_of_due hdue⟩
  have hagree := (h.agree.atTime now).turns (h.agree.unique.sublist (List.filter_sublist.map _)) hdue hl
  unfold Scheduler.tick
  dsimp only
  exact hagree.sweep

theorem Sound.sweep (h : r.Sound lost) : (r.perform .sweep).Sound lost := by
  have horder := h.orderly.perform (w := world) .sweep r.vm
  exact ⟨horder, h.agree.sweep⟩

/-! ## All acts -/

theorem Sound.perform (h : r.Sound lost) (act : Act) (hl : r.lostBy act = some lost') :
    (r.perform act).Sound (lost ++ lost') := by
  cases act with
  | launch entry args => exact h.launch entry args hl
  | resume id args => exact h.resume id args hl
  | tick now => exact h.tick now hl
  | sweep =>
    obtain rfl := Option.some.inj hl
    rw [List.append_nil]
    exact h.sweep
  | call f args => exact ⟨h.orderly, h.agree.course (Vm.call_course h.agree.idle hl)⟩
  | compute x => exact ⟨h.orderly, h.agree.course (Vm.compute_course h.agree.idle hl)⟩
  | change f g =>
    obtain rfl := Option.some.inj hl
    rw [List.append_nil]
    exact ⟨h.orderly, h.agree.of_machine rfl⟩

/-- The scripts on a new machine. -/
def start (host : Host) : Runner := { vm := Vm.new host }

/-- The scripts after some acts. -/
def performAll : List Act → Runner → Runner
  | [], r => r
  | act :: acts, r => performAll acts (r.perform act)

/-- The coroutines that are lost in some acts. -/
def lostByAll : List Act → Runner → Option (List Nat)
  | [], _ => some []
  | act :: acts, r => do
    let lost ← r.lostBy act
    let lost' ← lostByAll acts (r.perform act)
    return lost ++ lost'

theorem sound_start (host : Host) : (start host).Sound [] where
  orderly := Scheduler.orderly_empty 0
  agree := ⟨List.nodup_nil, rfl, fun _ ht => absurd ht List.not_mem_nil,
    fun _ ht => absurd ht List.not_mem_nil⟩

theorem Sound.performAll {acts : List Act} (h : r.Sound lost) (hl : lostByAll acts r = some lost') :
    (performAll acts r).Sound (lost ++ lost') := by
  induction acts generalizing r lost lost' with
  | nil =>
    obtain rfl := Option.some.inj hl
    rw [List.append_nil]
    exact h
  | cons act acts ih =>
    obtain ⟨l, hl₁, hl⟩ := Option.bind_eq_some_iff.mp hl
    obtain ⟨l', hl₂, hl⟩ := Option.bind_eq_some_iff.mp hl
    obtain rfl := Option.some.inj hl
    rw [← List.append_assoc]
    exact ih (h.perform act hl₁) hl₂

/-! ## What scripts and their owner see -/

/-- Whether a coroutine has come to its end without an error. -/
def Returned (m : Machine) (n : Nat) : Prop :=
  ∃ co, m.coroutines[n]? = some co ∧ co.standing = .dead ∧ co.remains.failure = none

/-- Whether a coroutine has died of an error that it has raised. -/
def Raised (m : Machine) (n : Nat) : Prop :=
  ∃ co, m.coroutines[n]? = some co ∧ co.standing = .dead ∧ co.remains.failure ≠ none

/-- Whether the state of a thread and its coroutine agree: it is suspended exactly when the coroutine
    can be resumed, has finished exactly when the body has returned, and has failed exactly when the
    body has raised an error. -/
structure Agrees (m : Machine) (t : ScriptThread Nat) : Prop where
  suspended : (∃ wakeAt, t.state = .suspended wakeAt) ↔ m.standing t.body = .suspended
  finished : t.state = .finished ↔ Returned m t.body
  failed : (∃ message, t.state = .failed message) ↔ Raised m t.body

section

variable {m : Machine} {n : Nat} {co : Coroutine}

theorem returned_iff (hco : m.coroutines[n]? = some co) :
    Returned m n ↔ co.standing = .dead ∧ co.remains.failure = none := by
  constructor
  · rintro ⟨co', hco', h⟩
    obtain rfl := Option.some.inj (hco'.symm.trans hco)
    exact h
  · exact fun h => ⟨co, hco, h⟩

theorem raised_iff (hco : m.coroutines[n]? = some co) :
    Raised m n ↔ co.standing = .dead ∧ co.remains.failure ≠ none := by
  constructor
  · rintro ⟨co', hco', h⟩
    obtain rfl := Option.some.inj (hco'.symm.trans hco)
    exact h
  · exact fun h => ⟨co, hco, h⟩

theorem agrees_of_fits {t : ScriptThread Nat} (hco : m.coroutines[t.body]? = some co)
    (hf : t.state.Fits co) (hr : t.state ≠ .runnable) : Agrees m t := by
  have hstanding : m.standing t.body = co.standing := by
    unfold Machine.standing
    rw [hco]
  -- all three are said of what the coroutine has left, which a state that fits determines
  suffices h : ((∃ wakeAt, t.state = .suspended wakeAt) ↔ co.standing = .suspended) ∧
      (t.state = .finished ↔ co.standing = .dead ∧ co.remains.failure = none) ∧
      ((∃ message, t.state = .failed message) ↔
        co.standing = .dead ∧ co.remains.failure ≠ none) from
    ⟨hstanding ▸ h.1, h.2.1.trans (returned_iff hco).symm, h.2.2.trans (raised_iff hco).symm⟩
  cases hstate : t.state with
  | runnable => exact absurd hstate hr
  | suspended wakeAt =>
    rw [hstate] at hf
    rw [hf.1]
    exact ⟨iff_of_true ⟨wakeAt, rfl⟩ rfl, iff_of_false nofun nofun, iff_of_false nofun nofun⟩
  | finished =>
    rw [hstate] at hf
    rw [hf.1]
    exact ⟨iff_of_false nofun nofun, iff_of_true rfl ⟨rfl, hf.2⟩, iff_of_false nofun fun h => h.2 hf.2⟩
  | failed message =>
    rw [hstate] at hf
    rw [hf.1]
    exact ⟨iff_of_false nofun nofun, iff_of_false nofun fun h => hf.2 h.2,
      iff_of_true ⟨message, rfl⟩ ⟨rfl, hf.2⟩⟩

end

/-- After whatever the owner and the scripts do, every thread agrees with its coroutine unless that is
    lost: unless a script has closed it or, having resumed it, has seen it end. -/
theorem threads_agree (host : Host) (acts : List Act) (lost : List Nat)
    (hl : lostByAll acts (start host) = some lost) :
    ∀ t ∈ (performAll acts (start host)).scheduler.threads, t.body ∉ lost →
      Agrees (performAll acts (start host)).vm.machine t := by
  intro t ht hn
  have hsound := (sound_start host).performAll hl
  obtain ⟨co, hco, hf⟩ := hsound.agree.fits t ht hn
  exact agrees_of_fits hco hf (hsound.orderly.settled t ht)

/-- Three threads: one yields and returns, one yields, and one raises an error. -/
def threeFates : List Act :=
  [.launch (.function "a" (.builtin .coYield)) [], .launch (.function "b" (.builtin .coYield)) [],
    .launch (.function "c" (.builtin .error)) [.bool true], .resume 1 []]

/-- No script interferes, and all three agree with their coroutines. -/
theorem threeFates_agree : lostByAll threeFates (start plainHost) = some [] ∧
    ((performAll threeFates (start plainHost)).scheduler.threads.map fun t => (t.body, t.state)) =
      [(1, .finished), (2, .suspended none), (3, .failed ("runtime error: true" ++ Vm.trace))] ∧
    ∀ t ∈ (performAll threeFates (start plainHost)).scheduler.threads,
      Agrees (performAll threeFates (start plainHost)).vm.machine t := by
  have hlost : lostByAll threeFates (start plainHost) = some [] := by decide +kernel
  exact ⟨hlost, by decide +kernel,
    fun t ht => threads_agree plainHost threeFates [] hlost t ht List.not_mem_nil⟩

/-- One thread yields, and another one resumes its coroutine. -/
def interference : List Act :=
  [.launch (.function "a" (.builtin .coYield)) [],
    .launch (.function "b" (.builtin .coResume)) [.thread 1]]

/-- The first thread stays suspended although its body has returned.  So it is not true that every
    thread agrees with its coroutine. -/
theorem not_forall_threads_agree : ¬ ∀ host acts lost, lostByAll acts (start host) = some lost →
    ∀ t ∈ (performAll acts (start host)).scheduler.threads,
      Agrees (performAll acts (start host)).vm.machine t := by
  intro h
  have hlost : lostByAll interference (start plainHost) = some [1] := by decide +kernel
  have hthreads : ((performAll interference (start plainHost)).scheduler.threads.map
      fun t => (t.body, t.state)) = [(1, .suspended none), (2, .finished)] := by decide +kernel
  have hdead : (performAll interference (start plainHost)).vm.machine.standing 1 = .dead := by
    decide +kernel
  have hfirst : ((1, .suspended none) : Nat × ThreadState) ∈
      (performAll interference (start plainHost)).scheduler.threads.map fun t => (t.body, t.state) := by
    rw [hthreads]
    exact List.mem_cons_self
  obtain ⟨t, ht, he⟩ := List.mem_map.mp hfirst
  obtain ⟨hbody, hstate⟩ := Prod.mk.inj he
  have hsuspended := (h plainHost interference [1] hlost t ht).suspended.mp ⟨none, hstate⟩
  rw [hbody, hdead] at hsuspended
  exact nomatch hsuspended

end Runner

end OscHost
