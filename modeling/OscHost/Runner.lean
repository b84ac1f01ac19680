import OscHost.Scheduler
import OscHost.Vm
/-!
  Scripts as cooperative threads.

  A thread's body is a coroutine.  When it yields the mark of `sleep` first, it sleeps for the
  seconds that come next; every other yield waits for the next tick.
-/

namespace OscHost

open Script

/-- What a new thread runs. -/
inductive Entry
  /-- The function that a global name stands for now. -/
  | global (name : String)
  | chunk (name source : String)
  | function (label : String) (f : Value)

/-- The label of a thread. -/
def Entry.label : Entry → String
  | .global name | .chunk name _ | .function name _ => name

/-- The scripts with their threads. -/
structure Runner where
  vm : Vm
  scheduler : Scheduler Nat := {}

namespace Runner

/-- Whether a value is the mark that `sleep` yields. -/
def isSleepMark (v : Value) : Bool := v.rawEquals Library.HostApi.sleepMark

/-- The seconds that a value asks to sleep for; nothing but a number asks for any. -/
def seconds : Value → Number.Binary
  | .int n => .ofFloat (Number.ofWord n)
  | .float x => .ofFloat x
  | .nan _ => .nan
  | _ => .ofFloat 0.0

/-- What yielded values mean. -/
def ofYield : List Value → Handback Value
  | [] => .yielded []
  | v :: rest =>
    if isSleepMark v then .slept (.ofSeconds (seconds (firstOf rest))) else .yielded (v :: rest)

/-- How a thread hands back control when its coroutine does. -/
def ofResumption : Resumption → Handback Value
  | .finished values => .finished values
  | .yielded values => ofYield values
  | .failed message => .failed message

/-- What it means to resume a coroutine. -/
def world : World Vm Nat Value where
  resume thread args vm :=
    let (r, vm) := vm.resume thread args
    (ofResumption r, vm)
  record r vm := vm.record r

/-- Reads the clock. -/
def readClock (r : Runner) : Nat × Runner :=
  let (now, host) := r.vm.host.readClock
  (now, { r with vm := { r.vm with host } })

/-- Whether a value is a function. -/
def isFunction : Value → Bool
  | .closure _ | .builtin _ | .native _ => true
  | _ => false

/-- The complaint about a global name that is no function. -/
def notFunction (vm : Vm) (name : String) (v : Value) : String :=
  "global '" ++ name ++ "' is a " ++ vm.heap.hostTypeName v ++ ", not a function"

/-- The function that an entry stands for. -/
def entryFunction (vm : Vm) : Entry → Except HostError Value × Vm
  | .function _ f => (.ok f, vm)
  | .chunk name source => vm.compile name source
  | .global name =>
    match vm.global name with
    | (.error e, vm) => (.error e, vm)
    | (.ok v, vm) =>
      if isFunction v then (.ok v, vm) else (.error (.runtime (notFunction vm name v)), vm)

/-- The scripts after something that the scheduler has done with them. -/
def after {α : Type} (r : α × Scheduler Nat × Vm) : α × Runner := (r.1, ⟨r.2.2, r.2.1⟩)

/-- Starts a thread and runs it until it hands back control. -/
def launch (r : Runner) (entry : Entry) (args : List Value) :
    Except HostError (Nat × Handback Value) × Runner :=
  match entryFunction r.vm entry with
  | (.error e, vm) => (.error e, { r with vm })
  | (.ok f, vm) =>
    let (thread, vm) := vm.newThread f
    let (now, r) := readClock { r with vm }
    after (r.scheduler.launch world now entry.label thread args r.vm)

/-- Starts a thread; yields its number. -/
def spawn (r : Runner) (entry : Entry) (args : List Value) : Except HostError Nat × Runner :=
  match r.launch entry args with
  | (.ok (id, _), r) => (.ok id, r)
  | (.error e, r) => (.error e, r)

/-- Starts a thread and waits for its values.  One that does not end at once is an error, and runs
    on. -/
def run (r : Runner) (entry : Entry) (args : List Value) : Except HostError (List Value) × Runner :=
  match r.launch entry args with
  | (.ok (id, back), r) => (Scheduler.awaited id back, r)
  | (.error e, r) => (.error e, r)

/-- Resumes a thread out of turn. -/
def resume (r : Runner) (id : Nat) (args : List Value) : Except HostError ThreadState × Runner :=
  let (now, r) := r.readClock
  after (r.scheduler.resume world now id args r.vm)

/-- Resumes all threads that are due at a time. -/
def tick (r : Runner) (now : Nat) : Runner :=
  let (scheduler, vm) := r.scheduler.tick world now r.vm
  { vm, scheduler }

/-- Drops the threads that ended or failed; yields their count. -/
def sweep (r : Runner) : Nat × Runner :=
  let scheduler := r.scheduler.sweep
  (r.scheduler.size - scheduler.size, { r with scheduler })

end Runner

end OscHost
