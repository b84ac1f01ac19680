import OscHost.Error
import OscHost.Log
import OscHost.Number.Binary
import OscHost.Text.Quoted
/-!
  Cooperative threads.

  A thread has a number, counted from one and never used again, a label for the log, a body and a
  state.  It stays registered until it has ended or failed and the next sweep drops it.  What it
  means to resume a body is left to a `World`: the scheduler only decides which bodies are resumed,
  when, and in which order.

  All times are nanoseconds since the host began.
-/

namespace OscHost

/-! ## Sleeping -/

/-- Nanoseconds of a second. -/
def secondNs : Nat := 1000000000

/-- The longest a thread can sleep: a year. -/
def maxSleep : Nat := 365 * 24 * 60 * 60 * secondNs

/-- The last moment that a clock can show: it counts seconds in 63 bits. -/
def lastMoment : Nat := 0x8000000000000000 * secondNs - 1

/-- The nanoseconds nearest to a number of seconds, halves going to even; nothing for what is
    negative, infinite or no number, and when the seconds overflow 64 bits. -/
def durationNs? : Number.Binary → Option Nat
  | .finite false m e =>
    let (num, den) := Number.Binary.fraction m e
    let ns := Number.Binary.roundHalfEven (num * secondNs) den
    if ns / secondNs < 0x10000000000000000 then some ns else none
  | _ => none

/-- How long a number of seconds lets a thread sleep, at most `maxSleep`.  What is not a positive
    number is no time at all, but for positive infinity. -/
def sleepNs (x : Number.Binary) : Nat :=
  if x.isPositive then min ((durationNs? x).getD maxSleep) maxSleep
  else if x = .infinite false then maxSleep
  else 0

theorem sleepNs_le_maxSleep (x : Number.Binary) : sleepNs x ≤ maxSleep := by
  unfold sleepNs
  split
  · exact Nat.min_le_right _ _
  · split
    · exact Nat.le_refl _
    · exact Nat.zero_le _

/-- How long a thread asks to sleep. -/
structure Nap where
  ns : Nat
  le_maxSleep : ns ≤ maxSleep

/-- The nap of a number of seconds. -/
def Nap.ofSeconds (x : Number.Binary) : Nap := ⟨sleepNs x, sleepNs_le_maxSleep x⟩

/-- When a nap that begins at a time is over; there is no such time past the last moment. -/
def Nap.wakeAt (nap : Nap) (now : Nat) : Option Nat :=
  if now + nap.ns ≤ lastMoment then some (now + nap.ns) else none

/-! ## Threads -/

/-- How a thread stands. -/
inductive ThreadState
  | runnable
  /-- Without a time it is due on every tick, else from that time on. -/
  | suspended (wakeAt : Option Nat)
  | finished
  | failed (message : String)
  deriving DecidableEq, Repr

namespace ThreadState

/-- Whether a thread will never run again. -/
def isTerminal : ThreadState → Bool
  | .finished | .failed _ => true
  | .runnable | .suspended _ => false

/-- Whether a thread may be resumed at a time. -/
def isDue (now : Nat) : ThreadState → Bool
  | .runnable | .suspended none => true
  | .suspended (some t) => t ≤ now
  | .finished | .failed _ => false

/-- A moment as the log shows it. -/
def momentText (t : Nat) : String :=
  "Instant \x7b tv_sec: " ++ toString (t / secondNs) ++ ", tv_nsec: " ++ toString (t % secondNs) ++ " \x7d"

/-- A state as a refusal shows it. -/
def text : ThreadState → String
  | .runnable => "Runnable"
  | .suspended none => "Suspended \x7b wake_at: None \x7d"
  | .suspended (some t) => "Suspended \x7b wake_at: Some(" ++ momentText t ++ ") \x7d"
  | .finished => "Finished"
  | .failed message => "Failed(" ++ Text.quoted message ++ ")"

end ThreadState

/-- How a resumed body hands back control. -/
inductive Handback (α : Type)
  | yielded (values : List α)
  | slept (nap : Nap)
  | finished (values : List α)
  | failed (message : String)

/-- The state of a thread that has handed back control at a time. -/
def Handback.state {α : Type} (now : Nat) : Handback α → ThreadState
  | .yielded _ => .suspended none
  | .slept nap => .suspended (nap.wakeAt now)
  | .finished _ => .finished
  | .failed message => .failed message

/-- A world `σ` in which bodies `β` are resumed with values `α`, and which keeps the log. -/
structure World (σ β α : Type) where
  resume : β → List α → σ → Handback α × σ
  record : LogRecord → σ → σ

/-- A registered thread. -/
structure ScriptThread (β : Type) where
  id : Nat
  label : String
  body : β
  state : ThreadState

/-- The name of a thread. -/
def threadName (id : Nat) : String := "#" ++ toString id

/-- A thread that was resumed, and how it handed back control. -/
structure Turn (α : Type) where
  thread : Nat
  back : Handback α

/-- The registered threads, by ascending number. -/
structure Scheduler (β : Type) where
  threads : List (ScriptThread β) := []
  nextId : Nat := 1
  /-- The time of the operation that was begun last. -/
  now : Nat := 0

namespace Scheduler

variable {σ β α : Type}

/-- A thread by its number. -/
def find? (k : Scheduler β) (id : Nat) : Option (ScriptThread β) := k.threads.find? (·.id == id)

/-- The state of a thread. -/
def status (k : Scheduler β) (id : Nat) : Option ThreadState := (k.find? id).map (·.state)

/-- The count of registered threads. -/
def size (k : Scheduler β) : Nat := k.threads.length

/-- Sets the state of a thread. -/
def setState (k : Scheduler β) (id : Nat) (state : ThreadState) : Scheduler β :=
  { k with threads := k.threads.map fun t => if t.id = id then { t with state } else t }

/-- What the log says when a thread has handed back control. -/
def report (t : ScriptThread β) : Handback α → List LogRecord
  | .yielded [] | .slept _ | .finished _ => []
  | .yielded values =>
    [.debug ("thread " ++ threadName t.id ++ " (" ++ t.label ++ ") yielded "
      ++ toString values.length ++ " value(s)")]
  | .failed message => [.error ("[script] " ++ t.label ++ " failed: " ++ message)]

/-- Resumes a thread by its number, if there is one. -/
def resumeThread (w : World σ β α) (k : Scheduler β) (id : Nat) (args : List α) (s : σ) :
    Option (Handback α) × Scheduler β × σ :=
  match k.find? id with
  | none => (none, k, s)
  | some t =>
    let (r, s) := w.resume t.body args s
    (some r, k.setState id (r.state k.now), (report t r).foldl (fun s line => w.record line s) s)

/-- Registers a new thread. -/
def register (now : Nat) (k : Scheduler β) (label : String) (body : β) : Scheduler β :=
  { threads := k.threads ++ [⟨k.nextId, label, body, .runnable⟩], nextId := k.nextId + 1, now }

/-- Registers a new thread and resumes it once. -/
def launch (w : World σ β α) (now : Nat) (k : Scheduler β) (label : String) (body : β)
    (args : List α) (s : σ) : Except HostError (Nat × Handback α) × Scheduler β × σ :=
  let id := k.nextId
  let s := w.record (.trace ("spawned thread " ++ threadName id)) s
  match resumeThread w (k.register now label body) id args s with
  | (some r, k, s) => (.ok (id, r), k, s)
  | (none, k, s) => (.error (.runtime ("thread " ++ threadName id ++ " vanished")), k, s)

/-- What a launch comes to for someone who waits for the values. -/
def awaited (id : Nat) : Handback α → Except HostError (List α)
  | .finished values => .ok values
  | .failed message => .error (.runtime message)
  | .yielded _ | .slept _ =>
    .error (.runtime ("thread " ++ threadName id ++ " suspended before returning"))

/-- Resumes a thread out of turn; only one that is due. -/
def resume (w : World σ β α) (now : Nat) (k : Scheduler β) (id : Nat) (args : List α) (s : σ) :
    Except HostError ThreadState × Scheduler β × σ :=
  let k := { k with now }
  match k.status id with
  | none => (.error (.runtime ("no such thread " ++ threadName id)), k, s)
  | some state =>
    if state.isDue now then
      let (_, k, s) := resumeThread w k id args s
      (.ok ((k.status id).getD .finished), k, s)
    else
      (.error (.runtime ("thread " ++ threadName id ++ " is not runnable (" ++ state.text ++ ")")),
        k, s)

/-- Drops the threads that ended or failed. -/
def sweep (k : Scheduler β) : Scheduler β :=
  { k with threads := k.threads.filter (! ·.state.isTerminal) }

/-- The numbers of the threads that are due at a time. -/
def due (k : Scheduler β) (now : Nat) : List Nat :=
  (k.threads.filter (·.state.isDue now)).map (·.id)

/-- Resumes some threads one after the other. -/
def resumeAll (w : World σ β α) (args : List α) :
    List Nat → Scheduler β → σ → List (Turn α) × Scheduler β × σ
  | [], k, s => ([], k, s)
  | id :: ids, k, s =>
    let (back, k, s) := resumeThread w k id args s
    let (turns, k, s) := resumeAll w args ids k s
    ((back.map (⟨id, ·⟩)).toList ++ turns, k, s)

/-- Resumes every thread that is due at a time, each once, by ascending number; then sweeps. -/
def tick (w : World σ β α) (now : Nat) (k : Scheduler β) (s : σ) : Scheduler β × σ :=
  let (_, k, s) := resumeAll w [] (k.due now) { k with now } s
  (k.sweep, s)

end Scheduler

end OscHost
