import OscHost.Engine
/-!
  The worker: the one thread that owns the engine.

  Others only post events.  The mailbox between them holds a bounded number of events and hands them
  over in the order in which they were accepted; what does not fit is dropped and told.  A worker
  goes in rounds: it takes every event that waits and ticks once.
-/

namespace OscHost

/-- The queue of events between those who post and the worker. -/
structure Mailbox where
  /-- Accepted and not yet taken, the oldest first. -/
  events : List Event := []
  /-- Whether the worker still takes events. -/
  isOpen : Bool := true
  /-- Whether anyone is left who can post. -/
  hasSenders : Bool := true

namespace Mailbox

/-- Events that wait at most. -/
def capacity : Nat := 1024

/-- Posts an event without waiting; whether it was accepted. -/
def post (m : Mailbox) (e : Event) : Logged Bool × Mailbox :=
  if ! m.isOpen then
    (⟨false, [.warn ("script host is gone; dropped " ++ e.kind ++ " event")]⟩, m)
  else if m.events.length < capacity then
    (⟨true, []⟩, { m with events := m.events ++ [e] })
  else (⟨false, [.warn ("script host queue is full; dropped " ++ e.kind ++ " event")]⟩, m)

/-- Asks the worker to end, waiting for a place in the queue; whether anyone heard. -/
def shutdown (m : Mailbox) : Bool × Mailbox :=
  if m.isOpen then (true, { m with events := m.events ++ [.shutdown] }) else (false, m)

end Mailbox

/-- The worker with its mailbox. -/
structure Worker where
  engine : Engine
  mailbox : Mailbox := {}

namespace Worker

/-- Does something with the engine. -/
def onEngine {α : Type} (w : Worker) (x : EngineM α) : α × Worker :=
  match w with
  | { engine, mailbox } =>
    let (a, engine) := x engine
    (a, { engine, mailbox })

/-- Runs the scripts that come first. -/
def start (w : Worker) : Worker := (w.onEngine Engine.start).2

/-- Whether the worker goes on. -/
def isRunning (w : Worker) : Bool := w.mailbox.isOpen

/-- Posts an event. -/
def post (w : Worker) (e : Event) : Logged Bool × Worker :=
  let (r, mailbox) := w.mailbox.post e
  (r, { w with mailbox })

/-- Asks the worker to end. -/
def shutdown (w : Worker) : Bool × Worker :=
  let (heard, mailbox) := w.mailbox.shutdown
  (heard, { w with mailbox })

/-- Nobody can post any more. -/
def dropSenders (w : Worker) : Worker := { w with mailbox := { w.mailbox with hasSenders := false } }

/-- The worker after its last round. -/
def stopped (w : Worker) : Worker :=
  let w := { w with mailbox := { w.mailbox with isOpen := false, events := [] } }
  let line := "script host stopped; " ++ toString w.engine.live ++ " thread(s) abandoned"
  (w.onEngine (Engine.record (.info line))).2

/-- Hands the event that has waited longest over to the engine. -/
def takeOldest (w : Worker) : Worker :=
  match w.mailbox.events with
  | [] => w
  | event :: rest =>
    (({ w with mailbox := { w.mailbox with events := rest } } : Worker).onEngine
      (Engine.enqueue event)).2

/-- Hands so many of the events that wait over to the engine, in order. -/
def takeWaiting : (count : Nat) → Worker → Worker
  | 0, w => w
  | count + 1, w => takeWaiting count w.takeOldest

/-- Takes what waits and ticks at the time that the clock shows. -/
def takeAndTick (w : Worker) : Worker :=
  let (goesOn, w) := (w.takeWaiting w.mailbox.events.length).onEngine Engine.tickNow
  if goesOn then w else w.stopped

/-- One round.  The worker ends when nothing waits and nobody can post. -/
def round (w : Worker) : Worker :=
  if ! w.isRunning then w
  else if w.mailbox.events.isEmpty && ! w.mailbox.hasSenders then
    (w.onEngine (Engine.record (.info "all host handles dropped"))).2.stopped
  else w.takeAndTick

/-- Lets time pass. -/
def wait (ns : Nat) (w : Worker) : Worker :=
  (w.onEngine (Engine.onVm fun vm =>
    ((), vm.onHost fun host => { host with clock := host.clock + ns }))).2

/-- Goes in rounds, a tick apart, until something holds of the worker or it ends; at most so many
    rounds. -/
def roundsUntil (holds : Worker → Bool) : (rounds : Nat) → Worker → Worker
  | 0, w => w
  | rounds + 1, w =>
    if holds w || ! w.isRunning then w
    else roundsUntil holds rounds (wait (w.engine.config.tickMs * 1000000) w.round)

end Worker

end OscHost
