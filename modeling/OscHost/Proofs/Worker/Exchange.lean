import OscHost.Proofs.Worker.Inbox
import Mathlib.Logic.Relation
/-!
  Many who post, and one worker.

  Those who post and the worker run side by side: whatever one of them does in one go is a `Step`,
  and steps of different ones follow each other in any order.  The worker takes what waits in the
  mailbox event by event, then applies what waits in the inbox event by event, then resumes the
  threads that are due; between any two of these steps others may post, come and go.

  Each call that posts gets a number, so that an event can be followed through the two queues even if
  the same one is posted twice.  Then what was accepted is, at every moment, what was applied, what
  waits in the inbox and what waits in the mailbox, in this order (`Pending`): the steps move the
  borders and nothing else.  Two things end it.  The event that ends everything is never applied,
  and what was accepted before it was (`CutShort`); and when nobody is left who can post, the worker
  only stops when nothing waits.
-/

namespace OscHost

namespace Worker

theorem takeOldest_of_events {w : Worker} {event : Event} {rest : List Event}
    (h : w.mailbox.events = event :: rest) :
    w.takeOldest.mailbox.events = rest ∧
      w.takeOldest.engine.inbox = w.engine.inbox ++ [event] := by
  unfold takeOldest
  rw [h]
  exact ⟨rfl, rfl⟩

theorem onEngine_apply {α : Type} (w : Worker) (op : EngineM α) :
    w.onEngine op = ((op w.engine).1, { w with engine := (op w.engine).2 }) := rfl

end Worker

/-- A call that posts an event. -/
structure Posting where
  number : Nat
  event : Event

/-- Why a worker has ended. -/
inductive StopReason
  /-- It was asked to. -/
  | asked
  /-- Nobody was left who could post. -/
  | abandoned

/-- What a worker is about to do. -/
inductive Stage
  /-- To run the scripts that come first. -/
  | starting
  /-- To wait for an event. -/
  | waiting
  /-- To take what else waits. -/
  | taking
  /-- To apply what it took, in a tick at a time. -/
  | applying (now : Nat)
  /-- To close its mailbox. -/
  | leaving (why : StopReason)
  /-- Nothing any more. -/
  | gone (why : StopReason)

/-- A worker and those who post to it.  The numbers of the postings whose events wait are kept beside
    the mailbox and the inbox. -/
structure Exchange where
  worker : Worker
  /-- The count of those who can post. -/
  handles : Nat := 1
  stage : Stage := .starting
  mail : List Nat := []
  inbox : List Nat := []
  /-- The number of the next posting. -/
  next : Nat := 0
  /-- The postings that were accepted, in order. -/
  accepted : List Posting := []
  /-- The postings that were refused. -/
  refused : List Posting := []
  /-- The postings whose events were applied, in order. -/
  applied : List Posting := []

namespace Exchange

/-- The postings whose events wait in the inbox. -/
def taken (x : Exchange) : List Posting := x.inbox.zipWith Posting.mk x.worker.engine.inbox

/-- The postings whose events wait in the mailbox. -/
def waiting (x : Exchange) : List Posting := x.mail.zipWith Posting.mk x.worker.mailbox.events

/-- Notes what came of posting an event. -/
def note (x : Exchange) (event : Event) (heard : Bool) (worker : Worker) : Exchange :=
  if heard then
    { x with worker, next := x.next + 1, mail := x.mail ++ [x.next],
             accepted := x.accepted ++ [⟨x.next, event⟩] }
  else { x with worker, next := x.next + 1, refused := x.refused ++ [⟨x.next, event⟩] }

/-- Posts an event. -/
def post (x : Exchange) (event : Event) : Exchange :=
  x.note event (x.worker.post event).1.value (x.worker.post event).2

/-- Asks the worker to end. -/
def shutdown (x : Exchange) : Exchange := x.note .shutdown x.worker.shutdown.1 x.worker.shutdown.2

/-- Takes the event that has waited longest in the mailbox. -/
def take (x : Exchange) : Exchange :=
  { x with worker := x.worker.takeOldest, stage := .taking,
           mail := x.mail.tail, inbox := x.inbox ++ x.mail.take 1 }

/-- Does something with the engine, then comes to a stage. -/
def advance {α : Type} (x : Exchange) (op : EngineM α) (stage : Stage) : Exchange :=
  { x with worker := (x.worker.onEngine op).2, stage }

/-- Begins a tick at the time that the clock shows. -/
def beginTick (x : Exchange) : Exchange :=
  x.advance (Engine.onRunner (·.readClock)) (.applying x.worker.engine.runner.readClock.1)

/-- Applies the event that has waited longest in the inbox. -/
def apply (x : Exchange) : Exchange :=
  let (goesOn, worker) := x.worker.onEngine Engine.applyOldest
  if goesOn then
    { x with worker, inbox := x.inbox.tail, applied := x.applied ++ x.taken.take 1 }
  else { x with worker, inbox := [], stage := .leaving .asked }

/-- What the worker, those who post, or the rest of the world do in one go. -/
inductive Step : Exchange → Exchange → Prop
  | post (x : Exchange) (event : Event) (hhandle : 0 < x.handles) : Step x (x.post event)
  /-- Who asks the worker to end waits for a place in the mailbox, as long as it is open. -/
  | shutdown (x : Exchange) (hhandle : 0 < x.handles)
      (hplace : x.worker.isRunning → x.worker.mailbox.events.length < Mailbox.capacity) :
      Step x x.shutdown
  | clone (x : Exchange) (hhandle : 0 < x.handles) : Step x { x with handles := x.handles + 1 }
  | drop (x : Exchange) (hhandle : 1 < x.handles) : Step x { x with handles := x.handles - 1 }
  | dropLast (x : Exchange) (hhandle : x.handles = 1) :
      Step x { x with handles := 0, worker := x.worker.dropSenders }
  /-- Time passes, files change, endpoints come to be known. -/
  | elsewhere (x : Exchange) (f : Runner → Runner) :
      Step x (x.advance (Engine.onRunner fun r => ((), f r)) x.stage)
  | start (x : Exchange) (hstage : x.stage = .starting) :
      Step x (x.advance Engine.start .waiting)
  | take (x : Exchange) (hstage : x.stage = .waiting ∨ x.stage = .taking)
      (hmail : x.worker.mailbox.events ≠ []) : Step x x.take
  /-- The time until the next tick is over. -/
  | timeout (x : Exchange) (hstage : x.stage = .waiting) : Step x x.beginTick
  | empty (x : Exchange) (hstage : x.stage = .taking) (hmail : x.worker.mailbox.events = []) :
      Step x x.beginTick
  | apply (x : Exchange) (now : Nat) (hstage : x.stage = .applying now)
      (hinbox : x.worker.engine.inbox ≠ []) : Step x x.apply
  | tick (x : Exchange) (now : Nat) (hstage : x.stage = .applying now)
      (hinbox : x.worker.engine.inbox = []) :
      Step x (x.advance (Engine.resumeDue now) .waiting)
  /-- Whoever waits for an event is told that nobody can post only when none waits. -/
  | abandon (x : Exchange) (hstage : x.stage = .waiting) (hmail : x.worker.mailbox.events = [])
      (hsenders : x.worker.mailbox.hasSenders = false) :
      Step x (x.advance (Engine.record (.info "all host handles dropped")) (.leaving .abandoned))
  | close (x : Exchange) (why : StopReason) (hstage : x.stage = .leaving why) :
      Step x { x with worker := x.worker.stopped, stage := .gone why, mail := [] }

/-- Any number of steps. -/
def Run : Exchange → Exchange → Prop := Relation.ReflTransGen Step

/-! ## What every step preserves -/

/-- Whether each event that waits has its number. -/
structure Numbered (x : Exchange) : Prop where
  mail : x.mail.length = x.worker.mailbox.events.length
  inbox : x.inbox.length = x.worker.engine.inbox.length

/-- Whether everything that was accepted was applied or waits. -/
structure Pending (x : Exchange) : Prop extends Numbered x where
  accepted : x.accepted = x.applied ++ x.taken ++ x.waiting

/-- Whether what was accepted before the event that ends everything was applied. -/
def CutShort (x : Exchange) : Prop :=
  ∃ last rest, x.accepted = x.applied ++ last :: rest ∧ last.event.endsAll

/-- What was accepted and what was applied, by the stage of the worker. -/
def Accounts (x : Exchange) : Prop :=
  match x.stage with
  | .starting | .waiting => x.Pending ∧ x.worker.engine.inbox = []
  | .taking | .applying _ => x.Pending
  | .leaving .asked | .gone .asked => x.CutShort
  | .leaving .abandoned | .gone .abandoned => x.accepted = x.applied ∧ x.handles = 0

/-- What holds of an exchange at every moment. -/
structure Tidy (x : Exchange) : Prop where
  below : ∀ p ∈ x.accepted ++ x.refused, p.number < x.next
  distinct : ((x.accepted ++ x.refused).map (·.number)).Nodup
  plain : ∀ p ∈ x.applied, ¬ p.event.endsAll
  senders : x.worker.mailbox.hasSenders = true ↔ 0 < x.handles
  accounts : x.Accounts

variable {x y : Exchange}

theorem taken_of_eq (hnumbers : y.inbox = x.inbox)
    (hinbox : y.worker.engine.inbox = x.worker.engine.inbox) : y.taken = x.taken := by
  unfold taken
  rw [hnumbers, hinbox]

theorem waiting_of_eq (hnumbers : y.mail = x.mail)
    (hmail : y.worker.mailbox.events = x.worker.mailbox.events) : y.waiting = x.waiting := by
  unfold waiting
  rw [hnumbers, hmail]

/-- What was accepted was applied or waits; or the worker was asked to end before all of it was
    applied; or it was applied, and nobody is left to post. -/
theorem Accounts.forms (h : x.Accounts) :
    x.Pending ∨ ((x.stage = .leaving .asked ∨ x.stage = .gone .asked) ∧ x.CutShort) ∨
      (x.accepted = x.applied ∧ x.handles = 0) := by
  unfold Accounts at h
  split at h
  · exact .inl h.1
  · exact .inl h.1
  · exact .inl h
  · exact .inl h
  · exact .inr (.inl ⟨.inl ‹_›, h⟩)
  · exact .inr (.inl ⟨.inr ‹_›, h⟩)
  · exact .inr (.inr h)
  · exact .inr (.inr h)

/-- The accounts of a worker that was asked to end. -/
theorem Accounts.cutShort (h : x.Accounts)
    (hstage : x.stage = .leaving .asked ∨ x.stage = .gone .asked) : x.CutShort := by
  unfold Accounts at h
  rcases hstage with hstage | hstage
  · rw [hstage] at h
    exact h
  · rw [hstage] at h
    exact h

/-- The accounts of a worker that was abandoned. -/
theorem Accounts.settled (h : x.Accounts)
    (hstage : x.stage = .leaving .abandoned ∨ x.stage = .gone .abandoned) :
    x.accepted = x.applied ∧ x.handles = 0 := by
  unfold Accounts at h
  rcases hstage with hstage | hstage
  · rw [hstage] at h
    exact h
  · rw [hstage] at h
    exact h

/-- A step that keeps the stage keeps the accounts if it keeps each of their forms. -/
theorem Accounts.lift (h : x.Accounts) (hstage : y.stage = x.stage)
    (hinbox : y.worker.engine.inbox = x.worker.engine.inbox) (hpending : x.Pending → y.Pending)
    (hcut : x.CutShort → y.CutShort)
    (hall : x.accepted = x.applied ∧ x.handles = 0 → y.accepted = y.applied ∧ y.handles = 0) :
    y.Accounts := by
  unfold Accounts at h ⊢
  rw [hstage, hinbox]
  split at h
  · exact ⟨hpending h.1, h.2⟩
  · exact ⟨hpending h.1, h.2⟩
  · exact hpending h
  · exact hpending h
  · exact hcut h
  · exact hcut h
  · exact hall h
  · exact hall h

/-- Nothing is accepted or applied, and nothing moves. -/
theorem Pending.of_eq (h : x.Pending) (hmail : y.mail = x.mail) (hinbox : y.inbox = x.inbox)
    (hevents : y.worker.mailbox.events = x.worker.mailbox.events)
    (hengine : y.worker.engine.inbox = x.worker.engine.inbox) (haccepted : y.accepted = x.accepted)
    (happlied : y.applied = x.applied) : y.Pending := by
  refine ⟨⟨?_, ?_⟩, ?_⟩
  · rw [hmail, hevents]
    exact h.mail
  · rw [hinbox, hengine]
    exact h.inbox
  · rw [haccepted, happlied, taken_of_eq hinbox hengine, waiting_of_eq hmail hevents]
    exact h.accepted

theorem CutShort.of_eq (h : x.CutShort) (haccepted : y.accepted = x.accepted)
    (happlied : y.applied = x.applied) : y.CutShort := by
  unfold CutShort
  rw [haccepted, happlied]
  exact h

/-- Whether a step only moves the worker on and leaves what waits and what was posted. -/
structure Aside (x y : Exchange) : Prop where
  mailbox : y.worker.mailbox.events = x.worker.mailbox.events
  engine : y.worker.engine.inbox = x.worker.engine.inbox
  mail : y.mail = x.mail
  inbox : y.inbox = x.inbox
  next : y.next = x.next
  accepted : y.accepted = x.accepted
  refused : y.refused = x.refused
  applied : y.applied = x.applied

theorem Aside.pending (h : Aside x y) (hx : x.Pending) : y.Pending :=
  hx.of_eq h.mail h.inbox h.mailbox h.engine h.accepted h.applied

/-- Such a step keeps an exchange tidy if it keeps its accounts and those who can post. -/
theorem Aside.tidy (h : Aside x y) (hx : x.Tidy)
    (hsenders : y.worker.mailbox.hasSenders = true ↔ 0 < y.handles) (haccounts : y.Accounts) :
    y.Tidy := by
  refine ⟨?_, ?_, ?_, hsenders, haccounts⟩
  · rw [h.accepted, h.refused, h.next]
    exact hx.below
  · rw [h.accepted, h.refused]
    exact hx.distinct
  · rw [h.applied]
    exact hx.plain

/-! ### Posting -/

/-- What posting does to a mailbox. -/
structure Posts (w w' : Worker) (event : Event) (heard : Bool) : Prop where
  engine : w'.engine = w.engine
  isRunning : w'.isRunning = w.isRunning
  hasSenders : w'.mailbox.hasSenders = w.mailbox.hasSenders
  events : w'.mailbox.events = if heard then w.mailbox.events ++ [event] else w.mailbox.events

theorem posts_post (w : Worker) (event : Event) :
    Posts w (w.post event).2 event (w.post event).1.value := by
  show Posts w { w with mailbox := (w.mailbox.post event).2 } event (w.mailbox.post event).1.value
  unfold Mailbox.post
  split
  · exact ⟨rfl, rfl, rfl, rfl⟩
  · split
    · exact ⟨rfl, rfl, rfl, rfl⟩
    · exact ⟨rfl, rfl, rfl, rfl⟩

theorem posts_shutdown (w : Worker) : Posts w w.shutdown.2 .shutdown w.shutdown.1 := by
  show Posts w { w with mailbox := w.mailbox.shutdown.2 } .shutdown w.mailbox.shutdown.1
  unfold Mailbox.shutdown
  split
  · exact ⟨rfl, rfl, rfl, rfl⟩
  · exact ⟨rfl, rfl, rfl, rfl⟩

/-- A new number is not used yet. -/
theorem Tidy.next_not_mem (hx : x.Tidy) :
    x.next ∉ (x.accepted ++ x.refused).map (·.number) := by
  intro h
  obtain ⟨p, hp, hnumber⟩ := List.mem_map.mp h
  exact absurd (hx.below p hp) (by omega)

/-- A posting with a new number keeps numbers apart, wherever it is put. -/
theorem Tidy.with_next (hx : x.Tidy) (event : Event) {l : List Posting}
    (h : l.Perm (⟨x.next, event⟩ :: (x.accepted ++ x.refused))) :
    (∀ p ∈ l, p.number < x.next + 1) ∧ (l.map (·.number)).Nodup := by
  constructor
  · intro p hp
    rcases List.mem_cons.mp (h.mem_iff.mp hp) with rfl | hold
    · exact Nat.lt_succ_self _
    · exact Nat.lt_succ_of_lt (hx.below p hold)
  · rw [(h.map (·.number)).nodup_iff, List.map_cons, List.nodup_cons]
    exact ⟨hx.next_not_mem, hx.distinct⟩

/-- What was accepted waits behind everything else, and what was refused does not wait. -/
theorem Tidy.note (hx : x.Tidy) (hhandle : 0 < x.handles) {event : Event} {heard : Bool}
    {worker : Worker} (h : Posts x.worker worker event heard) :
    (x.note event heard worker).Tidy := by
  obtain ⟨hengine, -, hsenders, hevents⟩ := h
  have hinbox : worker.engine.inbox = x.worker.engine.inbox := by rw [hengine]
  cases heard with
  | false =>
    -- a refused event waits nowhere; only the postings grow, by one with a new number
    have hsame : worker.mailbox.events = x.worker.mailbox.events := hevents
    have hperm : (x.accepted ++ (x.refused ++ [(⟨x.next, event⟩ : Posting)])).Perm
        (⟨x.next, event⟩ :: (x.accepted ++ x.refused)) := by
      rw [← List.append_assoc]
      exact List.perm_append_singleton _ _
    obtain ⟨hbelow, hdistinct⟩ := hx.with_next event hperm
    refine ⟨hbelow, hdistinct, hx.plain, ?_, ?_⟩
    · show worker.mailbox.hasSenders = true ↔ _
      rw [hsenders]
      exact hx.senders
    · refine hx.accounts.lift rfl hinbox ?_ ?_ id
      · intro hpending
        exact hpending.of_eq rfl rfl hsame hinbox rfl rfl
      · intro hcut
        exact hcut.of_eq rfl rfl
  | true =>
    -- an accepted event is the last that waits in the mailbox
    have hmore : worker.mailbox.events = x.worker.mailbox.events ++ [event] := hevents
    have hperm : (x.accepted ++ [(⟨x.next, event⟩ : Posting)] ++ x.refused).Perm
        (⟨x.next, event⟩ :: (x.accepted ++ x.refused)) := by
      rw [List.append_assoc]
      exact List.perm_middle
    obtain ⟨hbelow, hdistinct⟩ := hx.with_next event hperm
    refine ⟨hbelow, hdistinct, hx.plain, ?_, ?_⟩
    · show worker.mailbox.hasSenders = true ↔ _
      rw [hsenders]
      exact hx.senders
    · refine hx.accounts.lift rfl hinbox ?_ ?_ ?_
      · rintro ⟨⟨hmail, htaken⟩, haccepted⟩
        refine ⟨⟨?_, ?_⟩, ?_⟩
        · show (x.mail ++ [x.next]).length = worker.mailbox.events.length
          rw [hmore, List.length_append, List.length_append, hmail]
          rfl
        · show x.inbox.length = worker.engine.inbox.length
          rw [hinbox]
          exact htaken
        · show x.accepted ++ [⟨x.next, event⟩] = x.applied ++ List.zipWith _ x.inbox worker.engine.inbox
            ++ List.zipWith _ (x.mail ++ [x.next]) worker.mailbox.events
          rw [hmore, List.zipWith_append hmail, haccepted, hinbox, List.append_assoc]
          rfl
      · -- the event that ends everything stays where it is among the accepted ones
        rintro ⟨last, rest, haccepted, hends⟩
        refine ⟨last, rest ++ [⟨x.next, event⟩], ?_, hends⟩
        show x.accepted ++ [⟨x.next, event⟩] = _
        rw [haccepted, List.append_assoc]
        rfl
      · -- someone has posted, so not everybody is gone
        rintro ⟨-, hnobody⟩
        omega

/-! ### Taking and applying -/

/-- What is taken moves from the front of the mailbox to the end of the inbox. -/
theorem Pending.take (h : x.Pending) (hmail : x.worker.mailbox.events ≠ []) : x.take.Pending := by
  obtain ⟨⟨hlength, htaken⟩, haccepted⟩ := h
  obtain ⟨event, rest, hevents⟩ := List.exists_cons_of_ne_nil hmail
  have hnumbers : x.mail ≠ [] := by
    intro hnil
    rw [hnil, hevents] at hlength
    exact nomatch hlength
  obtain ⟨number, numbers, hmail'⟩ := List.exists_cons_of_ne_nil hnumbers
  rw [hmail', hevents] at hlength
  have hlength' : numbers.length = rest.length := Nat.succ.inj hlength
  have hworker := Worker.takeOldest_of_events hevents
  -- the oldest number goes with the oldest event
  have hwaiting : x.waiting = ⟨number, event⟩ :: List.zipWith Posting.mk numbers rest := by
    unfold waiting
    rw [hmail', hevents]
    rfl
  refine ⟨⟨?_, ?_⟩, ?_⟩
  · show x.mail.tail.length = x.worker.takeOldest.mailbox.events.length
    rw [hmail', hworker.1]
    exact hlength'
  · show (x.inbox ++ x.mail.take 1).length = x.worker.takeOldest.engine.inbox.length
    rw [hmail', hworker.2, List.length_append, List.length_append, htaken]
    rfl
  · show x.accepted = x.applied
      ++ List.zipWith Posting.mk (x.inbox ++ x.mail.take 1) x.worker.takeOldest.engine.inbox
      ++ List.zipWith Posting.mk x.mail.tail x.worker.takeOldest.mailbox.events
    rw [hmail', hworker.1, hworker.2, List.zipWith_append htaken, haccepted, hwaiting]
    show x.applied ++ x.taken ++ ⟨number, event⟩ :: List.zipWith Posting.mk numbers rest =
      x.applied ++ (x.taken ++ [⟨number, event⟩]) ++ List.zipWith Posting.mk numbers rest
    simp only [List.append_assoc, List.singleton_append]

/-- The posting in front of the inbox. -/
theorem Numbered.taken_cons (h : x.Numbered) (hinbox : x.worker.engine.inbox ≠ []) :
    ∃ number numbers event rest, x.inbox = number :: numbers ∧
      x.worker.engine.inbox = event :: rest ∧ numbers.length = rest.length := by
  obtain ⟨event, rest, hevents⟩ := List.exists_cons_of_ne_nil hinbox
  have hlength := h.inbox
  cases hnumbers : x.inbox with
  | nil =>
    rw [hnumbers, hevents] at hlength
    exact nomatch hlength
  | cons number numbers =>
    rw [hnumbers, hevents] at hlength
    exact ⟨number, numbers, event, rest, rfl, hevents, Nat.succ.inj hlength⟩

theorem apply_eq (x : Exchange) : x.apply =
    if (Engine.applyOldest x.worker.engine).1 then
      { x with worker := (x.worker.onEngine Engine.applyOldest).2, inbox := x.inbox.tail,
               applied := x.applied ++ x.taken.take 1 }
    else { x with worker := (x.worker.onEngine Engine.applyOldest).2, inbox := [],
                  stage := .leaving .asked } := rfl

/-- What is applied moves from the front of the inbox to the end of what was applied; the event that
    ends everything does not move. -/
theorem Pending.apply (h : x.Pending) (hinbox : x.worker.engine.inbox ≠ []) :
    (x.apply.stage = x.stage ∧ x.apply.Pending ∧
        ∃ p, x.apply.applied = x.applied ++ [p] ∧ ¬ p.event.endsAll) ∨
      (x.apply.stage = .leaving .asked ∧ x.apply.CutShort ∧ x.apply.applied = x.applied) := by
  obtain ⟨number, numbers, event, rest, hnumbers, hevents, hlength⟩ := h.taken_cons hinbox
  have htaken : x.taken = ⟨number, event⟩ :: List.zipWith Posting.mk numbers rest := by
    unfold taken
    rw [hnumbers, hevents]
    rfl
  obtain ⟨hgoesOn, hrest⟩ := Engine.applyOldest_cons hevents
  have happly := x.apply_eq
  have haccepted := h.accepted
  rw [htaken] at haccepted happly
  rw [hgoesOn] at happly
  -- the event is applied, or it is the one that ends everything and is dropped with the rest
  cases hends : event.endsAll with
  | false =>
    rw [hends] at happly hrest
    have happly' : x.apply = { x with
        worker := (x.worker.onEngine Engine.applyOldest).2, inbox := x.inbox.tail,
        applied := x.applied ++ [⟨number, event⟩] } := happly
    refine .inl ⟨?_, ?_, ⟨number, event⟩, ?_, ?_⟩
    · rw [happly']
    · rw [happly']
      refine ⟨⟨h.mail, ?_⟩, ?_⟩
      · show x.inbox.tail.length = (Engine.applyOldest x.worker.engine).2.inbox.length
        rw [hrest, hnumbers]
        exact hlength
      · show x.accepted = x.applied ++ [⟨number, event⟩]
          ++ List.zipWith Posting.mk x.inbox.tail (Engine.applyOldest x.worker.engine).2.inbox
          ++ x.waiting
        rw [hrest, hnumbers, haccepted]
        show x.applied ++ ⟨number, event⟩ :: List.zipWith Posting.mk numbers rest ++ x.waiting =
          x.applied ++ [⟨number, event⟩] ++ List.zipWith Posting.mk numbers rest ++ x.waiting
        simp only [List.append_assoc, List.cons_append, List.nil_append]
    · rw [happly']
    · show ¬ event.endsAll = true
      rw [hends]
      exact Bool.false_ne_true
  | true =>
    rw [hends] at happly
    have happly' : x.apply = { x with
        worker := (x.worker.onEngine Engine.applyOldest).2, inbox := [],
        stage := .leaving .asked } := happly
    rw [happly']
    refine .inr ⟨rfl, ⟨⟨number, event⟩, List.zipWith Posting.mk numbers rest ++ x.waiting, ?_, hends⟩,
      rfl⟩
    show x.accepted = _
    rw [haccepted, List.append_assoc]
    rfl

/-- Applying changes nothing of what was posted. -/
theorem apply_kept (x : Exchange) : x.apply.worker.mailbox = x.worker.mailbox ∧
    x.apply.handles = x.handles ∧ x.apply.next = x.next ∧ x.apply.accepted = x.accepted ∧
    x.apply.refused = x.refused := by
  unfold apply
  dsimp only
  split
  · exact ⟨rfl, rfl, rfl, rfl, rfl⟩
  · exact ⟨rfl, rfl, rfl, rfl, rfl⟩

/-! ### Every step -/

/-- The worker does something that leaves the mailbox and the inbox alone. -/
theorem aside_advance {α : Type} {op : EngineM α} (hop : Engine.SparesInbox op) (stage : Stage) :
    Aside x (x.advance op stage) :=
  ⟨rfl, hop x.worker.engine, rfl, rfl, rfl, rfl, rfl, rfl⟩

/-- Who can post changes, or the rest of the world. -/
theorem Aside.tidy_of_stage (h : Aside x y) (hx : x.Tidy) (hstage : y.stage = x.stage)
    (hsenders : y.worker.mailbox.hasSenders = true ↔ 0 < y.handles)
    (hhandles : x.handles = 0 → y.handles = 0) : y.Tidy := by
  refine h.tidy hx hsenders (hx.accounts.lift hstage h.engine h.pending ?_ ?_)
  · intro hcut
    exact hcut.of_eq h.accepted h.applied
  · rintro ⟨hall, hnobody⟩
    rw [h.accepted, h.applied]
    exact ⟨hall, hhandles hnobody⟩

/-- A tick begins with everything that waits in the inbox. -/
theorem Tidy.beginTick (hx : x.Tidy) (hpending : x.Pending) : x.beginTick.Tidy := by
  have haside := aside_advance (x := x) (Engine.SparesInbox.onRunner (·.readClock))
    (.applying x.worker.engine.runner.readClock.1)
  exact haside.tidy hx hx.senders (haside.pending hpending)

/-- A worker whose inbox is empty goes back to wait. -/
theorem Tidy.advance_waiting {α : Type} {op : EngineM α} (hx : x.Tidy)
    (hop : Engine.SparesInbox op) (hpending : x.Pending) (hinbox : x.worker.engine.inbox = []) :
    (x.advance op .waiting).Tidy := by
  have haside := aside_advance (x := x) hop .waiting
  exact haside.tidy hx hx.senders ⟨haside.pending hpending, haside.engine.trans hinbox⟩

/-- When neither queue holds anything, all that was accepted was applied. -/
theorem Pending.accepted_eq_applied (h : x.Pending) (hinbox : x.worker.engine.inbox = [])
    (hmail : x.worker.mailbox.events = []) : x.accepted = x.applied := by
  have haccepted := h.accepted
  unfold taken waiting at haccepted
  rw [hinbox, hmail, List.zipWith_nil_right, List.zipWith_nil_right, List.append_nil,
    List.append_nil] at haccepted
  exact haccepted

/-- A worker is told that nobody can post when neither queue holds anything. -/
theorem Tidy.advance_abandoned {α : Type} {op : EngineM α} (hx : x.Tidy)
    (hop : Engine.SparesInbox op) (hpending : x.Pending) (hinbox : x.worker.engine.inbox = [])
    (hmail : x.worker.mailbox.events = []) (hsenders : x.worker.mailbox.hasSenders = false) :
    (x.advance op (.leaving .abandoned)).Tidy := by
  have haside := aside_advance (x := x) hop (.leaving .abandoned)
  have hall := hpending.accepted_eq_applied hinbox hmail
  have hnobody : ¬ 0 < x.handles := by
    rw [← hx.senders, hsenders]
    exact Bool.false_ne_true
  exact haside.tidy hx hx.senders ⟨hall, Nat.eq_zero_of_not_pos hnobody⟩

/-- The oldest event in the mailbox goes to the inbox. -/
theorem Tidy.take (hx : x.Tidy) (hpending : x.Pending) (hmail : x.worker.mailbox.events ≠ []) :
    x.take.Tidy := by
  have hsenders : x.take.worker.mailbox.hasSenders = x.worker.mailbox.hasSenders := by
    show x.worker.takeOldest.mailbox.hasSenders = _
    unfold Worker.takeOldest
    split
    · rfl
    · rfl
  exact ⟨hx.below, hx.distinct, hx.plain, hsenders ▸ hx.senders, hpending.take hmail⟩

/-- The oldest event in the inbox is applied, or ends everything. -/
theorem Tidy.apply {now : Nat} (hx : x.Tidy) (hstage : x.stage = .applying now)
    (hpending : x.Pending) (hinbox : x.worker.engine.inbox ≠ []) : x.apply.Tidy := by
  obtain ⟨hmailbox, hhandles, hnext, haccepted, hrefused⟩ := apply_kept x
  -- what ends everything is never applied
  have hplain : ∀ p ∈ x.apply.applied, ¬ p.event.endsAll := by
    intro p hp
    rcases hpending.apply hinbox with ⟨-, -, new, happlied, hplain⟩ | ⟨-, -, happlied⟩
    · rw [happlied] at hp
      rcases List.mem_append.mp hp with hold | hnew
      · exact hx.plain p hold
      · rw [List.mem_singleton.mp hnew]
        exact hplain
    · rw [happlied] at hp
      exact hx.plain p hp
  refine ⟨?_, ?_, hplain, ?_, ?_⟩
  · rw [haccepted, hrefused, hnext]
    exact hx.below
  · rw [haccepted, hrefused]
    exact hx.distinct
  · rw [hmailbox, hhandles]
    exact hx.senders
  · unfold Accounts
    rcases hpending.apply hinbox with ⟨hstage', hpending', -⟩ | ⟨hstage', hcut, -⟩
    · rw [hstage', hstage]
      exact hpending'
    · rw [hstage']
      exact hcut

/-- Every step keeps an exchange tidy. -/
theorem Step.tidy (h : Step x y) (hx : x.Tidy) : y.Tidy := by
  have haccounts := hx.accounts
  unfold Accounts at haccounts
  -- what others do keeps the stage; what the worker does leads from the accounts of one stage to
  -- those of the next
  cases h with
  | post event hhandle => exact hx.note hhandle (posts_post x.worker event)
  | shutdown hhandle _ => exact hx.note hhandle (posts_shutdown x.worker)
  | clone hhandle =>
    have haside : Aside x { x with handles := x.handles + 1 } :=
      ⟨rfl, rfl, rfl, rfl, rfl, rfl, rfl, rfl⟩
    refine haside.tidy_of_stage hx rfl ?_ ?_
    · exact iff_of_true (hx.senders.mpr hhandle) (Nat.succ_pos _)
    · intro hnobody
      omega
  | drop hhandle =>
    have haside : Aside x { x with handles := x.handles - 1 } :=
      ⟨rfl, rfl, rfl, rfl, rfl, rfl, rfl, rfl⟩
    refine haside.tidy_of_stage hx rfl ?_ ?_
    · exact iff_of_true (hx.senders.mpr (by omega)) (Nat.sub_pos_of_lt hhandle)
    · intro hnobody
      omega
  | dropLast hhandle =>
    have haside : Aside x { x with handles := 0, worker := x.worker.dropSenders } :=
      ⟨rfl, rfl, rfl, rfl, rfl, rfl, rfl, rfl⟩
    refine haside.tidy_of_stage hx rfl ?_ fun _ => rfl
    exact iff_of_false Bool.false_ne_true (Nat.lt_irrefl 0)
  | elsewhere f =>
    have haside := aside_advance (x := x) (Engine.SparesInbox.onRunner fun r => ((), f r)) x.stage
    exact haside.tidy_of_stage hx rfl hx.senders id
  | start hstage =>
    rw [hstage] at haccounts
    exact hx.advance_waiting Engine.SparesInbox.start haccounts.1 haccounts.2
  | take hstage hmail =>
    have hpending : x.Pending := by
      rcases hstage with hstage | hstage
      · rw [hstage] at haccounts
        exact haccounts.1
      · rw [hstage] at haccounts
        exact haccounts
    exact hx.take hpending hmail
  | timeout hstage =>
    rw [hstage] at haccounts
    exact hx.beginTick haccounts.1
  | empty hstage hmail =>
    rw [hstage] at haccounts
    exact hx.beginTick haccounts
  | apply now hstage hinbox =>
    rw [hstage] at haccounts
    exact hx.apply hstage haccounts hinbox
  | tick now hstage hinbox =>
    rw [hstage] at haccounts
    exact hx.advance_waiting (Engine.SparesInbox.resumeDue now) haccounts hinbox
  | abandon hstage hmail hsenders =>
    rw [hstage] at haccounts
    exact hx.advance_abandoned (Engine.SparesInbox.record _) haccounts.1 haccounts.2 hmail hsenders
  | close why hstage =>
    rw [hstage] at haccounts
    refine ⟨hx.below, hx.distinct, hx.plain, hx.senders, ?_⟩
    cases why with
    | asked => exact haccounts
    | abandoned => exact haccounts

theorem Run.tidy (h : Run x y) (hx : x.Tidy) : y.Tidy := by
  induction h with
  | refl => exact hx
  | tail _ hstep ih => exact hstep.tidy ih

/-- A worker that has just been made is tidy. -/
theorem tidy_new {e : Engine} (h : e.inbox = []) : ({ worker := { engine := e } } : Exchange).Tidy := by
  refine ⟨?_, List.nodup_nil, ?_, ?_, ⟨⟨rfl, ?_⟩, ?_⟩, h⟩
  · exact fun _ hp => absurd hp List.not_mem_nil
  · exact fun _ hp => absurd hp List.not_mem_nil
  · exact iff_of_true rfl Nat.one_pos
  · show 0 = e.inbox.length
    rw [h]
    rfl
  · show [] = [] ++ List.zipWith Posting.mk [] e.inbox ++ []
    rfl

end Exchange

end OscHost
