import Mathlib.Data.List.Infix
import OscHost.Proofs.Lines.Shapes
import OscHost.Proofs.Worker.Delivery
import OscHost.Proofs.Worker.Ready
/-!
  Who reads the lines.

  A line that says something has two effects, one after the other: first its types are declared, then
  its event is posted.  Whether the mailbox took the event is not looked at.  Others who post, and the
  worker, may do anything before, between and after.  A `Session` takes a line in one go, which is one
  way for a reader to go on (`run_takeLine`).

  Each event that was told is kept with what the mailbox was like at that moment, so that it can be
  said of an event that it was lost, and why.  What the reader has told, what the mailbox took of it
  and what types are known is, at every moment, what the lines say (`Faithful`).
-/

namespace OscHost

open Osc

/-! ## Registries -/

namespace Osc

namespace Registry

/-- Whether no address is declared twice. -/
def Distinct (r : Registry) : Prop := (r.entries.map (·.1)).Nodup

theorem keys_declareIn (address : String) (type : EndpointType)
    (entries : List (String × EndpointType)) :
    (declareIn address type entries).map (·.1) =
      if address ∈ entries.map (·.1) then entries.map (·.1) else entries.map (·.1) ++ [address] := by
  induction entries with
  | nil => rfl
  | cons e entries ih =>
    unfold declareIn
    by_cases he : e.1 = address
    · simp [he]
    · have hne : address ≠ e.1 := fun h => he h.symm
      rw [if_neg he, List.map_cons, ih]
      split
      · rename_i hin
        simp [hin]
      · rename_i hout
        simp [hout, hne]

theorem Distinct.declare {r : Registry} (h : r.Distinct) (address : String) (type : EndpointType) :
    (r.declare address type).Distinct := by
  unfold Distinct Registry.declare
  rw [keys_declareIn]
  split
  · exact h
  · rename_i hout
    exact List.nodup_append.mpr ⟨h, List.nodup_singleton _, fun a ha b hb hab =>
      hout (List.mem_singleton.mp hb ▸ hab ▸ ha)⟩

theorem distinct_extend (defs : List (String × EndpointType)) :
    (Registry.extend {} defs).Distinct :=
  List.foldlRecOn (motive := Distinct) defs _ List.nodup_nil fun _ h d _ => h.declare d.1 d.2

end Registry

/-- It does not matter from which end one looks for an address that is declared once. -/
theorem find?_reverse_entries {r : Registry} (h : r.Distinct) (address : String) :
    (r.entries.reverse.find? fun d => d.1 == address) =
      r.entries.find? fun d => d.1 == address := by
  unfold Registry.Distinct at h
  generalize r.entries = entries at h ⊢
  induction entries with
  | nil => rfl
  | cons d entries ih =>
    obtain ⟨hout, hrest⟩ := List.nodup_cons.mp h
    rw [List.reverse_cons, List.find?_append, ih hrest]
    by_cases hd : d.1 = address
    · have hnone : (entries.find? fun d => d.1 == address) = none := by
        rw [List.find?_eq_none]
        intro e he hkey
        exact hout (List.mem_map.mpr ⟨e, he, (beq_iff_eq.mp hkey).trans hd.symm⟩)
      simp [hd, hnone]
    · simp [hd]

/-- Declaring what a registry holds makes its types the known ones. -/
theorem Types.after_entries (known : Types) {r : Registry} (h : r.Distinct) :
    known.after r.entries = fun address => (r.get? address).or (known address) := by
  funext address
  unfold Types.after Registry.get?
  rw [find?_reverse_entries h]

end Osc

/-! ## What a line is for -/

namespace Osc.Inbound

/-- The event that a line is for. -/
def event : Inbound → Event
  | .message address values => .message address values
  | .endpoints _ => .endpointsDiscovered
  | .click path => .menuClicked path

/-- No line asks the worker to end. -/
theorem endsAll_event (said : Inbound) : said.event.endsAll = false := by
  cases said <;> rfl

/-- The types that a line declares. -/
def defs : Inbound → List (String × EndpointType)
  | .endpoints types => types.entries
  | .message .. | .click _ => []

/-- The type that a line declares for an address. -/
def typeOf (address : String) : Inbound → Option EndpointType
  | .endpoints types => types.get? address
  | .message .. | .click _ => none

/-- What a line declares is of no address twice. -/
theorem Says.after_defs {members : List (String × Json)} {said : Inbound}
    (h : Says members said) (known : Types) :
    known.after said.defs = fun address => (said.typeOf address).or (known address) := by
  cases said with
  | message address values => rfl
  | click path => rfl
  | endpoints types =>
    have hdistinct : types.Distinct := by
      rcases h with ⟨_ | _⟩ | ⟨_, ⟨_, _⟩⟩ | ⟨_, _, ⟨_⟩⟩
      exact Registry.distinct_extend _
    exact known.after_entries hdistinct

end Osc.Inbound

/-- The events that some lines are for. -/
def eventsOf (lines : List String) : List Event :=
  lines.filterMap fun line => (Session.said? line).map Inbound.event

/-- The types that are known after some lines: for each address the type in the last line that
    declares one. -/
def typesAfter (known : Types) (lines : List String) : Types := fun address =>
  (lines.reverse.findSome? fun line => (Session.said? line).bind (·.typeOf address)).or
    (known address)

/-! ## Taking a line -/

/-- Scripts after types were declared. -/
def Runner.declare (defs : List (String × EndpointType)) (r : Runner) : Runner :=
  { r with vm := r.vm.onHost fun host => { host with transport := { host.transport with
      registry := host.transport.registry.extend defs } } }

/-- A worker after types were declared. -/
def Worker.declare (defs : List (String × EndpointType)) (w : Worker) : Worker :=
  (w.onEngine (Engine.onRunner fun r => ((), r.declare defs))).2

namespace Session

theorem worker_note (lines : List LogRecord) (s : Session) :
    (lines.foldl note s).worker = s.worker :=
  List.foldlRecOn (motive := fun s' : Session => s'.worker = s.worker) lines note rfl
    fun _ hs _ _ => hs

theorem worker_post (s : Session) (event : Event) :
    (s.post event).worker = (s.worker.post event).2 :=
  worker_note _ _

/-- A line that says nothing does nothing to the worker, and one that says something declares what it
    declares and posts its event. -/
theorem takeLine_worker (s : Session) (line : String) : (s.takeLine line).worker =
    match said? line with
    | none => s.worker
    | some said => ((s.worker.declare said.defs).post said.event).2 := by
  unfold takeLine said?
  dsimp only
  split
  · rfl
  · cases Inbound.parse (trimmed line) with
    | error e => rfl
    | ok said =>
      cases said with
      | message address values => exact worker_post s _
      | endpoints types => exact worker_post _ _
      | click path => exact worker_post s _

end Session

/-! ## A reader beside others -/

/-- An event that was told to the worker, and the mailbox at that moment. -/
structure Telling where
  posting : Posting
  /-- Whether the worker took events. -/
  alive : Bool
  /-- Whether there was a place in the mailbox. -/
  room : Bool

/-- Whether the mailbox took the event. -/
def Telling.heard (t : Telling) : Bool := t.alive && t.room

namespace Exchange

/-- Declares types. -/
def declare (defs : List (String × EndpointType)) (x : Exchange) : Exchange :=
  x.advance (Engine.onRunner fun r => ((), r.declare defs)) x.stage

/-- An event about to be told. -/
def telling (x : Exchange) (event : Event) : Telling where
  posting := ⟨x.next, event⟩
  alive := x.worker.isRunning
  room := decide (x.worker.mailbox.events.length < Mailbox.capacity)

/-- What is accepted stays accepted. -/
theorem Step.accepted_prefix {x y : Exchange} (h : Step x y) : x.accepted <+: y.accepted := by
  -- only posting and shutting down note anything, and they note it behind the rest
  have hnote : ∀ event heard worker, x.accepted <+: (x.note event heard worker).accepted := by
    intro event heard worker
    unfold note
    split
    · exact List.prefix_append _ _
    · exact List.prefix_refl _
  have hadvance : ∀ {α : Type} (op : EngineM α) (stage : Stage),
      x.accepted <+: (x.advance op stage).accepted := fun _ _ => List.prefix_refl _
  cases h with
  | post event hhandle => exact hnote ..
  | shutdown hhandle hplace => exact hnote ..
  | elsewhere f => exact hadvance ..
  | start hstage => exact hadvance ..
  | timeout hstage => exact hadvance ..
  | empty hstage hmail => exact hadvance ..
  | apply now hstage hinbox =>
    rw [(apply_kept x).2.2.2.1]
  | tick now hstage hinbox => exact hadvance ..
  | abandon hstage hmail hsenders => exact hadvance ..
  | _ => exact List.prefix_refl _

theorem declare_types (x : Exchange) (defs : List (String × EndpointType)) :
    (x.declare defs).types = Types.after x.types defs :=
  Registry.get?_extend _ defs

theorem heard_telling (x : Exchange) (event : Event) :
    (x.worker.post event).1.value = (x.telling event).heard := by
  show (x.worker.mailbox.post event).1.value = (x.worker.mailbox.isOpen && decide _)
  unfold Mailbox.post
  cases x.worker.mailbox.isOpen
  · rfl
  · by_cases hroom : x.worker.mailbox.events.length < Mailbox.capacity
    · simp [hroom]
    · simp [hroom]

theorem accepted_post (x : Exchange) (event : Event) : (x.post event).accepted =
    x.accepted ++ if (x.telling event).heard then [⟨x.next, event⟩] else [] := by
  unfold post note
  rw [heard_telling]
  cases (x.telling event).heard
  · exact (List.append_nil _).symm
  · rfl

end Exchange

/-- A reader, and the worker with all who post to it. -/
structure Intake where
  exchange : Exchange
  /-- The lines so far. -/
  lines : List String := []
  /-- The event that the last line is for, as long as it is not told. -/
  held : Option Event := none
  /-- What was told for the lines. -/
  told : List Telling := []
  /-- The postings whose events had `ready` called. -/
  readied : List Posting := []

namespace Intake

/-- What the reader does in one go, or anybody else. -/
inductive Step : Intake → Intake → Prop
  /-- Who else posts, the worker or the world does something.  Nobody else declares types. -/
  | other (i : Intake) {x : Exchange} (h : i.exchange.Quiet x) :
      Step i { i with exchange := x, readied := i.readied ++ i.exchange.readied x }
  /-- A line says nothing. -/
  | pass (i : Intake) {line : String} (hheld : i.held = none) (hsaid : Session.said? line = none) :
      Step i { i with lines := i.lines ++ [line] }
  /-- A line says something, and its types are declared. -/
  | take (i : Intake) {line : String} {said : Inbound} (hheld : i.held = none)
      (hsaid : Session.said? line = some said) :
      Step i { i with exchange := i.exchange.declare said.defs, lines := i.lines ++ [line],
                      held := some said.event }
  /-- The event of the last line is posted. -/
  | tell (i : Intake) {event : Event} (hheld : i.held = some event)
      (hhandle : 0 < i.exchange.handles) :
      Step i { i with exchange := i.exchange.post event, held := none,
                      told := i.told ++ [i.exchange.telling event] }

/-- Any number of steps. -/
def Run : Intake → Intake → Prop := Relation.ReflTransGen Step

/-- A reader before the first line, and a worker that has just been made. -/
def new (e : Engine) : Intake := { exchange := .new e }

/-- Who reads may take a line in one go. -/
theorem run_takeLine (i : Intake) (line : String) (notes : Array LogRecord) (hheld : i.held = none)
    (hhandle : 0 < i.exchange.handles) : ∃ j, Run i j ∧ j.lines = i.lines ++ [line] ∧
      j.held = none ∧
      j.exchange.worker = (Session.takeLine ⟨i.exchange.worker, notes⟩ line).worker := by
  rw [Session.takeLine_worker]
  cases hsaid : Session.said? line with
  | none => exact ⟨_, .single (.pass i hheld hsaid), rfl, hheld, rfl⟩
  | some said =>
    have htake := Step.take i hheld hsaid
    refine ⟨_, (Relation.ReflTransGen.single htake).tail (.tell _ rfl hhandle), rfl, rfl, ?_⟩
    show ((i.exchange.declare said.defs).post said.event).worker = _
    unfold Exchange.post Exchange.note
    split
    · rfl
    · rfl

variable {i j : Intake} {known : Types}

/-! ## What every step preserves -/

/-- The exchange goes on, or stays as it is. -/
theorem Step.exchange (h : Step i j) : Exchange.Run i.exchange j.exchange := by
  cases h with
  | other h => exact .single h.step
  | pass hheld hsaid => exact .refl
  | take hheld hsaid => exact .single (.elsewhere _ _)
  | tell hheld hhandle => exact .single (.post _ _ hhandle)

theorem Run.exchange (h : Run i j) : Exchange.Run i.exchange j.exchange := by
  induction h with
  | refl => exact .refl
  | tail _ hstep ih => exact ih.trans hstep.exchange

/-- What every step preserves holds after a run. -/
theorem Run.keeps {P : Intake → Prop} (h : Run i j) (step : ∀ {i j}, Step i j → P i → P j)
    (hi : P i) : P j := by
  induction h with
  | refl => exact hi
  | tail _ hstep ih => exact step hstep ih

/-- Whether what was told, accepted and declared is what the lines say. -/
structure Faithful (known : Types) (i : Intake) : Prop where
  /-- One event for each line that says something, in order; the last one may be still to be told. -/
  events : i.told.map (·.posting.event) ++ i.held.toList = eventsOf i.lines
  /-- What the mailbox took of them was accepted, in order. -/
  accepted : ((i.told.filter Telling.heard).map (·.posting)).Sublist i.exchange.accepted
  types : i.exchange.types = typesAfter known i.lines

theorem eventsOf_append (lines : List String) (line : String) :
    eventsOf (lines ++ [line]) =
      eventsOf lines ++ ((Session.said? line).map Inbound.event).toList := by
  unfold eventsOf
  rw [List.filterMap_append]
  cases hsaid : Session.said? line <;> simp [hsaid]

theorem typesAfter_append (known : Types) (lines : List String) (line : String) :
    typesAfter known (lines ++ [line]) = fun address =>
      ((Session.said? line).bind (·.typeOf address)).or (typesAfter known lines address) := by
  funext address
  unfold typesAfter
  rw [List.reverse_append, List.findSome?_append, Option.or_assoc]
  cases hsaid : (Session.said? line).bind (·.typeOf address) <;> simp [hsaid]

/-- A step tells, has accepted and declares no more and no less than the lines that it takes say. -/
theorem Step.faithful (h : Step i j) (hi : i.Faithful known) : j.Faithful known := by
  obtain ⟨hevents, haccepted, htypes⟩ := hi
  cases h with
  | other h =>
    exact ⟨hevents, haccepted.trans h.step.accepted_prefix.sublist, h.spares.types_eq.trans htypes⟩
  | pass hheld hsaid =>
    refine ⟨?_, haccepted, ?_⟩
    · rw [eventsOf_append, hsaid, ← hevents]
      exact (List.append_nil _).symm
    · rw [typesAfter_append, hsaid]
      exact htypes
  | take hheld hsaid =>
    -- the line's event is held until it is told, so nothing is told yet
    obtain ⟨-, members, -, hshape⟩ := Session.said?_eq_some.mp hsaid
    refine ⟨?_, haccepted, ?_⟩
    · rw [hheld, Option.toList_none, List.append_nil] at hevents
      rw [eventsOf_append, hsaid, ← hevents]
      rfl
    · rw [typesAfter_append, hsaid, ← htypes]
      exact (i.exchange.declare_types _).trans (hshape.after_defs i.exchange.types)
  | @tell event hheld hhandle =>
    -- what was held is told now, and accepted just if it is heard
    refine ⟨?_, ?_, ?_⟩
    · rw [← hevents, hheld, List.map_append, Option.toList_none, List.append_nil]
      rfl
    · show (((i.told ++ [i.exchange.telling event]).filter Telling.heard).map
        (·.posting)).Sublist (i.exchange.post event).accepted
      rw [List.filter_append, List.map_append, Exchange.accepted_post]
      refine haccepted.append ?_
      rw [List.filter_singleton]
      cases (i.exchange.telling event).heard
      · exact List.Sublist.refl _
      · exact List.Sublist.refl _
    · exact (i.exchange.spares_post event).types_eq.trans htypes

theorem Run.faithful (h : Run i j) (hi : i.Faithful known) : j.Faithful known :=
  h.keeps Step.faithful hi

/-- Before the first line nothing is told. -/
theorem faithful_new (e : Engine) : (new e).Faithful e.registry.get? := by
  refine ⟨rfl, List.Sublist.refl _, ?_⟩
  funext address
  exact Option.none_or.symm

end Intake

end OscHost
