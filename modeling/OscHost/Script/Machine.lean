import OscHost.Script.Activation
/-!
  The machine that runs scripts.

  A coroutine is a stack of frames: activations of script functions and library computations, each
  waiting for the one above it.  The machine looks at one thing at a time, its `Focus`: an
  activation that runs, an action of the library, results on their way down, or an error on its way
  to whoever catches it.  A coroutine that is resumed sets the frames of its resumer aside until it
  yields or ends.
-/

namespace OscHost.Script

/-- A library computation that runs: what it belongs to and where. -/
structure Context where
  function : Value
  name : Option Origin
  site : Site

/-- How a library computation goes on after a call. -/
inductive Continuation
  | plain (k : List Value → Heap → Action)
  /-- Errors come back as well, after the handler has seen them. -/
  | guarded (handler : Option Value) (k : Except Value (List Value) → Heap → Action)
  /-- A handler is at work: what it yields is the error to go on with. -/
  | handling

/-- What waits for results. -/
inductive Frame
  | script (a : Activation)
  | library (c : Context) (k : Continuation)

/-- A frame with what it and those below it add up to: nested calls of the library, places on the
    stack, and whether a pinned call is among them. -/
structure Held where
  frame : Frame
  depth : Nat
  extent : Nat
  pinned : Bool

/-- Someone who waits for a coroutine. -/
structure Resumer where
  thread : Option Nat
  frames : List Held
  base : Nat
  context : Context
  k : Except Value (List Value) → Heap → Action

/-- A coroutine: its function, how it stands, the frames it is suspended with, and, once it died of an
    error, what remains of it. -/
structure Coroutine where
  body : Value
  standing : Standing := .suspended
  frames : List Held := []
  remains : Remains := {}

/-- The coroutines by number, the frames of the running one, and those who wait for it.  The number of
    the running one is none for the host's own thread, which has number zero for scripts. -/
structure Machine where
  coroutines : Array Coroutine := #[{ body := .nil }]
  thread : Option Nat := none
  frames : List Held := []
  base : Nat := 0
  resumers : List Resumer := []

/-- What the machine looks at. -/
inductive Focus
  | script (a : Activation) (h : Heap)
  | library (x : Action) (c : Context)
  | values (vs : List Value) (h : Heap)
  | error (v : Value) (h : Heap)
  /-- An error that its handler has seen. -/
  | unwind (v : Value) (h : Heap)

/-- How a run ends. -/
inductive Outcome
  | finished (values : List Value)
  | yielded (values : List Value)
  | failed (error : Value)
  | outOfFuel

namespace Machine

/-- Most nested calls through the library. -/
def maxDepth : Nat := 200

/-- Nested calls at which even errors about too many of them are given up. -/
def maxErrorDepth : Nat := 220

/-- Most places on the stack of a coroutine. -/
def maxExtent : Nat := 1000000

/-- Instructions carried out before the machine counts a step. -/
def burst : Nat := 10000

/-! ## Running functions -/

/-- The place of an activation. -/
def placeOf (a : Activation) : Bytes × Nat := (Proto.shownChunk a.proto.chunk, a.line)

/-- The function that a frame is, unless it is a part of another one. -/
def levelOf (f : Held) : Option Level :=
  match f.frame with
  | .script a => some ⟨.closure a.closure, some (placeOf a), a.name⟩
  | .library c (.plain _) | .library c (.guarded ..) =>
    if c.site.isOperator then none else some ⟨c.function, none, c.name⟩
  | .library _ .handling => none

/-- The running function at some depth among frames. -/
def levelIn : List Held → Nat → Option Level
  | [], _ => none
  | f :: rest, n =>
    match levelOf f, n with
    | some l, 0 => some l
    | some _, n + 1 => levelIn rest n
    | none, n => levelIn rest n

/-- Whether no pinned call is among the frames. -/
def loose (frames : List Held) : Bool :=
  match frames with
  | [] => true
  | f :: _ => ! f.pinned

/-- The site of a function that is called above some frames. -/
def siteOf (m : Machine) (function : Value) (name : Option Origin) : Site :=
  let frames := m.frames
  { levels := fun n => match n with
      | 0 => some ⟨function, none, name⟩
      | n + 1 => levelIn frames n
    isOperator := false
    thread := m.thread
    canYield := m.thread.isSome && loose frames }

/-- The site of an operator of the activation on top of the frames. -/
def operatorSite (m : Machine) : Site :=
  let frames := m.frames
  { levels := levelIn frames
    isOperator := true
    thread := m.thread
    canYield := m.thread.isSome && loose frames }

/-- How deep calls are nested. -/
def depth (m : Machine) : Nat :=
  match m.frames with
  | [] => m.base
  | f :: _ => f.depth

/-- How many places are in use. -/
def extent (m : Machine) : Nat :=
  match m.frames with
  | [] => 0
  | f :: _ => f.extent

/-- Sets an activation aside until results come. -/
def hold (m : Machine) (a : Activation) : Machine :=
  let held : Held := ⟨.script a, m.depth, m.extent + a.slots.size + 4, ! loose m.frames⟩
  { m with frames := held :: m.frames }

/-- Sets a library computation aside until results come. -/
def holdLibrary (m : Machine) (c : Context) (k : Continuation) (pinned : Bool) : Machine :=
  let held : Held := ⟨.library c k, m.depth + 1, m.extent + 8, pinned || ! loose m.frames⟩
  { m with frames := held :: m.frames }

/-! ## Calls -/

/-- Something to call, with its arguments. -/
inductive Callee
  | closure (id : Nat) (args : List Value)
  | library (f : Value) (args : List Value)
  | nothing (v : Value)

/-- What calling a value comes to: values that are no functions may name one. -/
def callee (h : Heap) (f : Value) (args : List Value) : (fuel : Nat) → Callee
  | 0 => .nothing f
  | fuel + 1 =>
    match f with
    | .closure id => .closure id args
    | .builtin _ | .native _ => .library f args
    | f =>
      match h.metamethod f "__call" with
      | .nil => .nothing f
      | g => callee h g (f :: args) fuel

/-- Most values in a row that name another one to call. -/
def maxCallees : Nat := 100

/-- Whether the next call is made by a script, so that complaints about it name a place. -/
def calledByScript (m : Machine) : Bool :=
  match m.frames with
  | ⟨.script _, _, _, _⟩ :: _ => true
  | ⟨.library c _, _, _, _⟩ :: _ => c.site.isOperator
  | [] => false

/-- The focus of a complaint about a call that cannot be made. -/
def refuse (m : Machine) (x : Lib (List Value)) (h : Heap) : Focus :=
  let site := if m.calledByScript then m.operatorSite else m.siteOf .nil none
  .library (x.action site h) ⟨.nil, none, site⟩

/-- Calls a value above the frames. -/
def enter (invoke : Value → List Value → Lib (List Value)) (m : Machine) (f : Value)
    (args : List Value) (origin : Option Origin) (h : Heap) : Focus :=
  match callee h f args maxCallees with
  | .closure id args =>
    match h.closures[id]? with
    | some c =>
      if maxExtent < m.extent + c.proto.slots then
        m.refuse (Lib.complain "stack overflow") h
      else .script (.start id c args origin) h
    | none => .values [] h
  | .library f args =>
    let site := m.siteOf f origin
    .library ((invoke f args).action site h) ⟨f, origin, site⟩
  | .nothing v =>
    let origin := if m.calledByScript then origin else none
    m.refuse (Lib.wrongType "call" v origin) h

/-- Calls a value on behalf of a library computation that has been set aside. -/
def enterNested (invoke : Value → List Value → Lib (List Value)) (m : Machine) (f : Value)
    (args : List Value) (origin : Option Origin) (h : Heap) : Focus :=
  if m.depth = maxDepth then m.refuse (Lib.complain "C stack overflow") h
  else if maxErrorDepth ≤ m.depth then .unwind (.text "error in error handling") h
  else m.enter invoke f args origin h

/-! ## Errors -/

/-- What the activations among some frames left open, the newest first. -/
def leftOpen (h : Heap) (frames : List Held) : List Value :=
  frames.flatMap fun f =>
    match f.frame with
    | .script a => a.leftOpen h
    | .library .. => []

/-- The frames above the innermost one that catches errors, that frame, and those below. -/
def catcher (above : List Held) : List Held →
    Option (List Held × Context × Option Value ×
      (Except Value (List Value) → Heap → Action) × List Held)
  | [] => none
  | f :: rest =>
    match f.frame with
    | .library c (.guarded handler k) => some (above.reverse, c, handler, k, rest)
    | _ => catcher (f :: above) rest

/-- Closes objects one after the other; an error of one takes the place of the error before. -/
def closeAll (error : Option Value) : List Value → Lib (Option Value)
  | [] => pure error
  | v :: rest => do
    let f ← Lib.read (·.metamethod v "__close")
    match ← Lib.attempt f [v, error.getD .nil] with
    | .ok _ => closeAll error rest
    | .error e => closeAll (some e) rest

/-- Goes on with the one who catches an error, after closing what was left open. -/
def caught (c : Context) (k : Except Value (List Value) → Heap → Action) (openValues : List Value)
    (v : Value) (h : Heap) : Focus :=
  .library (closeAll (some v) openValues c.site (fun e h => k (.error (e.getD v)) h) h) c

/-! ## Coroutines -/

/-- How a coroutine stands. -/
def standing (m : Machine) (id : Nat) : Standing :=
  match m.coroutines[id]? with
  | some co => co.standing
  | none => .dead

/-- The function of a coroutine. -/
def bodyOf (m : Machine) (id : Nat) : Value :=
  match m.coroutines[id]? with
  | some co => co.body
  | none => .nil

/-- The frames that a coroutine is suspended with. -/
def framesOf (m : Machine) (id : Nat) : List Held :=
  match m.coroutines[id]? with
  | some co => co.frames
  | none => []

/-- Changes a coroutine. -/
def modifyCoroutine (m : Machine) (id : Nat) (f : Coroutine → Coroutine) : Machine :=
  { m with coroutines := m.coroutines.modify id f }

/-- A new coroutine. -/
def newCoroutine (m : Machine) (body : Value) : Nat × Machine :=
  (m.coroutines.size, { m with coroutines := m.coroutines.push { body } })

/-- Changes how a coroutine stands; nobody asks how the host's own thread does. -/
def stand (m : Machine) (thread : Option Nat) (standing : Standing) : Machine :=
  match thread with
  | some id => m.modifyCoroutine id fun co => { co with standing }
  | none => m

/-- What remains of a coroutine that does not run. -/
def remainsOf (m : Machine) (id : Nat) (h : Heap) : Remains :=
  match m.coroutines[id]? with
  | some co => { co.remains with leftOpen := leftOpen h co.frames ++ co.remains.leftOpen }
  | none => {}

/-! ## Steps -/

/-- What comes of a step. -/
inductive Progress
  | next (m : Machine) (f : Focus)
  | ended (o : Outcome) (m : Machine) (h : Heap)
  | ask (m : Machine) (e : Effect) (h : Heap) (k : e.Reply → Heap → Action) (c : Context)

/-- The site of the host, below all frames. -/
def hostSite : Site := ⟨fun _ => none, false, none, false⟩

/-- The context of the host. -/
def hostContext : Context := ⟨.nil, none, hostSite⟩

/-- How a run ends when what the host has begun yields or ends. -/
def outcomeOf (r : Except Value (List Value)) (standing : Standing) : Outcome :=
  match r, standing with
  | .ok values, .suspended => .yielded values
  | .ok values, _ => .finished values
  | .error v, _ => .failed v

/-- Hands the end of the running coroutine to whoever waits for it. -/
def leave (m : Machine) (r : Except Value (List Value)) (standing : Standing) (h : Heap) :
    Progress :=
  let m := m.stand m.thread standing
  match m.resumers with
  | r' :: resumers =>
    let m := m.stand r'.thread .running
    .next { m with thread := r'.thread, frames := r'.frames, base := r'.base, resumers }
      (.library (r'.k r h) r'.context)
  | [] =>
    .ended (outcomeOf r standing) { m with thread := none, frames := [] } h

/-- An error that nobody in the running coroutine catches. -/
def uncaught (m : Machine) (v : Value) (h : Heap) : Progress :=
  let openValues := leftOpen h m.frames
  match m.thread with
  | some id =>
    let m := m.modifyCoroutine id fun co => { co with remains := ⟨some v, openValues⟩ }
    leave { m with frames := [] } (.error v) .dead h
  | none =>
    if openValues.isEmpty then leave { m with frames := [] } (.error v) .dead h
    else
      .next { m with frames := [] }
        (.library (closeAll (some v) openValues hostSite (fun e h => .fail (e.getD v) h) h)
          hostContext)

/-- Hands results to the innermost frame. -/
def giveBack (m : Machine) (vs : List Value) (h : Heap) : Progress :=
  match m.frames with
  | [] => leave m (.ok vs) .dead h
  | ⟨.script a, _, _, _⟩ :: frames => .next { m with frames } (.script (a.deliver vs) h)
  | ⟨.library c k, _, _, _⟩ :: frames =>
    match k with
    | .plain k => .next { m with frames } (.library (k vs h) c)
    | .guarded _ k => .next { m with frames } (.library (k (.ok vs) h) c)
    | .handling => .next { m with frames } (.unwind (firstOf vs) h)

/-- Has a suspended coroutine start or go on. -/
def awaken (invoke : Value → List Value → Lib (List Value)) (m : Machine) (thread : Nat)
    (args : List Value) (h : Heap) : Machine × Focus :=
  let body := m.bodyOf thread
  let frames := m.framesOf thread
  let m := m.modifyCoroutine thread fun co => { co with standing := .running, frames := [] }
  let m := { m with thread := some thread, frames }
  (m, if frames.isEmpty then m.enter invoke body args none h else .values args h)

/-- Starts or goes on with a coroutine on behalf of a library computation. -/
def resumeStep (invoke : Value → List Value → Lib (List Value)) (m : Machine) (c : Context)
    (thread : Nat) (args : List Value) (h : Heap)
    (k : Except Value (List Value) → Heap → Action) : Progress :=
  let refused (text : String) : Progress := .next m (.library (k (.error (.text text)) h) c)
  match m.standing thread with
  | .dead => refused "cannot resume dead coroutine"
  | .running | .normal => refused "cannot resume non-suspended coroutine"
  | .suspended =>
    if maxDepth ≤ m.depth + 1 then refused "C stack overflow"
    else
      let resumer : Resumer := ⟨m.thread, m.frames, m.base, c, k⟩
      let base := m.depth + 1
      let m := m.stand m.thread .normal
      let (m, f) := awaken invoke { m with base, resumers := resumer :: m.resumers } thread args h
      .next m f

/-- Suspends the running coroutine. -/
def yieldStep (m : Machine) (c : Context) (values : List Value) (h : Heap)
    (k : List Value → Heap → Action) : Progress :=
  match m.thread with
  | none => .next m (.error (.text "attempt to yield from outside a coroutine") h)
  | some id =>
    if ! loose m.frames then
      .next m (.error (.text "attempt to yield across a C-call boundary") h)
    else
      let frames := (m.holdLibrary c (.plain k) false).frames
      let m := m.modifyCoroutine id fun co => { co with frames }
      leave { m with frames := [] } (.ok values) .suspended h

/-- One step. -/
def step (invoke : Value → List Value → Lib (List Value)) (m : Machine) : Focus → Progress
  | .script a h =>
    match Activation.run burst h a with
    | ⟨h, a, .outOfFuel⟩ => .next m (.script a h)
    | ⟨h, a, .call f args origin⟩ =>
      let m := m.hold a
      .next m (m.enter invoke f args origin h)
    | ⟨h, a, .tailCall f args origin⟩ =>
      match callee h f args maxCallees with
      | .closure .. => .next m (m.enter invoke f args none h)
      | _ =>
        let m := m.hold a
        .next m (m.enter invoke f args origin h)
    | ⟨h, _, .returned values⟩ => .next m (.values values h)
    | ⟨h, a, .compute x⟩ =>
      let m := m.hold a
      let site := m.operatorSite
      .next m (.library (x.action site h) ⟨.nil, none, site⟩)
  | .library x c =>
    match x with
    | .done values h => .next m (.values values h)
    | .fail v h => .next m (.error v h)
    | .call f args origin pinned h k =>
      let m := m.holdLibrary c (.plain k) pinned
      .next m (m.enterNested invoke f args origin h)
    | .become f args h => .next m (m.enter invoke f args none h)
    | .guard f args handler pinned h k =>
      let m := m.holdLibrary c (.guarded handler k) pinned
      .next m (m.enterNested invoke f args none h)
    | .ask e h k => .ask m e h k c
    | .create body h k =>
      let (id, m) := m.newCoroutine body
      .next m (.library (k id h) c)
    | .inspect thread h k => .next m (.library (k (m.standing thread) h) c)
    | .resume thread args h k => resumeStep invoke m c thread args h k
    | .yield values h k => yieldStep m c values h k
    | .abandon thread h k =>
      let remains := m.remainsOf thread h
      .next (m.modifyCoroutine thread fun co => { body := co.body, standing := .dead })
        (.library (k remains h) c)
  | .values vs h => giveBack m vs h
  | .error v h =>
    match catcher [] m.frames with
    | some (_, c, some handler, _, _) =>
      let m := m.holdLibrary c .handling true
      .next m (m.enterNested invoke handler [v] none h)
    | _ => .next m (.unwind v h)
  | .unwind v h =>
    match catcher [] m.frames with
    | none => uncaught m v h
    | some (above, c, _, k, frames) =>
      .next { m with frames } (caught c k (leftOpen h above) v h)

/-- Runs the machine, at most `fuel` steps.  `perform` answers what the library asks the host. -/
def run {σ : Type} (invoke : Value → List Value → Lib (List Value))
    (perform : (e : Effect) → σ → e.Reply × σ) :
    (fuel : Nat) → Machine → Focus → σ → Outcome × Machine × Heap × σ
  | 0, m, _, s => (.outOfFuel, m, {}, s)
  | fuel + 1, m, f, s =>
    match step invoke m f with
    | .next m f => run invoke perform fuel m f s
    | .ended o m h => (o, m, h, s)
    | .ask m e h k c =>
      match perform e s with
      | (r, s) => run invoke perform fuel m (.library (k r h) c) s

end Machine

end OscHost.Script
