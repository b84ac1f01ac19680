import OscHost.Script.Effect
import OscHost.Script.Heap
/-!
  Library computations.

  A library function turns its arguments and the heap into an `Action`: either it is done, or it
  asks the machine for something and says how it goes on.  Because the rest of the computation is a
  function, the machine can keep it, run scripts in between and come back.  `Lib` is the monad in
  which such functions are written.
-/

namespace OscHost.Script

/-- How a coroutine stands. -/
inductive Standing
  | suspended
  | running
  | normal
  | dead
  deriving DecidableEq, Repr, Inhabited

/-- The word for a standing. -/
def Standing.name : Standing → String
  | .suspended => "suspended"
  | .running => "running"
  | .normal => "normal"
  | .dead => "dead"

/-- What a coroutine that will not run again leaves behind: the error it died of, and the objects it
    left open, the newest first. -/
structure Remains where
  failure : Option Value := none
  leftOpen : List Value := []
  deriving Inhabited

/-- What a library computation does next, with the heap at that moment. -/
inductive Action
  | done (values : List Value) (h : Heap)
  | fail (error : Value) (h : Heap)
  /-- Calls a function.  No coroutine may be suspended across a pinned call. -/
  | call (f : Value) (args : List Value) (origin : Option Origin) (pinned : Bool) (h : Heap)
      (k : List Value → Heap → Action)
  /-- Ends with whatever a function yields that takes the place of this one. -/
  | become (f : Value) (args : List Value) (h : Heap)
  /-- Calls a function and goes on with its error too, after a handler has seen it. -/
  | guard (f : Value) (args : List Value) (handler : Option Value) (pinned : Bool) (h : Heap)
      (k : Except Value (List Value) → Heap → Action)
  | ask (e : Effect) (h : Heap) (k : e.Reply → Heap → Action)
  /-- Makes a coroutine of a function. -/
  | create (body : Value) (h : Heap) (k : Nat → Heap → Action)
  /-- Asks how a coroutine stands. -/
  | inspect (thread : Nat) (h : Heap) (k : Standing → Heap → Action)
  /-- Runs a coroutine until it yields or ends. -/
  | resume (thread : Nat) (args : List Value) (h : Heap)
      (k : Except Value (List Value) → Heap → Action)
  /-- Suspends the running coroutine. -/
  | yield (values : List Value) (h : Heap) (k : List Value → Heap → Action)
  /-- Gives up a coroutine that does not run and takes over what remains of it. -/
  | abandon (thread : Nat) (h : Heap) (k : Remains → Heap → Action)

/-- A function that is running: its value, where it is if it is a script's, and the name it was
    called by. -/
structure Level where
  function : Value
  place : Option (Bytes × Nat)
  name : Option Origin

/-- Where a library computation runs. -/
structure Site where
  /-- The functions that are running in this coroutine: the innermost first. -/
  levels : Nat → Option Level
  /-- Whether the computation is an operator of the innermost function, not a function. -/
  isOperator : Bool
  /-- The running coroutine; none for the host's own thread. -/
  thread : Option Nat
  /-- Whether the running coroutine may be suspended here. -/
  canYield : Bool

namespace Site

/-- The position of a running function, as a complaint starts with it. -/
def position (s : Site) (level : Nat) : Bytes :=
  match s.levels level with
  | some ⟨_, some (chunk, line), _⟩ => chunk ++ (":" ++ toString line ++ ": ").toUTF8
  | _ => ByteArray.empty

end Site

/-- A computation of the library. -/
def Lib (α : Type) : Type := Site → (α → Heap → Action) → Heap → Action

namespace Lib

instance : Monad Lib where
  pure a := fun _ k h => k a h
  bind x f := fun s k h => x s (fun a h => f a s k h) h

/-- The action of a computation that yields values. -/
def action (x : Lib (List Value)) (s : Site) (h : Heap) : Action := x s .done h

/-- Where the computation runs. -/
def site : Lib Site := fun s k h => k s h

/-- Reads something off the heap. -/
def read {α : Type} (f : Heap → α) : Lib α := fun _ k h => k (f h) h

/-- Changes the heap. -/
def modify (f : Heap → Heap) : Lib Unit := fun _ k h => k () (f h)

/-- Changes the heap and yields something. -/
def update {α : Type} (f : Heap → α × Heap) : Lib α := fun _ k h =>
  match f h with
  | (a, h) => k a h

/-- Ends with an error. -/
def throw {α : Type} (v : Value) : Lib α := fun _ _ h => .fail v h

/-- Asks the host. -/
def ask (e : Effect) : Lib e.Reply := fun _ k h => .ask e h k

/-- Calls a function across which nothing may be suspended. -/
def call (f : Value) (args : List Value) (origin : Option Origin := none) : Lib (List Value) :=
  fun _ k h => .call f args origin true h k

/-- Calls a function that may be suspended. -/
def callLoose (f : Value) (args : List Value) (origin : Option Origin := none) : Lib (List Value) :=
  fun _ k h => .call f args origin false h k

/-- Lets another function take the place of the running one. -/
def become {α : Type} (f : Value) (args : List Value) : Lib α := fun _ _ h => .become f args h

/-- Calls a function, which may be suspended, and catches its error. -/
def attempt (f : Value) (args : List Value) (handler : Option Value := none) :
    Lib (Except Value (List Value)) :=
  fun _ k h => .guard f args handler false h k

/-- Calls a function across which nothing may be suspended, and catches its error. -/
def attemptPinned (f : Value) (args : List Value) : Lib (Except Value (List Value)) :=
  fun _ k h => .guard f args none true h k

/-- A new coroutine. -/
def create (body : Value) : Lib Nat := fun _ k h => .create body h k

/-- How a coroutine stands. -/
def inspect (thread : Nat) : Lib Standing := fun _ k h => .inspect thread h k

/-- Runs a coroutine. -/
def resume (thread : Nat) (args : List Value) : Lib (Except Value (List Value)) :=
  fun _ k h => .resume thread args h k

/-- Suspends the running coroutine. -/
def yield (values : List Value) : Lib (List Value) := fun _ k h => .yield values h k

/-- Gives up a coroutine and takes over what remains of it. -/
def abandon (thread : Nat) : Lib Remains := fun _ k h => .abandon thread h k

/-- Writes a log record. -/
def log (r : LogRecord) : Lib Unit := ask (.log r)

/-! ## Complaints -/

/-- Complains with the position of a running function. -/
def complainAt {α : Type} (level : Nat) (text : Bytes) : Lib α := do
  throw (.string ((← site).position level ++ text))

/-- Complains as a function does: with the position of its caller. -/
def raise {α : Type} (text : Bytes) : Lib α := complainAt 1 text

/-- Complains as an operation does: with a position only when it is an operator of a script. -/
def complain {α : Type} (text : Bytes) : Lib α := do
  if (← site).isOperator then complainAt 0 text else throw (.string text)

/-- Ends with an error of a host function. -/
def failHost {α : Type} (message : String) : Lib α := do
  let id ← update (·.newObject (.failure message))
  throw (.object id)

/-- A new table. -/
def newTable (t : Table) : Lib Value := update fun h =>
  match h.newTable t with
  | (id, h) => (.table id, h)

/-- The words that name an operand in a complaint. -/
def named : Option Origin → Bytes
  | some o => (" (" ++ o.kind ++ " '").toUTF8 ++ o.name ++ "')".toUTF8
  | none => ByteArray.empty

/-- Complains about the type of an operand. -/
def wrongType {α : Type} (what : String) (v : Value) (origin : Option Origin) : Lib α := do
  let kind ← read (·.typeName v)
  complain (("attempt to " ++ what ++ " a ").toUTF8 ++ kind ++ " value".toUTF8 ++ named origin)

end Lib

end OscHost.Script
