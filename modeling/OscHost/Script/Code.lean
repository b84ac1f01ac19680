import OscHost.Script.Grammar
/-!
  Code for the stack machine.

  A function's frame has slots for its variables and a stack for operands.  A call or `...` in last
  position leaves all its values in the frame's list of open values, and the next instruction that
  takes a list takes them after its operands.
-/

namespace OscHost.Script

/-- What becomes of the results of a call. -/
inductive Want
  /-- Exactly so many values, padded with nil, go to the stack. -/
  | exact (n : Nat)
  /-- All values become the open values. -/
  | all
  /-- Whether the first value counts as true, or the opposite, goes to the stack. -/
  | truth (negate : Bool)
  deriving DecidableEq, Repr

/-- The names of operands for complaints about them. -/
abbrev Origins := Option Origin × Option Origin

/-- Instructions.  Operands are taken from the stack, the last one on top. -/
inductive Instr
  | pushNil
  | pushBool (b : Bool)
  | pushInt (n : Int64)
  | pushFloat (x : Float)
  | pushString (s : Bytes)
  | drop (n : Nat)
  | getSlot (n : Nat)
  | setSlot (n : Nat)
  /-- Starts a new variable in a slot. -/
  | newSlot (n : Nat)
  | getUpvalue (n : Nat)
  | setUpvalue (n : Nat)
  | index (origin : Option Origin)
  | setIndex (origin : Option Origin)
  /-- Assigns the top value to an object and a key and takes all three away; with the top value,
      `depth` values lie above the key. -/
  | setIndexAt (depth : Nat) (origin : Option Origin)
  /-- Replaces an object by its method of a name and the object. -/
  | method (name : Bytes) (origin : Option Origin)
  | newTable
  /-- Appends `n` values, and the open values if any, from index `first` on. -/
  | append (first n : Nat) (isOpen : Bool)
  | setField
  | closure (n : Nat)
  | varargs (want : Want)
  | call (n : Nat) (isOpen : Bool) (want : Want) (origin : Option Origin)
  | tailCall (n : Nat) (isOpen : Bool) (origin : Option Origin)
  | ret (n : Nat) (isOpen : Bool)
  | jump (target : Nat)
  | jumpIfNot (target : Nat)
  /-- Jumps and keeps the value when it counts as `on`, else drops it. -/
  | jumpKeeping (on : Bool) (target : Nat)
  | unary (op : Unary) (origin : Option Origin)
  | binary (op : Binary) (origins : Origins)
  /-- Marks the variable of a slot, with its name, as one to be closed. -/
  | markClose (slot : Nat) (name : String)
  /-- Closes the variables from a slot on. -/
  | close (slot : Nat)
  | forPrepare (base exit : Nat)
  | forLoop (base start : Nat)
  /-- Leaves a loop over values when the first value is nil, else keeps it as the control. -/
  | forTest (base exit : Nat)

/-- A compiled function. -/
inductive Proto
  | mk (code : Array (Instr × Nat)) (protos : Array Proto) (captures : List (Capture × String))
      (params : Nat) (isVararg : Bool) (slots : Nat) (chunk : Bytes) (name : String)
      (line endLine : Nat)

namespace Proto

/-- The instructions with their lines. -/
def code : Proto → Array (Instr × Nat) | .mk c _ _ _ _ _ _ _ _ _ => c

/-- The functions made inside. -/
def protos : Proto → Array Proto | .mk _ p _ _ _ _ _ _ _ _ => p

/-- Where the captured variables are found. -/
def captures : Proto → List (Capture × String) | .mk _ _ c _ _ _ _ _ _ _ => c

/-- The count of parameters. -/
def params : Proto → Nat | .mk _ _ _ n _ _ _ _ _ _ => n

/-- Whether more arguments are kept. -/
def isVararg : Proto → Bool | .mk _ _ _ _ b _ _ _ _ _ => b

/-- The count of slots. -/
def slots : Proto → Nat | .mk _ _ _ _ _ n _ _ _ _ => n

/-- The name of the chunk, with its mark. -/
def chunk : Proto → Bytes | .mk _ _ _ _ _ _ c _ _ _ => c

/-- The line where the function begins; zero for a whole chunk. -/
def line : Proto → Nat | .mk _ _ _ _ _ _ _ _ l _ => l

/-- The line where the function ends. -/
def endLine : Proto → Nat | .mk _ _ _ _ _ _ _ _ _ l => l

/-- The line of an instruction. -/
def lineAt (p : Proto) (pc : Nat) : Nat :=
  match p.code[pc]? with
  | some (_, line) => line
  | none => p.endLine

/-- The longest chunk name that is shown. -/
def maxShown : Nat := 60

/-- A chunk name as positions show it.  A name marked with `=` or `@` is shown itself, from a file
    the end of it; other chunks show the start of their text. -/
def shownChunk (name : Bytes) : Bytes :=
  let rest := name.extract 1 name.size
  if name[0]? = some '='.toUInt8 then rest.extract 0 (maxShown - 1)
  else if name[0]? = some '@'.toUInt8 then
    if name.size ≤ maxShown then rest
    else "...".toUTF8 ++ rest.extract (rest.size - (maxShown - 4)) rest.size
  else
    let first := ByteArray.mk (name.toList.takeWhile (· != 10)).toArray
    let room := maxShown - 15
    if first.size = name.size ∧ name.size < room then
      "[string \"".toUTF8 ++ name ++ "\"]".toUTF8
    else "[string \"".toUTF8 ++ first.extract 0 room ++ "...\"]".toUTF8

end Proto

end OscHost.Script
