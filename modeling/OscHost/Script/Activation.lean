import OscHost.Script.Operators
/-!
  Running the code of one function.

  An activation is a function that has been called: its variables, its operands and the place where
  it stands.  `Activation.run` carries out instructions as long as they concern nothing but the
  activation and the heap, and pauses where something else has to happen: a call, a return, or an
  operator that a metamethod decides.  The results of what happened are then delivered as the
  activation wants them.
-/

namespace OscHost.Script

/-- A variable: kept by its activation until a function captures it, then in a cell. -/
inductive Slot
  | own (v : Value)
  | shared (cell : Nat)
  deriving Inhabited

/-- A function that has been called. -/
structure Activation where
  closure : Nat
  proto : Proto
  code : Array (Instr × Nat)
  cells : Array Nat
  pc : Nat
  /-- The instruction at which it paused. -/
  pausedAt : Nat
  slots : Array Slot
  stack : List Value
  opened : List Value
  varargs : List Value
  /-- The slots of the variables to be closed, the newest first. -/
  toClose : List Nat
  /-- Whether the open values are its results and only variables remain to be closed. -/
  returning : Bool
  /-- What becomes of the results of the call it waits for. -/
  want : Want
  /-- The name it was called by. -/
  name : Option Origin

/-- Why an activation pauses. -/
inductive Pause
  | outOfFuel
  | call (f : Value) (args : List Value) (origin : Option Origin)
  | tailCall (f : Value) (args : List Value) (origin : Option Origin)
  | returned (values : List Value)
  /-- An operator has to be worked out. -/
  | compute (x : Lib (List Value))

/-- A paused activation. -/
structure Paused where
  heap : Heap
  activation : Activation
  pause : Pause

namespace Activation

/-- The activation of a function called with some arguments. -/
def start (closure : Nat) (c : Closure) (args : List Value) (name : Option Origin) : Activation :=
  let p := c.proto
  let filled := ((args.take p.params).map Slot.own).toArray
  { closure, proto := p, code := p.code, cells := c.cells, pc := 0, pausedAt := 0
    slots := filled ++ Array.replicate (p.slots - filled.size) (.own .nil)
    stack := [], opened := []
    varargs := if p.isVararg then args.drop p.params else []
    toClose := [], returning := false, want := .exact 0, name }

/-- The value of a variable. -/
def slot (a : Activation) (h : Heap) (n : Nat) : Value :=
  match a.slots[n]? with
  | some (.own v) => v
  | some (.shared cell) => h.cell cell
  | none => .nil

/-- The line where it paused. -/
def line (a : Activation) : Nat := a.proto.lineAt a.pausedAt

/-- The values of the variables to be closed, the newest first. -/
def leftOpen (a : Activation) (h : Heap) : List Value := a.toClose.map (a.slot h)

/-- Some values on top of a stack, the last one on top. -/
def pushAll (stack : List Value) (values : List Value) : List Value :=
  values.foldl (fun s v => v :: s) stack

/-- Exactly so many of some values, padded with nil, on top of a stack. -/
def pushExactly (stack : List Value) : (n : Nat) → List Value → List Value
  | 0, _ => stack
  | n + 1, [] => pushExactly (.nil :: stack) n []
  | n + 1, v :: rest => pushExactly (v :: stack) n rest

/-- Delivers results as they are wanted. -/
def deliver (a : Activation) (values : List Value) : Activation :=
  match a.want with
  | .exact n => { a with stack := pushExactly a.stack n values }
  | .all => { a with opened := values }
  | .truth negate => { a with stack := .bool ((firstOf values).isTrue != negate) :: a.stack }

/-- Takes the top values off a stack, in the order in which they were pushed. -/
def pop : (n : Nat) → List Value → (taken : List Value) → List Value × List Value
  | 0, stack, taken => (taken, stack)
  | n + 1, v :: stack, taken => pop n stack (v :: taken)
  | n + 1, [], taken => pop n [] (.nil :: taken)

/-- Takes a function and its arguments off the stack. -/
def popCall (a : Activation) (n : Nat) (isOpen : Bool) : Value × List Value × Activation :=
  let (args, stack) := pop n a.stack []
  let args := if isOpen then args ++ a.opened else args
  match stack with
  | f :: stack => (f, args, { a with stack, opened := [] })
  | [] => (.nil, args, { a with stack, opened := [] })

/-- The cell of a variable, made when no function has captured it before. -/
def share (a : Activation) (h : Heap) (n : Nat) : Nat × Activation × Heap :=
  match a.slots[n]? with
  | some (.shared cell) => (cell, a, h)
  | some (.own v) =>
    let (cell, h) := h.newCell v
    (cell, { a with slots := a.slots.setIfInBounds n (.shared cell) }, h)
  | none =>
    let (cell, h) := h.newCell .nil
    (cell, a, h)

/-- The cells of the variables that a function captures. -/
def captureAll (a : Activation) (h : Heap) (cells : Array Nat) :
    List (Capture × String) → Array Nat × Activation × Heap
  | [] => (cells, a, h)
  | (.slot n, _) :: rest =>
    let (cell, a, h) := a.share h n
    captureAll a h (cells.push cell) rest
  | (.upvalue n, _) :: rest => captureAll a h (cells.push (a.cells.getD n 0)) rest

/-! ## Numeric loops -/

/-- How a numeric loop begins. -/
inductive Loop
  | counted (first : Int64) (count : Nat) (step : Int64)
  | stepped (first last step : Float)
  | empty
  | bad (text : Bytes)

/-- The complaint about a loop value that is no number. -/
def badLoopValue (h : Heap) (what : String) (v : Value) : Loop :=
  .bad (("bad 'for' " ++ what ++ " (number expected, got ").toUTF8 ++ h.typeName v ++ ")".toUTF8)

/-- How many steps lead from one integer to at most another. -/
def countSteps (first last step : Int64) : Nat :=
  if 0 < step.toInt then ((last.toInt - first.toInt) / step.toInt).toNat
  else ((first.toInt - last.toInt) / (-step.toInt)).toNat

/-- A loop over integers up to an integer. -/
def countedLoop (first last step : Int64) : Loop :=
  if (if 0 < step.toInt then last < first else first < last) then .empty
  else .counted first (countSteps first last step) step

/-- A loop over doubles. -/
def steppedLoop (h : Heap) (first last step : Value) : Loop :=
  match last.toFloat?, step.toFloat?, first.toFloat? with
  | none, _, _ => badLoopValue h "limit" last
  | _, none, _ => badLoopValue h "step" step
  | _, _, none => badLoopValue h "initial value" first
  | some y, some s, some x =>
    if s == 0.0 then .bad "'for' step is zero"
    else if (if 0.0 < s then x ≤ y else y ≤ x) then .stepped x y s else .empty

/-- The loop with some first value, limit and step. -/
def loopOf (h : Heap) (first last step : Value) : Loop :=
  match first, step with
  | .int m, .int s =>
    if s == 0 then .bad "'for' step is zero"
    else match last with
      | .int n => countedLoop m n s
      | .nan _ => .empty
      | .float y =>
        let bound := if 0 < s.toInt then y.floor else y.ceil
        match floatToInt? bound with
        | some n => countedLoop m n s
        | none =>
          if 0.0 < y then (if 0 < s.toInt then countedLoop m Int64.maxValue s else .empty)
          else (if 0 < s.toInt then .empty else countedLoop m Int64.minValue s)
      | v => badLoopValue h "limit" v
  | first, step => steppedLoop h first last step

/-! ## Instructions -/

/-- What an operator yields without metamethods. -/
def plainBinary (op : Binary) (x y : Value) : Option Value :=
  match op with
  | .eq =>
    if Lib.comparable x y && ! x.rawEquals y then none else some (.bool (x.rawEquals y))
  | .ne =>
    if Lib.comparable x y && ! x.rawEquals y then none else some (.bool (! x.rawEquals y))
  | .lt => (Arith.less? x y).map .bool
  | .le => (Arith.atMost? x y).map .bool
  | .gt => (Arith.less? y x).map .bool
  | .ge => (Arith.atMost? y x).map .bool
  | .concat =>
    match x.asText?, y.asText? with
    | some s, some t => some (.string (s ++ t))
    | _, _ => none
  | op => (Arith.binary op x y).toOption

/-- One value as a list of results. -/
def single (x : Lib Value) : Lib (List Value) := do return [← x]

/-- No results. -/
def quiet (x : Lib Unit) : Lib (List Value) := do
  x
  return []

/-- Calls the closing function of a value. -/
def closeValue (v : Value) : Lib (List Value) := do
  let f ← Lib.read (·.metamethod v "__close")
  discard (Lib.callLoose f [v, .nil] (some ⟨"metamethod", "close"⟩))
  return []

/-- Carries out an instruction.  `go` carries out what comes after it, unless something else has to
    happen first. -/
@[inline] def exec (go : Heap → Activation → Paused) (i : Instr) (h : Heap) (a : Activation) :
    Paused :=
  let pc := a.pc
  match i with
  | .pushNil => go h { a with pc := pc + 1, stack := .nil :: a.stack }
  | .pushBool b => go h { a with pc := pc + 1, stack := .bool b :: a.stack }
  | .pushInt n => go h { a with pc := pc + 1, stack := .int n :: a.stack }
  | .pushFloat x => go h { a with pc := pc + 1, stack := .ofFloat x :: a.stack }
  | .pushString s => go h { a with pc := pc + 1, stack := .string s :: a.stack }
  | .drop n => go h { a with pc := pc + 1, stack := a.stack.drop n }
  | .getSlot n => go h { a with pc := pc + 1, stack := a.slot h n :: a.stack }
  | .setSlot n =>
    match a.stack with
    | v :: stack =>
      match a.slots[n]? with
      | some (.shared cell) => go (h.setCell cell v) { a with pc := pc + 1, stack }
      | _ =>
        go h { a with pc := pc + 1, stack, slots := a.slots.setIfInBounds n (.own v) }
    | [] => go h { a with pc := pc + 1 }
  | .newSlot n =>
    match a.stack with
    | v :: stack =>
      go h { a with pc := pc + 1, stack, slots := a.slots.setIfInBounds n (.own v) }
    | [] => go h { a with pc := pc + 1 }
  | .getUpvalue n =>
    go h { a with pc := pc + 1, stack := h.cell (a.cells.getD n 0) :: a.stack }
  | .setUpvalue n =>
    match a.stack with
    | v :: stack => go (h.setCell (a.cells.getD n 0) v) { a with pc := pc + 1, stack }
    | [] => go h { a with pc := pc + 1 }
  | .index origin =>
    match a.stack with
    | k :: o :: stack =>
      match Lib.lookup h o k with
      | .found v => go h { a with pc := pc + 1, stack := v :: stack }
      | _ =>
        ⟨h, { a with pc := pc + 1, pausedAt := pc, stack, want := .exact 1 },
          .compute (single (Lib.index o k origin))⟩
    | _ => go h { a with pc := pc + 1 }
  | .setIndex origin =>
    match a.stack with
    | v :: k :: o :: stack =>
      match Lib.assignment h o k, Key.ofValue k with
      | .raw id, .ok k => go (h.set id k v) { a with pc := pc + 1, stack }
      | _, _ =>
        ⟨h, { a with pc := pc + 1, pausedAt := pc, stack, want := .exact 0 },
          .compute (quiet (Lib.setIndex o k v origin))⟩
    | _ => go h { a with pc := pc + 1 }
  | .setIndexAt depth origin =>
    match a.stack with
    | v :: stack =>
      let held := stack.drop (depth - 1)
      match held with
      | k :: o :: _ =>
        let stack := stack.take (depth - 1) ++ held.drop 2
        ⟨h, { a with pc := pc + 1, pausedAt := pc, stack, want := .exact 0 },
          .compute (quiet (Lib.setIndex o k v origin))⟩
      | _ => go h { a with pc := pc + 1, stack }
    | [] => go h { a with pc := pc + 1 }
  | .method name origin =>
    match a.stack with
    | o :: stack =>
      match Lib.lookup h o (.string name) with
      | .found f => go h { a with pc := pc + 1, stack := o :: f :: stack }
      | _ =>
        ⟨h, { a with pc := pc + 1, pausedAt := pc, stack, want := .exact 2 },
          .compute (do return [← Lib.index o (.string name) origin, o])⟩
    | [] => go h { a with pc := pc + 1 }
  | .newTable =>
    match h.newTable {} with
    | (id, h) => go h { a with pc := pc + 1, stack := .table id :: a.stack }
  | .append first n isOpen =>
    let (values, stack) := pop n a.stack []
    let values := if isOpen then values ++ a.opened else values
    match stack with
    | .table id :: _ =>
      go (h.modifyTable id (·.setRun first values))
        { a with pc := pc + 1, stack, opened := [] }
    | _ => go h { a with pc := pc + 1, stack, opened := [] }
  | .setField =>
    match a.stack with
    | v :: k :: o :: stack =>
      match o, Key.ofValue k with
      | .table id, .ok k => go (h.set id k v) { a with pc := pc + 1, stack := o :: stack }
      | _, _ =>
        ⟨h, { a with pc := pc + 1, pausedAt := pc, stack := o :: stack, want := .exact 0 },
          .compute (quiet (Lib.setIndex o k v none))⟩
    | _ => go h { a with pc := pc + 1 }
  | .closure n =>
    match a.proto.protos[n]? with
    | some p =>
      let (cells, a, h) := a.captureAll h #[] p.captures
      match h.newClosure ⟨p, cells⟩ with
      | (id, h) => go h { a with pc := pc + 1, stack := .closure id :: a.stack }
    | none => go h { a with pc := pc + 1, stack := .nil :: a.stack }
  | .varargs want =>
    let values := a.varargs
    go h ({ a with pc := pc + 1, want }.deliver values)
  | .call n isOpen want origin =>
    let (f, args, a) := a.popCall n isOpen
    ⟨h, { a with pc := pc + 1, pausedAt := pc, want }, .call f args origin⟩
  | .tailCall n isOpen origin =>
    let (f, args, a) := a.popCall n isOpen
    let a := { a with pc := pc + 1, pausedAt := pc, want := .all }
    if a.toClose.isEmpty then ⟨h, a, .tailCall f args origin⟩ else ⟨h, a, .call f args origin⟩
  | .ret n isOpen =>
    let values :=
      if a.returning then a.opened
      else
        let (values, _) := pop n a.stack []
        if isOpen then values ++ a.opened else values
    match a.toClose with
    | [] => ⟨h, { a with pausedAt := pc }, .returned values⟩
    | slot :: rest =>
      let v := a.slot h slot
      ⟨h, { a with pausedAt := pc, opened := values, returning := true, toClose := rest
                   want := .exact 0 }, .compute (closeValue v)⟩
  | .jump target => go h { a with pc := target }
  | .jumpIfNot target =>
    match a.stack with
    | v :: stack => go h { a with pc := if v.isTrue then pc + 1 else target, stack }
    | [] => go h { a with pc := target }
  | .jumpKeeping on target =>
    match a.stack with
    | v :: stack =>
      if v.isTrue == on then go h { a with pc := target }
      else go h { a with pc := pc + 1, stack }
    | [] => go h { a with pc := pc + 1 }
  | .unary op origin =>
    match a.stack with
    | v :: stack =>
      match op, v with
      | .not, v => go h { a with pc := pc + 1, stack := .bool (! v.isTrue) :: stack }
      | .minus, .int n => go h { a with pc := pc + 1, stack := .int (-n) :: stack }
      | .minus, .float x => go h { a with pc := pc + 1, stack := .float (-x) :: stack }
      | op, v =>
        ⟨h, { a with pc := pc + 1, pausedAt := pc, stack, want := .exact 1 },
          .compute (single (Lib.unary op v origin))⟩
    | [] => go h { a with pc := pc + 1 }
  | .binary op origins =>
    match a.stack with
    | y :: x :: stack =>
      match plainBinary op x y with
      | some v => go h { a with pc := pc + 1, stack := v :: stack }
      | none =>
        ⟨h, { a with pc := pc + 1, pausedAt := pc, stack, want := .exact 1 },
          .compute (single (Lib.binary op x y origins))⟩
    | _ => go h { a with pc := pc + 1 }
  | .markClose slot name =>
    match a.slot h slot with
    | .nil | .bool false => go h { a with pc := pc + 1 }
    | v =>
      if (h.metamethod v "__close").isNil then
        ⟨h, { a with pc := pc + 1, pausedAt := pc, want := .exact 0 },
          .compute (Lib.complain ("variable '" ++ name ++ "' got a non-closable value").toUTF8)⟩
      else go h { a with pc := pc + 1, toClose := slot :: a.toClose }
  | .close slot =>
    match a.toClose with
    | [] => go h { a with pc := pc + 1 }
    | s :: rest =>
      if s < slot then go h { a with pc := pc + 1 }
      else
        let v := a.slot h s
        ⟨h, { a with pausedAt := pc, toClose := rest, want := .exact 0 },
          .compute (closeValue v)⟩
  | .forPrepare base exit =>
    match loopOf h (a.slot h base) (a.slot h (base + 1)) (a.slot h (base + 2)) with
    | .bad text =>
      ⟨h, { a with pc := pc + 1, pausedAt := pc, want := .exact 0 }, .compute (Lib.complain text)⟩
    | .empty => go h { a with pc := exit }
    | .counted first count step =>
      let slots := a.slots.setIfInBounds base (.own (.int first))
      let slots := slots.setIfInBounds (base + 1) (.own (.int (Int64.ofNat count)))
      let slots := slots.setIfInBounds (base + 2) (.own (.int step))
      let slots := slots.setIfInBounds (base + 3) (.own (.int first))
      go h { a with pc := pc + 1, slots }
    | .stepped first last step =>
      let slots := a.slots.setIfInBounds base (.own (.float first))
      let slots := slots.setIfInBounds (base + 1) (.own (.float last))
      let slots := slots.setIfInBounds (base + 2) (.own (.float step))
      let slots := slots.setIfInBounds (base + 3) (.own (.float first))
      go h { a with pc := pc + 1, slots }
  | .forLoop base start =>
    match a.slots[base]?, a.slots[base + 1]?, a.slots[base + 2]? with
    | some (.own (.int n)), some (.own (.int count)), some (.own (.int step)) =>
      -- counts beyond the positive integers are kept modulo `2^64`
      if count == 0 then go h { a with pc := pc + 1 }
      else
        let next := Slot.own (.int (n + step))
        let slots := a.slots.setIfInBounds base next
        let slots := slots.setIfInBounds (base + 1) (.own (.int (count - 1)))
        let slots := slots.setIfInBounds (base + 3) next
        go h { a with pc := start, slots }
    | some (.own (.float x)), some (.own (.float last)), some (.own (.float step)) =>
      let y := x + step
      if (if 0.0 < step then y ≤ last else last ≤ y) then
        let slots := a.slots.setIfInBounds base (.own (.float y))
        let slots := slots.setIfInBounds (base + 3) (.own (.float y))
        go h { a with pc := start, slots }
      else go h { a with pc := pc + 1 }
    | _, _, _ => go h { a with pc := pc + 1 }
  | .forTest base exit =>
    match a.slot h (base + 4) with
    | .nil => go h { a with pc := exit }
    | v =>
      go h { a with pc := pc + 1, slots := a.slots.setIfInBounds (base + 2) (.own v) }

/-- Carries out instructions until something else has to happen. -/
def run : (fuel : Nat) → Heap → Activation → Paused
  | 0, h, a => ⟨h, a, .outOfFuel⟩
  | fuel + 1, h, a =>
    match a.code[a.pc]? with
    | none => ⟨h, a, .returned []⟩
    | some (i, _) => exec (run fuel) i h a

end Activation

end OscHost.Script
