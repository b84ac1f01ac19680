import OscHost.Script.Code
/-!
  Programs turned into code.

  `Emit` appends instructions with their lines; jumps are emitted with label numbers and get their
  addresses when the function is complete.
-/

namespace OscHost.Script

namespace Compile

/-- The code of a function so far: jump targets are label numbers, and `labels` says where each
    label stands.  Labels of the program have even numbers, those made here odd ones. -/
structure Draft where
  code : Array (Instr × Nat) := #[]
  labels : List (Nat × Nat) := []
  protos : Array Proto := #[]
  made : Nat := 0
  closes : Bool := false
  resolved : List (Nat × Nat × Nat) := []
  chunk : Bytes := ByteArray.empty

/-- An emission step. -/
abbrev Emit := StateM Draft

/-- Appends an instruction of a line. -/
def emit (line : Nat) (i : Instr) : Emit Unit :=
  modify fun d => { d with code := d.code.push (i, line) }

/-- A new label. -/
def newLabel : Emit Nat := modifyGet fun d => (2 * d.made + 1, { d with made := d.made + 1 })

/-- The number of a label of the program. -/
def written (id : Nat) : Nat := 2 * id

/-- Puts a label at the end of the code so far. -/
def place (label : Nat) : Emit Unit :=
  modify fun d => { d with labels := (label, d.code.size) :: d.labels }

/-- How complaints name the value of an expression. -/
def origin : Expr → Option Origin
  | .slot _ name => some ⟨"local", name⟩
  | .upvalue _ name => some ⟨"upvalue", name⟩
  | .global _ name _ => some ⟨"global", name⟩
  | .index _ key _ =>
    match key with
    | .string key => some ⟨"field", key⟩
    | .int n => some ⟨"field", if 0 ≤ n ∧ n ≤ 255 then "integer index" else "?"⟩
    | _ => some ⟨"field", "?"⟩
  | .string s => some ⟨"constant", s⟩
  | .single e => origin e
  | _ => none

/-- Whether an expression can yield any number of values. -/
def isMulti : Expr → Bool
  | .call .. | .method .. | .varargs => true
  | _ => false

/-- Code that pushes some nils. -/
def nils (line : Nat) : Nat → Emit Unit
  | 0 => pure ()
  | n + 1 => do
    emit line .pushNil
    nils line n

/-- Code that makes one pushed value as many as are wanted. -/
def adjust (line : Nat) : Want → Emit Unit
  | .exact 0 => emit line (.drop 1)
  | .exact (n + 1) => nils line n
  | _ => pure ()

/-- Appends a function made inside. -/
def addProto (p : Proto) : Emit Nat :=
  modifyGet fun d => (d.protos.size, { d with protos := d.protos.push p })

/-- Items of a constructor that may wait on the stack. -/
def maxWaiting : Nat := 50

mutual

/-- Code that leaves the wanted values of an expression.  An expression of one value that is asked
    for all of them pushes it. -/
def expr (line : Nat) (want : Want) : Expr → Emit Unit
  | .nil => do emit line .pushNil; adjust line want
  | .true => do emit line (.pushBool true); adjust line want
  | .false => do emit line (.pushBool false); adjust line want
  | .int n => do emit line (.pushInt n); adjust line want
  | .float x => do emit line (.pushFloat x); adjust line want
  | .string s => do emit line (.pushString s); adjust line want
  | .varargs => emit line (.varargs want)
  | .slot n _ => do emit line (.getSlot n); adjust line want
  | .upvalue n _ => do emit line (.getUpvalue n); adjust line want
  | .global env name l => do
    expr l (.exact 1) env
    emit l (.pushString name)
    emit l (.index (origin env))
    adjust l want
  | .index object key l => do
    expr l (.exact 1) object
    expr l (.exact 1) key
    emit l (.index (origin object))
    adjust l want
  | .call f args l => do
    expr l (.exact 1) f
    let (n, isOpen) ← exprs l args
    emit l (.call n isOpen want (origin f))
  | .method object name args l => do
    expr l (.exact 1) object
    emit l (.method name (origin object))
    let (n, isOpen) ← exprs l args
    emit l (.call (n + 1) isOpen want (some ⟨"method", name⟩))
  | .function body => do
    let p := function (← get).chunk body
    emit line (.closure (← addProto p))
    adjust line want
  | .binary op a b l => do
    expr l (.exact 1) a
    expr l (.exact 1) b
    emit l (.binary op (origin a, origin b))
    adjust l want
  | .unary op a l => do
    expr l (.exact 1) a
    emit l (.unary op (origin a))
    adjust l want
  | .and a b => do
    let skip ← newLabel
    expr line (.exact 1) a
    emit line (.jumpKeeping false skip)
    expr line (.exact 1) b
    place skip
    adjust line want
  | .or a b => do
    let skip ← newLabel
    expr line (.exact 1) a
    emit line (.jumpKeeping true skip)
    expr line (.exact 1) b
    place skip
    adjust line want
  | .table items l => do
    emit l .newTable
    fields l 1 0 items
    adjust l want
  | .single e => do
    expr line (.exact 1) e
    adjust line want

/-- Code that pushes the values of some expressions; the last one may leave open values.  Yields
    how many were pushed and whether there are open values. -/
def exprs (line : Nat) : List Expr → Emit (Nat × Bool)
  | [] => pure (0, false)
  | [e] => do
    expr line .all e
    pure (if isMulti e then (0, true) else (1, false))
  | e :: rest => do
    expr line (.exact 1) e
    let (n, isOpen) ← exprs line rest
    pure (n + 1, isOpen)

/-- Code that pushes exactly `want` values of some expressions, all of which are evaluated. -/
def exactly (line want : Nat) : List Expr → Emit Unit
  | [] => nils line want
  | [e] => expr line (.exact want) e
  | e :: rest => do
    expr line (.exact (min want 1)) e
    exactly line (want - 1) rest

/-- Code for the fields of a constructor; `waiting` items are on the stack above the table and the
    first of them has index `first`. -/
def fields (line first waiting : Nat) : List Field → Emit Unit
  | [] => if waiting = 0 then pure () else emit line (.append first waiting false)
  | [.item e] => do
    expr line .all e
    if isMulti e then emit line (.append first waiting true)
    else emit line (.append first (waiting + 1) false)
  | .item e :: rest => do
    expr line (.exact 1) e
    if waiting + 1 = maxWaiting then do
      emit line (.append first maxWaiting false)
      fields line (first + maxWaiting) 0 rest
    else fields line first (waiting + 1) rest
  | .keyed key value l :: rest => do
    -- waiting items lie above the table, so they are stored first
    if waiting ≠ 0 then emit line (.append first waiting false)
    expr l (.exact 1) key
    expr l (.exact 1) value
    emit l .setField
    fields line (first + waiting) 0 rest

/-- Code for a statement. -/
def stmt : Stmt → Emit Unit
  | .declare slots close values line => do
    exactly line slots.length values
    for slot in slots.reverse do
      emit line (.newSlot slot)
    match close with
    | some (slot, name) => emit line (.markClose slot name)
    | none => pure ()
  | .assign [target] [value] line => do
    match target with
    | .slot n _ => do
      expr line (.exact 1) value
      emit line (.setSlot n)
    | .upvalue n _ => do
      expr line (.exact 1) value
      emit line (.setUpvalue n)
    | .global env name l => do
      expr l (.exact 1) env
      emit l (.pushString name)
      expr line (.exact 1) value
      emit l (.setIndex (origin env))
    | .index object key l => do
      expr l (.exact 1) object
      expr l (.exact 1) key
      expr line (.exact 1) value
      emit l (.setIndex (origin object))
    | _ => pure ()
  | .assign targets values line => do
    places targets
    exactly line targets.length values
    assignments targets.length targets.reverse
  | .call e line => expr line (.exact 0) e
  | .block b => block b
  | .whileLoop condition body exit line => do
    let start ← newLabel
    place start
    expr line (.exact 1) condition
    emit line (.jumpIfNot (written exit))
    block body
    emit line (.jump start)
    place (written exit)
  | .repeatLoop (.mk body closes endLine) condition exit line => do
    let start ← newLabel
    place start
    stmts body
    expr endLine (.exact 1) condition
    match closes with
    | none => emit line (.jumpIfNot start)
    | some slot => do
      let again ← newLabel
      let done ← newLabel
      emit line (.jumpIfNot again)
      emit line (.close slot)
      emit line (.jump done)
      place again
      emit line (.close slot)
      emit line (.jump start)
      place done
    place (written exit)
  | .branch condition body otherwise => do
    let no ← newLabel
    let done ← newLabel
    expr 0 (.exact 1) condition
    emit 0 (.jumpIfNot no)
    block body
    emit 0 (.jump done)
    place no
    block otherwise
    place done
  | .numericFor base first last step body exit line => do
    expr line (.exact 1) first
    expr line (.exact 1) last
    expr line (.exact 1) step
    emit line (.newSlot (base + 2))
    emit line (.newSlot (base + 1))
    emit line (.newSlot base)
    let start ← newLabel
    emit line (.forPrepare base (written exit))
    place start
    block body
    emit line (.forLoop base start)
    place (written exit)
  | .genericFor base names values body exit line => do
    exactly line 4 values
    for i in [3, 2, 1, 0] do
      emit line (.newSlot (base + i))
    emit line (.markClose (base + 3) "(for state)")
    let start ← newLabel
    let done ← newLabel
    place start
    emit line (.getSlot base)
    emit line (.getSlot (base + 1))
    emit line (.getSlot (base + 2))
    emit line (.call 2 false (.exact names) (some ⟨"for iterator", "for iterator"⟩))
    for i in (List.range names).reverse do
      emit line (.newSlot (base + 4 + i))
    emit line (.forTest base done)
    block body
    emit line (.jump start)
    place done
    place (written exit)
    emit line (.close base)
  | .localFunction slot body => do
    emit 0 .pushNil
    emit 0 (.newSlot slot)
    let p := function (← get).chunk body
    emit 0 (.closure (← addProto p))
    emit 0 (.setSlot slot)
  | .ret values line => do
    match values with
    | [.call f args l] => do
      expr l (.exact 1) f
      let (n, isOpen) ← exprs l args
      emit l (.tailCall n isOpen (origin f))
      emit l (.ret 0 true)
    | [.method object name args l] => do
      expr l (.exact 1) object
      emit l (.method name (origin object))
      let (n, isOpen) ← exprs l args
      emit l (.tailCall (n + 1) isOpen (some ⟨"method", name⟩))
      emit l (.ret 0 true)
    | values => do
      let (n, isOpen) ← exprs line values
      emit line (.ret n isOpen)
  | .goto id line => do
    let d ← get
    match d.resolved.find? fun r => r.1 == id with
    | some (_, label, level) => do
      if d.closes then emit line (.close level)
      emit line (.jump (written label))
    | none => pure ()
  | .label id => place (written id)

/-- Code that pushes the objects and keys of the targets of an assignment. -/
def places : List Expr → Emit Unit
  | [] => pure ()
  | .global env name l :: rest => do
    expr l (.exact 1) env
    emit l (.pushString name)
    places rest
  | .index object key l :: rest => do
    expr l (.exact 1) object
    expr l (.exact 1) key
    places rest
  | _ :: rest => places rest

/-- Code that stores waiting values into targets, the last target first. -/
def assignments (waiting : Nat) : List Expr → Emit Unit
  | [] => pure ()
  | .slot n _ :: rest => do
    emit 0 (.setSlot n)
    assignments (waiting - 1) rest
  | .upvalue n _ :: rest => do
    emit 0 (.setUpvalue n)
    assignments (waiting - 1) rest
  | .global env _ l :: rest => do
    emit l (.setIndexAt waiting (origin env))
    assignments (waiting - 1) rest
  | .index object _ l :: rest => do
    emit l (.setIndexAt waiting (origin object))
    assignments (waiting - 1) rest
  | _ :: rest => assignments waiting rest

/-- Code for some statements. -/
def stmts : List Stmt → Emit Unit
  | [] => pure ()
  | s :: rest => do
    stmt s
    stmts rest

/-- Code for a block. -/
def block : Block → Emit Unit
  | .mk body closes endLine => do
    stmts body
    match closes with
    | some slot => emit endLine (.close slot)
    | none => pure ()

/-- The compiled form of a function. -/
def function (chunk : Bytes) : FunctionBody → Proto
  | .mk params isVararg slots captures resolved body closes name line endLine =>
    let start : Draft := { closes, resolved, chunk }
    let (_, d) := (stmts body *> emit endLine (.ret 0 false)).run start
    let address (label : Nat) : Nat :=
      match d.labels.find? fun l => l.1 == label with
      | some (_, pc) => pc
      | none => d.code.size
    let fix (i : Instr) : Instr :=
      match i with
      | .jump l => .jump (address l)
      | .jumpIfNot l => .jumpIfNot (address l)
      | .jumpKeeping on l => .jumpKeeping on (address l)
      | .forPrepare base l => .forPrepare base (address l)
      | .forLoop base l => .forLoop base (address l)
      | .forTest base l => .forTest base (address l)
      | i => i
    .mk (d.code.map fun c => (fix c.1, c.2)) d.protos captures params isVararg slots chunk name line
      endLine

end

end Compile

/-- The code of a whole chunk. -/
def compile (chunk : Bytes) (body : FunctionBody) : Proto := Compile.function chunk body

end OscHost.Script
