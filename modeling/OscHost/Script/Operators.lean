import OscHost.Script.Action
import OscHost.Script.Arith
/-!
  Operators with metamethods.

  Each operator first does what it does on plain values; when that has no result, the metatable of
  an operand says what to call.  Scripts and library functions share these definitions: only in a
  script may a coroutine be suspended inside a metamethod.
-/

namespace OscHost.Script

/-- The first value of a list. -/
def firstOf : List Value → Value
  | [] => .nil
  | v :: _ => v

namespace Lib

/-- Calls a metamethod for an event. -/
def callMeta (event : String) (f : Value) (args : List Value) : Lib (List Value) := do
  let origin : Option Origin := some ⟨"metamethod", (event.drop 2).toString⟩
  if (← site).isOperator then callLoose f args origin else call f args

/-! ## Indexing -/

/-- Longest chain of tables that stand in for each other. -/
def maxChain : Nat := 2000

/-- What reading an entry comes to. -/
inductive Lookup
  | found (v : Value)
  | viaCall (f : Value)
  | via (v : Value)
  | impossible

/-- One step of reading the entry of a key. -/
def lookup (h : Heap) (o k : Value) : Lookup :=
  let next (v : Value) (missing : Lookup) : Lookup :=
    match v with
    | .nil => missing
    | .closure _ | .builtin _ | .native _ => .viaCall v
    | v => .via v
  match o with
  | .table id =>
    let t := h.table id
    let v := match Key.ofValue k with
      | .ok k => t.get k
      | .error _ => .nil
    match v with
    | .nil =>
      match t.metatable with
      | none => .found .nil
      | some m => next ((h.table m).getText "__index") (.found .nil)
    | v => .found v
  | o => next (h.metamethod o "__index") .impossible

/-- Reads the entry of a key. -/
def indexFrom (o k : Value) (origin : Option Origin) : (fuel : Nat) → Lib Value
  | 0 => complain "'__index' chain too long; possibly a loop"
  | fuel + 1 => do
    match ← read (lookup · o k) with
    | .found v => pure v
    | .viaCall f => return firstOf (← callMeta "__index" f [o, k])
    | .via v => indexFrom v k none fuel
    | .impossible => wrongType "index" o origin

@[inherit_doc indexFrom] def index (o k : Value) (origin : Option Origin := none) : Lib Value :=
  indexFrom o k origin maxChain

/-- What setting an entry comes to. -/
inductive Assignment
  | raw (id : Nat)
  | viaCall (f : Value)
  | via (v : Value)
  | impossible

/-- One step of setting the entry of a key. -/
def assignment (h : Heap) (o k : Value) : Assignment :=
  let next (v : Value) (missing : Assignment) : Assignment :=
    match v with
    | .nil => missing
    | .closure _ | .builtin _ | .native _ => .viaCall v
    | v => .via v
  match o with
  | .table id =>
    let t := h.table id
    match t.metatable with
    | none => .raw id
    | some m =>
      let present := match Key.ofValue k with
        | .ok k => ! (t.get k).isNil
        | .error _ => false
      if present then .raw id else next ((h.table m).getText "__newindex") (.raw id)
  | o => next (h.metamethod o "__newindex") .impossible

/-- Sets an entry of a table, metamethods aside. -/
def rawSet (id : Nat) (k v : Value) : Lib Unit :=
  match Key.ofValue k with
  | .ok k => modify (·.set id k v)
  | .error .nil => complain "table index is nil"
  | .error .nan => complain "table index is NaN"

/-- Sets the entry of a key. -/
def setIndexFrom (o k v : Value) (origin : Option Origin) : (fuel : Nat) → Lib Unit
  | 0 => complain "'__newindex' chain too long; possibly a loop"
  | fuel + 1 => do
    match ← read (assignment · o k) with
    | .raw id => rawSet id k v
    | .viaCall f => discard (callMeta "__newindex" f [o, k, v])
    | .via next => setIndexFrom next k v none fuel
    | .impossible => wrongType "index" o origin

@[inherit_doc setIndexFrom]
def setIndex (o k v : Value) (origin : Option Origin := none) : Lib Unit :=
  setIndexFrom o k v origin maxChain

/-! ## Arithmetic and bits -/

/-- The event of an operator. -/
def eventOf : Binary → String
  | .add => "__add"
  | .sub => "__sub"
  | .mul => "__mul"
  | .mod => "__mod"
  | .pow => "__pow"
  | .div => "__div"
  | .floorDiv => "__idiv"
  | .band => "__band"
  | .bor => "__bor"
  | .bxor => "__bxor"
  | .shl => "__shl"
  | .shr => "__shr"
  | .concat => "__concat"
  | .eq | .ne => "__eq"
  | .lt | .gt => "__lt"
  | .le | .ge => "__le"

/-- Whether an operator works on bits. -/
def isBitwise : Binary → Bool
  | .band | .bor | .bxor | .shl | .shr => true
  | _ => false

/-- The metamethod of an event for two operands: that of the first one that has it. -/
def metaOf (event : String) (a b : Value) (h : Heap) : Value :=
  match h.metamethod a event with
  | .nil => h.metamethod b event
  | f => f

/-- Complains about the operand that is no number. -/
def badOperand {α : Type} (what : String) (a b : Value) (origins : Origins) : Lib α :=
  if a.isNumber then wrongType what b origins.2 else wrongType what a origins.1

/-- Complains about the number that is no integer. -/
def badInteger {α : Type} (a : Value) (origins : Origins) : Lib α :=
  complain ("number".toUTF8 ++ named (if a.toInteger?.isNone then origins.1 else origins.2)
    ++ " has no integer representation".toUTF8)

/-- Does an arithmetic or bitwise operation. -/
def arith (op : Binary) (a b : Value) (origins : Origins := (none, none)) : Lib Value := do
  match Arith.binary op a b with
  | .ok v => pure v
  | .error .divideByZero => complain "attempt to perform 'n//0'"
  | .error .moduloByZero => complain "attempt to perform 'n%%0'"
  | .error why =>
    let event := eventOf op
    match ← read (metaOf event a b) with
    | .nil =>
      match why with
      | .fraction => badInteger a origins
      | _ =>
        let what := if isBitwise op then "perform bitwise operation on" else "perform arithmetic on"
        badOperand what a b origins
    | f => return firstOf (← callMeta event f [a, b])

/-- The opposite of a number. -/
def minus (a : Value) (origin : Option Origin := none) : Lib Value := do
  match Arith.minus a with
  | some v => pure v
  | none =>
    match ← read (·.metamethod a "__unm") with
    | .nil => wrongType "perform arithmetic on" a origin
    | f => return firstOf (← callMeta "__unm" f [a, a])

/-- The complement of an integer. -/
def complement (a : Value) (origin : Option Origin := none) : Lib Value := do
  match Arith.complement a with
  | .ok v => pure v
  | .error why =>
    match ← read (·.metamethod a "__bnot") with
    | .nil =>
      match why with
      | .fraction => badInteger a (origin, origin)
      | _ => wrongType "perform bitwise operation on" a origin
    | f => return firstOf (← callMeta "__bnot" f [a, a])

/-! ## Texts and lengths -/

/-- Puts two values together as texts. -/
def concat (a b : Value) (origins : Origins := (none, none)) : Lib Value := do
  match a.asText?, b.asText? with
  | some s, some t => pure (.string (s ++ t))
  | s, _ =>
    match ← read (metaOf "__concat" a b) with
    | .nil =>
      if s.isSome then wrongType "concatenate" b origins.2 else wrongType "concatenate" a origins.1
    | f => return firstOf (← callMeta "__concat" f [a, b])

/-- The length of a value. -/
def length (a : Value) (origin : Option Origin := none) : Lib Value := do
  match a with
  | .string s => pure (.int (Int64.ofNat s.size))
  | a =>
    match ← read (·.metamethod a "__len") with
    | .nil =>
      match a with
      | .table id => return .int (Int64.ofNat (← read fun h => (h.table id).length))
      | a => wrongType "get length of" a origin
    | f => return firstOf (← callMeta "__len" f [a])

/-! ## Comparison -/

/-- Complains about two values that have no order. -/
def noOrder {α : Type} (a b : Value) : Lib α := do
  let first ← read (·.typeName a)
  let second ← read (·.typeName b)
  if first == second then
    complain ("attempt to compare two ".toUTF8 ++ first ++ " values".toUTF8)
  else complain ("attempt to compare ".toUTF8 ++ first ++ " with ".toUTF8 ++ second)

/-- Whether one value is below another. -/
def less (a b : Value) : Lib Bool := do
  match Arith.less? a b with
  | some r => pure r
  | none =>
    match ← read (metaOf "__lt" a b) with
    | .nil => noOrder a b
    | f => return (firstOf (← callMeta "__lt" f [a, b])).isTrue

/-- Whether one value is at most another. -/
def atMost (a b : Value) : Lib Bool := do
  match Arith.atMost? a b with
  | some r => pure r
  | none =>
    match ← read (metaOf "__le" a b) with
    | .nil => noOrder a b
    | f => return (firstOf (← callMeta "__le" f [a, b])).isTrue

/-- Whether equality of two values is up to metamethods. -/
def comparable : Value → Value → Bool
  | .table _, .table _ | .object _, .object _ => true
  | _, _ => false

/-- Whether two values are equal. -/
def equal (a b : Value) : Lib Bool := do
  if a.rawEquals b then pure true
  else if comparable a b then
    match ← read (metaOf "__eq" a b) with
    | .nil => pure false
    | f => return (firstOf (← callMeta "__eq" f [a, b])).isTrue
  else pure false

/-- Does an operation with two operands. -/
def binary (op : Binary) (a b : Value) (origins : Origins) : Lib Value := do
  match op with
  | .concat => concat a b origins
  | .eq => return .bool (← equal a b)
  | .ne => return .bool (! (← equal a b))
  | .lt => return .bool (← less a b)
  | .le => return .bool (← atMost a b)
  | .gt => return .bool (← less b a)
  | .ge => return .bool (← atMost b a)
  | op => arith op a b origins

/-- Does an operation with one operand. -/
def unary (op : Unary) (a : Value) (origin : Option Origin) : Lib Value :=
  match op with
  | .minus => minus a origin
  | .not => pure (.bool (! a.isTrue))
  | .length => length a origin
  | .complement => complement a origin

/-! ## Values as text -/

/-- The hexadecimal form of an address. -/
def addressText (n : Nat) : String := "0x" ++ String.ofList (Nat.toDigits 16 n)

/-- The text of a value when its metatable says nothing. -/
def plainText (h : Heap) (v : Value) : Bytes :=
  match v with
  | .nil => "nil"
  | .bool b => if b then "true" else "false"
  | .string s => s
  | v =>
    match v.numberText?, v.address with
    | some s, _ => s
    | none, some n => h.typeName v ++ (": " ++ addressText n).toUTF8
    | none, none => h.typeName v

/-- The text of a value. -/
def text (v : Value) : Lib Bytes := do
  match ← read (·.metamethod v "__tostring") with
  | .nil => read (plainText · v)
  | f =>
    match (firstOf (← call f [v])).asText? with
    | some s => pure s
    | none => raise "'__tostring' must return a string"

end Lib

end OscHost.Script
