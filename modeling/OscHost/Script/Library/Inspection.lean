import OscHost.Script.Arguments
/-!
  Inspection of running functions.

  Only scripts that are trusted with it get these functions: they pass by `__metatable` and reach
  the variables that functions have captured.  Hooks are never called.
-/

namespace OscHost.Script.Library.Inspection

open Lib

/-- Leaves out a coroutine in front of the other arguments. -/
def withoutThread (args : Args) : Args :=
  match args with
  | .thread _ :: rest => rest
  | args => args

/-! ## Functions -/

/-- The code of a function, when it is a script's. -/
def protoOf? (h : Heap) : Value → Option Proto
  | .closure id => (h.closures[id]?).map (·.proto)
  | _ => none

/-- Where a function comes from. -/
def sourceFields : Option Proto → List (String × Value)
  | none =>
    [("source", .text "=[C]"), ("short_src", .text "[C]"), ("linedefined", .int (-1)),
      ("lastlinedefined", .int (-1)), ("what", .text "C")]
  | some p =>
    let last := if p.line = 0 then -1 else Int64.ofNat p.endLine
    [("source", .string p.chunk), ("short_src", .string (Proto.shownChunk p.chunk)),
      ("linedefined", .int (Int64.ofNat p.line)), ("lastlinedefined", .int last),
      ("what", .text (if p.line = 0 then "main" else "Lua"))]

/-- What a function takes and captures. -/
def shapeFields : Option Proto → List (String × Value)
  | none => [("nups", .int 0), ("nparams", .int 0), ("isvararg", .bool true)]
  | some p =>
    [("nups", .int (Int64.ofNat p.captures.length)), ("nparams", .int (Int64.ofNat p.params)),
      ("isvararg", .bool p.isVararg)]

/-- The name a running function was called by. -/
def nameFields : Option Origin → List (String × Value)
  | some o => [("name", .string o.name), ("namewhat", .text o.kind)]
  | none => [("namewhat", .text "")]

/-- The lines of a function that hold code. -/
def activeLines (p : Proto) : Table :=
  p.code.foldl (fun t (i : Instr × Nat) => t.set (.int (Int64.ofNat i.2)) (.bool true)) {}

/-- The fields that some letters ask for. -/
def fieldsOf (p : Option Proto) (l : Level) (letters : List Char) : List (String × Value) :=
  let asked (c : Char) (fields : List (String × Value)) := if letters.contains c then fields else []
  let line := match l.place with
    | some (_, line) => Int64.ofNat line
    | none => -1
  asked 'S' (sourceFields p) ++ asked 'l' [("currentline", .int line)] ++ asked 'u' (shapeFields p)
    ++ asked 'n' (nameFields l.name) ++ asked 'r' [("ftransfer", .int 0), ("ntransfer", .int 0)]
    ++ asked 't' [("istailcall", .bool false)] ++ asked 'f' [("func", l.function)]

def getinfo (args : Args) : Lib (List Value) := do
  let args := withoutThread args
  let letters := ((← textArg? args 2).getD "flnSrtu").toChars
  if letters.contains '>' then badArgument 2 "invalid option '>'" else pure ()
  let level ← match args.get 1 with
    | .closure _ | .builtin _ | .native _ => pure (some (Level.mk (args.get 1) none none))
    | _ => do
      let n := (← intArg args 1).toInt
      if n < 0 then pure none else pure ((← site).levels n.toNat)
  match level with
  | none => return [.nil]
  | some l =>
    if ! letters.all "SlnrutLf".toList.contains then badArgument 2 "invalid option" else pure ()
    let p ← read (protoOf? · l.function)
    let table := (fieldsOf p l letters).foldl (fun (t : Table) f => t.setText f.1 f.2) {}
    match letters.contains 'L', p with
    | true, some p =>
      let lines ← newTable (activeLines p)
      return [← newTable (table.setText "activelines" lines)]
    | _, _ => return [← newTable table]

/-- Local variables are not shown, only refused at levels that do not run. -/
def getlocal (args : Args) : Lib (List Value) := do
  let args := withoutThread args
  let _ ← intArg args 2
  match args.get 1 with
  | .closure _ | .builtin _ | .native _ => return [.nil]
  | _ =>
    let n := (← intArg args 1).toInt
    if n < 0 || ((← site).levels n.toNat).isNone then badArgument 1 "level out of range"
    else return [.nil]

def setlocal (args : Args) : Lib (List Value) := getlocal args

def traceback (args : Args) : Lib (List Value) := do
  let args := withoutThread args
  match args.get 1 with
  | .nil => return [.text "stack traceback:\n\t[C]: in ?"]
  | v =>
    match v.asText? with
    | some s => return [.string (s ++ "\nstack traceback:\n\t[C]: in ?".toUTF8)]
    | none => return [v]

/-! ## Metatables -/

def getmetatable (args : Args) : Lib (List Value) := do
  let v ← anyArg args 1
  return [((← read (·.metatable v)).map Value.table).getD .nil]

/-- Gives all values of a type a metatable, or none. -/
def setTypeMeta (type : String) (metatable : Option Nat) (h : Heap) : Heap :=
  let rest := h.typeMetas.filter (·.1 != type)
  { h with typeMetas := match metatable with
      | some id => (type, id) :: rest
      | none => rest }

def setmetatable (args : Args) : Lib (List Value) := do
  let v := args.get 1
  let metatable ← match args.get 2 with
    | .nil => if args.has 2 then pure none else badType args 2 "nil or table"
    | .table m => pure (some m)
    | _ => badType args 2 "nil or table"
  match v with
  | .table id => modify (·.modifyTable id fun t => { t with metatable })
  | .string _ =>
    let id ← match metatable with
      | some id => pure id
      | none => update (·.newTable {})
    modify fun h => { h with roots := { h.roots with stringMeta := id } }
  | .object _ => pure ()
  | v => modify (setTypeMeta v.typeName metatable)
  return [v]

def getregistry : Lib (List Value) := do
  let (loaded, preload) ← read fun h => (h.roots.loaded, h.roots.preload)
  return [← newTable ((({} : Table).setText "_LOADED" (.table loaded)).setText "_PRELOAD"
    (.table preload))]

/-! ## Captured variables -/

/-- The captured variable of a function by its number: its name and cell. -/
def captured? (h : Heap) (f : Value) (n : Int) : Option (String × Nat) :=
  match f with
  | .closure id => do
    let c ← h.closures[id]?
    let i := (n - 1).toNat
    if n < 1 then none
    else
      let (_, name) ← c.proto.captures[i]?
      let cell ← c.cells[i]?
      some (name, cell)
  | _ => none

def getupvalue (args : Args) : Lib (List Value) := do
  let n ← intArg args 2
  let f ← functionArg args 1
  match ← read (captured? · f n.toInt) with
  | some (name, cell) => return [.text name, ← read (·.cell cell)]
  | none => return []

def setupvalue (args : Args) : Lib (List Value) := do
  let v ← anyArg args 3
  let n ← intArg args 2
  let f ← functionArg args 1
  match ← read (captured? · f n.toInt) with
  | some (name, cell) =>
    modify (·.setCell cell v)
    return [.text name]
  | none => return []

/-- The number of the first mark that stands for a cell. -/
def firstCellMark : Nat := 16

def upvalueid (args : Args) : Lib (List Value) := do
  let n ← intArg args 2
  let f ← functionArg args 1
  match ← read (captured? · f n.toInt) with
  | some (_, cell) => return [.mark (firstCellMark + cell)]
  | none => return [.nil]

def upvaluejoin (args : Args) : Lib (List Value) := do
  let n ← intArg args 2
  let f ← functionArg args 1
  let n' ← intArg args 4
  let f' ← functionArg args 3
  match f, ← read (captured? · f n.toInt), ← read (captured? · f' n'.toInt) with
  | .closure id, some _, some (_, cell) =>
    modify fun h => { h with closures := h.closures.modify id fun c =>
      { c with cells := c.cells.setIfInBounds (n.toInt - 1).toNat cell } }
    return []
  | _, none, _ => badArgument 2 "invalid upvalue index"
  | _, _, _ => badArgument 4 "invalid upvalue index"

end OscHost.Script.Library.Inspection
