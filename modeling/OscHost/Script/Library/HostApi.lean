import OscHost.Json.Parser
import OscHost.Json.Printer
import OscHost.Script.Arguments
import OscHost.Script.Trees
/-!
  The functions that the host offers to its scripts.

  Failures come back as values: `false` and a text from functions that do something, nil and a text
  from functions that yield something.
-/

namespace OscHost.Script.Library.HostApi

open Lib

/-- A value at the boundary. -/
def boundaryOf (h : Heap) : Value → BoundaryValue
  | .nil => .nil
  | .bool b => .boolean b
  | .int n => .integer n
  | .float x => .float x
  | .nan _ => .float Value.notNumber
  | .string s => .string (Text.Utf8.lossy s)
  | v => .unsupported (h.hostTypeName v)

/-- Values at the boundary, where those that cannot cross it are nil. -/
def lossyBoundary (h : Heap) (v : Value) : Logged BoundaryValue :=
  match boundaryOf h v with
  | .unsupported kind => ⟨.nil, [.warn ("cannot pass a Lua " ++ kind ++ " to the host; using nil")]⟩
  | b => ⟨b, []⟩

/-- Writes some log records. -/
def logAll : List LogRecord → Lib Unit
  | [] => pure ()
  | r :: rest => do
    log r
    logAll rest

def oscSend (args : Args) : Lib (List Value) := do
  match args with
  | [] => return [.bool false, .text "no address"]
  | .string address :: rest =>
    let values ← read fun h => rest.map (lossyBoundary h)
    logAll (values.flatMap (·.log))
    match ← ask (.send (Text.Utf8.lossy address) (values.map (·.value))) with
    | .ok () => return [.bool true, .nil]
    | .error message => return [.bool false, .text message]
  | v :: _ =>
    let kind ← read (·.hostTypeName v)
    return [.bool false, .text ("address must be a string, got " ++ kind)]

def menuUpdate : Lib (List Value) := do
  ask .requestMenu
  return []

/-- The tree of a value, with its warnings in the log. -/
def treeOf (v : Value) : Lib Json := do
  let tree ← read (Trees.ofValue · v)
  logAll tree.log
  pure tree.value

/-- A clicked path for people. -/
def describePath : Json → String
  | .array items => " > ".intercalate (items.map fun
    | .string s => s
    | j => j.compact)
  | j => j.compact

def menuOnclick (args : Args) : Lib (List Value) := do
  let tree ← treeOf (args.get 1)
  log (.info ("[script] menu item " ++ describePath tree ++ " clicked; no handler"))
  return []

/-- The value by which a coroutine says that it sleeps. -/
def sleepMark : Value := .mark 0

def sleep (args : Args) : Lib (List Value) := do
  if (args.get 1).isNumber then
    discard (yield [sleepMark, args.get 1])
    return []
  else raise "sleep expects a number of seconds"

/-- The value of a tree, or the refusal of one that is nested too deep. -/
def valueOf (tree : Json) : Lib (Except String Value) := update fun h =>
  match Trees.toValue tree h with
  | .ok (v, h) => (.ok v, h)
  | .error e => (.error e, h)

def jsonRead (args : Args) : Lib (List Value) := do
  match ← ask (.readJson (← hostText args 1)) with
  | .error e => return [.nil, .text e.message]
  | .ok tree =>
    match ← valueOf tree with
    | .ok v => return [v, .nil]
    | .error e => return [.nil, .text e]

def jsonWrite (args : Args) : Lib (List Value) := do
  let path ← hostText args 1
  let tree ← read (Trees.ofValue · (args.get 2))
  match ← ask (.writeJson path tree) with
  | .ok () => return [.bool true, .nil]
  | .error e => return [.bool false, .text e.message]

def jsonEncode (args : Args) : Lib (List Value) := do
  return [.text (← treeOf (args.get 1)).compact, .nil]

def jsonDecode (args : Args) : Lib (List Value) := do
  match Json.parse (← hostText args 1) with
  | .error e => return [.nil, .text ("invalid json: " ++ e.message)]
  | .ok tree =>
    match ← valueOf tree.canonical with
    | .ok v => return [v, .nil]
    | .error e => failHost e

def errorText (args : Args) : Lib (List Value) := do
  match args.get 1 with
  | .object id =>
    match ← read fun h => h.objects[id]? with
    | some (.failure message) => return [.text (message ++ "\nstack traceback:\n\t[C]: in ?")]
    | _ => return [.text "userdata"]
  | _ => return [.text "userdata"]

end OscHost.Script.Library.HostApi
