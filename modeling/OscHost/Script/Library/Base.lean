import OscHost.Script.Arguments
import OscHost.Script.Load
/-!
  Basic functions.

  `print` writes to the log.  `load` takes source texts only, and an environment counts when it is
  given, even as nil; `loadfile` and `dofile` read scripts below the script root.
-/

namespace OscHost.Script.Library.Base

open Lib

/-- The position shown for a host function that is written as a script. -/
def shownAt (script : String) (line : Nat) : Bytes := (script ++ ":" ++ toString line ++ ": ").toUTF8

/-- Runs a computation as a function with some name, called from a fixed position. -/
def calledFrom {α : Type} (position : String × Nat) (name : String) (x : Lib α) : Lib α :=
  fun s k h =>
    let levels (n : Nat) : Option Level :=
      match n with
      | 0 => some ⟨.nil, none, some ⟨"upvalue", name⟩⟩
      | 1 => some ⟨.nil, some (position.1.toUTF8, position.2), none⟩
      | n + 2 => s.levels (n + 1)
    x { s with levels } k h

def assert (args : Args) : Lib (List Value) := do
  if (args.get 1).isTrue then pure args
  else
    let _ ← anyArg args 1
    match args.drop 1 with
    | [] => throw (.text "assertion failed!")
    | message :: _ => throw message

def error (args : Args) : Lib (List Value) := do
  let level ← intArgOr args 2 1
  match args.get 1 with
  | .string s =>
    if 0 < level.toInt then complainAt level.toInt.toNat s else throw (.string s)
  | v => throw v

/-- The words that `collectgarbage` knows. -/
def collectorWords : List String :=
  ["stop", "restart", "collect", "count", "step", "setpause", "setstepmul", "isrunning",
    "generational", "incremental"]

def collectgarbage (args : Args) : Lib (List Value) := do
  match ← optionArg args 1 (some "collect") collectorWords with
  | "count" =>
    let n ← read fun h => 32 * h.tables.size + 16 * h.closures.size + 20000
    return [.float (Float.ofNat n / 1024.0)]
  | "step" | "isrunning" => return [.bool true]
  | "setpause" => return [.int 200]
  | "setstepmul" => return [.int 100]
  | "generational" | "incremental" => return [.text "incremental"]
  | _ => return [.int 0]

def getmetatable (args : Args) : Lib (List Value) := do
  let v ← anyArg args 1
  match ← read (·.metatable v) with
  | none => return [.nil]
  | some id =>
    match ← read fun h => (h.table id).getText "__metatable" with
    | .nil => return [.table id]
    | v => return [v]

def setmetatable (args : Args) : Lib (List Value) := do
  let id ← tableArg args 1
  let metatable ← match args.get 2 with
    | .nil => if args.has 2 then pure none else badType args 2 "nil or table"
    | .table m => pure (some m)
    | _ => badType args 2 "nil or table"
  match ← read (·.metamethod (.table id) "__metatable") with
  | .nil =>
    modify (·.modifyTable id fun t => { t with metatable })
    return [.table id]
  | _ => raise "cannot change a protected metatable"

def ipairs (args : Args) : Lib (List Value) := do
  let v ← anyArg args 1
  return [.builtin .ipairsNext, v, .int 0]

def ipairsNext (args : Args) : Lib (List Value) := do
  let i := (← intArg args 2) + 1
  match ← index (args.get 1) (.int i) with
  | .nil => return [.nil]
  | v => return [.int i, v]

def next (args : Args) : Lib (List Value) := do
  let id ← tableArg args 1
  let after (k : Option Key) : Lib (List Value) := do
    match ← read fun h => (h.table id).next k with
    | none => complain "invalid key to 'next'"
    | some none => return [.nil]
    | some (some (k, v)) => return [k.toValue, v]
  match args.get 2 with
  | .nil => after none
  | v =>
    match Key.ofValue v with
    | .ok k => after (some k)
    | .error _ => complain "invalid key to 'next'"

def pairs (args : Args) : Lib (List Value) := do
  let v ← anyArg args 1
  match ← read (·.metamethod v "__pairs") with
  | .nil => return [.builtin .next, v, .nil]
  | f =>
    let r ← callLoose f [v]
    return [r.getD 0 .nil, r.getD 1 .nil, r.getD 2 .nil]

def pcall (args : Args) : Lib (List Value) := do
  let f ← anyArg args 1
  match ← attempt f (args.drop 1) with
  | .ok values => return .bool true :: values
  | .error e => return [.bool false, e]

def xpcall (args : Args) : Lib (List Value) := do
  let handler ← functionArg args 2
  match ← attempt (args.get 1) (args.drop 2) (some handler) with
  | .ok values => return .bool true :: values
  | .error e => return [.bool false, e]

/-- The texts of some values. -/
def texts : List Value → Lib (List Bytes)
  | [] => pure []
  | v :: rest => do
    let s ← calledFrom ("print", 7) "tostring" (text v)
    return s :: (← texts rest)

def print (args : Args) : Lib (List Value) := do
  let line := Bytes.join ((← texts args).intersperse "\t")
  match Text.Utf8.decode line with
  | .ok line =>
    log ⟨.script, .info, line⟩
    return []
  | .error e =>
    badHostArgument 1 (.string line) ("String (" ++ e.message ++ ")")

def rawequal (args : Args) : Lib (List Value) := do
  let a ← anyArg args 1
  let b ← anyArg args 2
  return [.bool (a.rawEquals b)]

def rawlen (args : Args) : Lib (List Value) := do
  match args.get 1 with
  | .table id => return [.int (Int64.ofNat (← read fun h => (h.table id).length))]
  | .string s => return [.int (Int64.ofNat s.size)]
  | _ => badArgument 1 "table or string expected"

def rawget (args : Args) : Lib (List Value) := do
  let id ← tableArg args 1
  let k ← anyArg args 2
  match Key.ofValue k with
  | .ok k => return [← read fun h => (h.table id).get k]
  | .error _ => return [.nil]

def rawset (args : Args) : Lib (List Value) := do
  let id ← tableArg args 1
  let k ← anyArg args 2
  let v ← anyArg args 3
  rawSet id k v
  return [.table id]

def select (args : Args) : Lib (List Value) := do
  let rest := args.drop 1
  match args.get 1 with
  | .string s =>
    if s[0]? = some '#'.toUInt8 then return [.int (Int64.ofNat rest.length)] else pure ()
  | _ => pure ()
  let n := (← intArg args 1).toInt
  if n < 0 then
    if rest.length + n < 0 then badArgument 1 "index out of range"
    else pure (rest.drop (rest.length + n).toNat)
  else if n = 0 then badArgument 1 "index out of range"
  else pure (rest.drop (n.toNat - 1))

/-- The value of a digit in bases up to thirty-six. -/
def digitValue? (c : Char) : Option Nat :=
  if c.isDigit then some (c.toNat - '0'.toNat)
  else if c.isAlpha then some (c.toUpper.toNat - 'A'.toNat + 10)
  else none

/-- The integer that digits of a base write, with blanks around and an optional sign. -/
def inBase? (base : Nat) (s : Bytes) : Option Int64 :=
  let s := s.toChars.dropWhile Number.Numeral.isBlank
  let (negative, s) := match s with
    | '-' :: rest => (true, rest)
    | '+' :: rest => (false, rest)
    | s => (false, s)
  let digits := s.takeWhile (·.isAlphanum)
  let rest := s.dropWhile (·.isAlphanum)
  if digits.isEmpty || ! rest.all Number.Numeral.isBlank then none
  else do
    let values ← digits.mapM digitValue?
    if values.all (· < base) then
      let n := Int64.ofNat (values.foldl (fun n d => n * base + d) 0)
      some (if negative then -n else n)
    else none

def tonumber (args : Args) : Lib (List Value) := do
  match args.get 2 with
  | .nil =>
    let v ← anyArg args 1
    return [v.toNumber?.getD .nil]
  | _ =>
    let base := (← intArg args 2).toInt
    match args.get 1 with
    | .string s =>
      if base < 2 ∨ 36 < base then badArgument 2 "base out of range"
      else return [((inBase? base.toNat s).map Value.int).getD .nil]
    | _ => badType args 1 "string"

def tostring (args : Args) : Lib (List Value) := do
  let v ← anyArg args 1
  return [.string (← text v)]

def type (args : Args) : Lib (List Value) := do
  let v ← anyArg args 1
  return [.text v.typeName]

def warn (args : Args) : Lib (List Value) := do
  let _ ← textArg args 1
  for i in List.range (args.length - 1) do
    discard (textArg args (i + 2))
  return []

/-! ## Code from texts -/

/-- The text that a function yields piece by piece, up to an empty piece or nil. -/
def readPieces (f : Value) (acc : Bytes) : (fuel : Nat) → Lib (Except Value Bytes)
  | 0 => pure (.ok acc)
  | fuel + 1 => do
    match ← attemptPinned f [] with
    | .error e => pure (.error e)
    | .ok values =>
      match firstOf values with
      | .nil => pure (.ok acc)
      | v =>
        match v.asText? with
        | some piece => if piece.isEmpty then pure (.ok acc) else readPieces f (acc ++ piece) fuel
        | none =>
          return .error (.string ((← site).position 1 ++ "reader function must return a string".toUTF8))

/-- Most pieces that are taken from a function. -/
def maxPieces : Nat := 1000000000

/-- Makes a function of a text. -/
def loadText (chunk source : Bytes) (environment : Option Value) : Lib (List Value) := do
  match compileText chunk source with
  | .ok p =>
    let environment ← match environment with
      | some v => pure v
      | none => read (·.globalsValue)
    return [← update (·.newChunk p environment)]
  | .error message => return [.nil, .string message]

def load (args : Args) : Lib (List Value) := do
  let environment := (args.drop 3).head?
  let args : Args := args.take 2
  calledFrom ("load", if environment.isSome then 5 else 7) "load" do
    match (args.get 1).asText? with
    | some source =>
      let chunk := (← textArg? args 2).getD source
      loadText chunk source environment
    | none =>
      let chunk := (← textArg? args 2).getD "=(load)"
      let f ← functionArg args 1
      match ← readPieces f ByteArray.empty maxPieces with
      | .ok source => loadText chunk source environment
      | .error e => return [.nil, e]

/-- Makes a function of a script below the script root. -/
def loadScript (path : Option String) (environment : Option Value) :
    Lib (Except HostError Value) := do
  match ← ask (.loadScript path) with
  | .error e => pure (.error e)
  | .ok source =>
    match compileText ("@" ++ source.name).toUTF8 source.text with
    | .error message => pure (.error (.script ("syntax error: " ++ Text.Utf8.lossy message)))
    | .ok p =>
      let environment ← match environment with
        | some v => pure v
        | none => read (·.globalsValue)
      return .ok (← update (·.newChunk p environment))

def loadfile (args : Args) : Lib (List Value) := do
  let path ← hostText? args 1
  let _ ← hostText? args 2
  let environment ← hostTable? args 3
  match ← loadScript path (environment.map Value.table) with
  | .ok f => return [f, .nil]
  | .error e =>
    log (.warn ("loadfile refused: " ++ e.message))
    return [.nil, .text e.message]

def dofile (args : Args) : Lib (List Value) := do
  match ← loadfile (args.take 1) with
  | [.nil, message] => return [.nil, message]
  | values => become (firstOf values) []

end OscHost.Script.Library.Base
