import OscHost.Script.Arguments
import OscHost.Script.Library.Base
/-!
  Files.

  Functions that take a path are guarded: the host resolves the path, and a refusal comes back as
  nil and a text.  What a stock function complains about after that is told with the place of the
  guard.
-/

namespace OscHost.Script.Library.Files

open Lib OscHost.Files

/-- The text of a number that is used as a path. -/
def pathArg (v : Value) : PathArg :=
  match v.asText? with
  | some s => .text s
  | none => .other v.typeName

/-- Where a guard calls the function behind it. -/
def guardPlace : String × Nat := ("io_guard", 21)

/-- Where a guard that takes open files calls the function behind it. -/
def handlePlace : String × Nat := ("io_guard", 30)

/-- The name by which a guard knows the function behind it. -/
def guardedName : String := "f"

/-- Goes on with the answer of a guard, or yields its refusal. -/
def guarded {α : Type} (answer : Guarded α) (go : String → α → Lib (List Value)) :
    Lib (List Value) :=
  match answer with
  | .refused text => return [.nil, .text text]
  | .unreadable e =>
    failHost ("bad argument #1: error converting Lua string to String (" ++ e.message ++ ")")
  | .passed path r => Base.calledFrom guardPlace guardedName (go path r)

/-- Nil, what went wrong, and its number. -/
def failure (what : Option String) (e : FileError) : List Value :=
  let text := match what with
    | some path => path ++ ": " ++ e.message
    | none => e.message
  [.nil, .text text, .int (Int64.ofNat e.code)]

/-- True, or what went wrong. -/
def outcome (what : Option String) : Except FileError Unit → List Value
  | .ok () => [.bool true]
  | .error e => failure what e

/-- A new open file. -/
def newFile (file : Nat) : Lib Value := return .object (← update (·.newObject (.file file)))

/-- The text of an optional mode, if it is a text. -/
def modeOf (v : Value) (default : String) : Bytes :=
  match v with
  | .nil => default
  | v => v.asText?.getD ByteArray.empty

def ioOpen (args : Args) : Lib (List Value) := do
  guarded (← ask (.openFile (pathArg (args.get 1)) (modeOf (args.get 2) "r"))) fun path r => do
    let _ ← textArg? args 2
    match r with
    | .badMode => badArgument 2 "invalid mode"
    | .failed e => return failure (some path) e
    | .opened file => return [← newFile file]

/-- Opens a file or complains. -/
def openOrComplain (path : String) (r : Opening) : Lib Value :=
  match r with
  | .opened file => newFile file
  | .failed e => raise ("cannot open file '" ++ path ++ "' (" ++ e.message ++ ")").toUTF8
  | .badMode => badArgument 2 "invalid mode"

/-! ## Open files -/

/-- The number of the file that an argument is. -/
def anyFileArg (args : Args) (n : Nat) : Lib Nat := do
  match ← read (fileObject? · (args.get n)) with
  | some file => pure file
  | none => badType args n "FILE*"

/-- The number of an open file. -/
def fileArg (args : Args) (n : Nat) : Lib Nat := do
  let file ← anyFileArg args n
  if ← ask (.isOpen file) then pure file else raise "attempt to use a closed file"

/-- One of the two default files. -/
def defaultFile (isInput : Bool) : Lib (Value × Nat) := do
  let v ← read fun h => if isInput then h.roots.input else h.roots.output
  match ← read (fileObject? · v) with
  | none => raise "default file is not a file"
  | some file =>
    if ← ask (.isOpen file) then pure (v, file)
    else raise ("default " ++ (if isInput then "input" else "output") ++ " file is closed").toUTF8

/-- The numeral at the front of what was read, or nil. -/
def numeralOf (s : Bytes) : Value := (Value.ofNumeral? s).getD .nil

/-- Reads one value; `none` inside at the end of the file. -/
def readOne (file : Nat) (format : ReadFormat) : Lib (Except FileError (Option Value)) := do
  match ← ask (.read file format) with
  | .error e => pure (.error e)
  | .ok none => pure (.ok none)
  | .ok (some s) =>
    match format with
    | .numeral =>
      match numeralOf s with
      | .nil => pure (.ok none)
      | v => pure (.ok (some v))
    | _ => pure (.ok (some (.string s)))

/-- What a format argument asks for. -/
def formatArg (args : Args) (n : Nat) : Lib ReadFormat := do
  match args.get n with
  | .int _ | .float _ | .nan _ => return .bytes (← intArg args n).toUInt64.toNat
  | _ =>
    let s := (← textArg args n).toChars
    let s := if s.head? = some '*' then s.drop 1 else s
    match s.head? with
    | some 'n' => pure .numeral
    | some 'l' => pure (.line false)
    | some 'L' => pure (.line true)
    | some 'a' => pure .all
    | _ => badArgument n "invalid format"

/-- Reads by the formats among the arguments from `n` on, up to the first that fails. -/
def readFrom (file : Nat) (args : Args) : (n count : Nat) → (acc : List Value) →
    Lib (List Value)
  | _, 0, acc => pure acc.reverse
  | n, count + 1, acc => do
    let format ← formatArg args n
    match ← readOne file format with
    | .error e => return failure none e
    | .ok none => return (.nil :: acc).reverse
    | .ok (some v) => readFrom file args (n + 1) count (v :: acc)

/-- Reads by the formats among the arguments from `n` on; a line when there are none. -/
def readAll (file : Nat) (args : Args) (n : Nat) : Lib (List Value) := do
  if args.length < n then
    match ← readOne file (.line false) with
    | .error e => return failure none e
    | .ok v => return [v.getD .nil]
  else readFrom file args n (args.length + 1 - n) []

/-- What an argument writes: numbers with fourteen digits and no needless decimal place. -/
def writtenArg (args : Args) (n : Nat) : Lib Bytes :=
  match args.get n with
  | .float x =>
    let s := floatText x
    pure (if s.endsWith ".0" then ((s.dropEnd 2).toString).toUTF8 else s.toUTF8)
  | _ => textArg args n

/-- Writes the arguments from `n` on. -/
def writeFrom (file : Nat) (args : Args) : (n count : Nat) → Lib (Except FileError Unit)
  | _, 0 => pure (.ok ())
  | n, count + 1 => do
    let s ← writtenArg args n
    match ← ask (.write file s) with
    | .error e => pure (.error e)
    | .ok () => writeFrom file args (n + 1) count

/-- Writes the arguments from `n` on and yields the file. -/
def writeAll (v : Value) (file : Nat) (args : Args) (n : Nat) : Lib (List Value) := do
  match ← writeFrom file args n (args.length + 1 - n) with
  | .ok () => return [v]
  | .error e => return failure none e

/-- Closes a file. -/
def closeFile (file : Nat) : Lib (List Value) := do
  match ← ask (.close file) with
  | .closed => return [.bool true]
  | .finished code =>
    return [if code = 0 then .bool true else .nil, .text "exit", .int (Int64.ofNat code)]
  | .kept => return [.nil, .text "cannot close standard file"]

/-- Most formats that an iteration over lines keeps. -/
def maxFormats : Nat := 250

/-- The function that reads a file by some formats again and again. -/
def newReader (file : Value) (formats : List Value) (closes : Bool) : Lib Value := do
  if maxFormats < formats.length then badArgument (maxFormats + 2) "too many arguments"
  else return .native (← update (·.newNative (.reader file formats closes)))

/-- The next values of an iteration. -/
def callReader (v : Value) (formats : List Value) (closes : Bool) : Lib (List Value) := do
  match ← read (fileObject? · v) with
  | none => return []
  | some file =>
    if ! (← ask (.isOpen file)) then raise "file is already closed"
    else
      let values ← readAll file (v :: formats) 2
      if (firstOf values).isTrue then pure values
      else
        match values with
        | _ :: .string message :: _ => raise message
        | _ =>
          if closes then discard (closeFile file)
          return []

def fileClose (args : Args) : Lib (List Value) := do closeFile (← fileArg args 1)

def fileGc (args : Args) : Lib (List Value) := do
  let file ← anyFileArg args 1
  if ← ask (.isOpen file) then discard (closeFile file)
  return []

def fileFlush (args : Args) : Lib (List Value) := do
  let file ← fileArg args 1
  return outcome none (← ask (.flush file))

def fileLines (args : Args) : Lib (List Value) := do
  let _ ← fileArg args 1
  return [← newReader (args.get 1) (args.drop 1) false]

def fileRead (args : Args) : Lib (List Value) := do readAll (← fileArg args 1) args 2

def fileWrite (args : Args) : Lib (List Value) := do
  writeAll (args.get 1) (← fileArg args 1) args 2

def fileSeek (args : Args) : Lib (List Value) := do
  let file ← fileArg args 1
  let whence ← optionArg args 2 (some "cur") ["set", "cur", "end"]
  let offset ← intArgOr args 3 0
  let whence : Whence := if whence == "set" then .start else if whence == "end" then .theEnd else .current
  match ← ask (.seek file whence offset.toInt) with
  | .ok n => return [.int (Int64.ofNat n)]
  | .error e => return failure none e

def fileSetvbuf (args : Args) : Lib (List Value) := do
  let _ ← fileArg args 1
  let _ ← optionArg args 2 none ["no", "full", "line"]
  let _ ← intArgOr args 3 0
  return [.bool true]

def fileToString (args : Args) : Lib (List Value) := do
  let file ← anyFileArg args 1
  if ← ask (.isOpen file) then
    return [.text ("file (" ++ addressText ((args.get 1).address.getD 0) ++ ")")]
  else return [.text "file (closed)"]

/-! ## The library table -/

def ioClose (args : Args) : Lib (List Value) := do
  if args.isEmpty then
    let v ← read (·.roots.output)
    closeFile (← fileArg [v] 1)
  else closeFile (← fileArg args 1)

def ioFlush : Lib (List Value) := do
  let (_, file) ← defaultFile false
  return outcome none (← ask (.flush file))

def ioRead (args : Args) : Lib (List Value) := do
  let (_, file) ← defaultFile true
  readAll file args 1

def ioWrite (args : Args) : Lib (List Value) := do
  let (v, file) ← defaultFile false
  writeAll v file args 1

def ioType (args : Args) : Lib (List Value) := do
  let v ← anyArg args 1
  match ← read (fileObject? · v) with
  | none => return [.nil]
  | some file => return [.text (if ← ask (.isOpen file) then "file" else "closed file")]

/-- Whether an argument stands for the default file or an open one, and so needs no guard. -/
def isHandle (v : Value) : Bool :=
  match v with
  | .nil | .object _ | .mark _ => true
  | _ => false

/-- Selects or tells a default file. -/
def selectFile (isInput : Bool) (args : Args) : Lib (List Value) := do
  let set (v : Value) : Lib (List Value) := do
    modify fun h => { h with
      roots := if isInput then { h.roots with input := v } else { h.roots with output := v } }
    return [v]
  match args.get 1 with
  | .nil => return [← read fun h => if isInput then h.roots.input else h.roots.output]
  | v =>
    if isHandle v then
      Base.calledFrom handlePlace guardedName do
        let _ ← fileArg args 1
        set v
    else
      guarded (← ask (.openFile (pathArg v) (if isInput then "r" else "w"))) fun path r => do
        set (← openOrComplain path r)

def ioInput (args : Args) : Lib (List Value) := selectFile true args

def ioOutput (args : Args) : Lib (List Value) := selectFile false args

def ioLines (args : Args) : Lib (List Value) := do
  match args.get 1 with
  | .nil =>
    Base.calledFrom handlePlace guardedName do
      let (v, _) ← defaultFile true
      return [← newReader v (args.drop 1) false]
  | v =>
    if isHandle v then
      Base.calledFrom handlePlace guardedName do
        let _ ← textArg args 1
        return []
    else
      guarded (← ask (.openFile (pathArg v) "r")) fun path r => do
        let file ← openOrComplain path r
        return [← newReader file (args.drop 1) true, .nil, .nil, file]

def ioList (args : Args) : Lib (List Value) := do
  let path := (← hostText? args 1).getD "."
  match ← ask (.listDirectory path) with
  | .ok names => return [← newTable (Table.ofList (names.map Value.text)), .nil]
  | .error e => return [.nil, .text e.message]

def ioTmpfile : Lib (List Value) := do
  match ← ask .temporaryFile with
  | some file => return [← newFile file]
  | none => return failure none .notFound

def ioPopen (args : Args) : Lib (List Value) := do
  let command ← textArg args 1
  let mode := (← textArg? args 2).getD "r"
  if mode != "r".toUTF8 ∧ mode != "w".toUTF8 then badArgument 2 "invalid mode"
  else
    match ← ask (.openProcess command mode) with
    | some file => return [← newFile file]
    | none => return failure (some (Text.Utf8.lossy command)) .notFound

/-! ## Removal and renaming -/

def osRemove (args : Args) : Lib (List Value) := do
  guarded (← ask (.removeFile (pathArg (args.get 1)))) fun path r => return outcome (some path) r

def osRename (args : Args) : Lib (List Value) := do
  guarded (← ask (.renameFile (pathArg (args.get 1)) (pathArg (args.get 2)))) fun _ r =>
    return outcome none r

end OscHost.Script.Library.Files
