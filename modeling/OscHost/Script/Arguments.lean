import OscHost.Script.Operators
/-!
  Arguments of library functions.

  A function reads its arguments by number.  An argument of a wrong type is refused with the number
  and the name under which the function was called; where texts are wanted numbers will do, and
  where numbers are wanted texts that write one.
-/

namespace OscHost.Script

/-- The arguments of a call. -/
abbrev Args := List Value

namespace Args

/-- An argument, counted from one; nil when it is missing. -/
def get (args : Args) (n : Nat) : Value := args.getD (n - 1) .nil

/-- Whether an argument was given. -/
def has (args : Args) (n : Nat) : Bool := n ≤ args.length

end Args

namespace Lib

/-- The name of a function that is an entry of a table of loaded modules. -/
def findGlobalName (h : Heap) (f : Value) : Option Bytes :=
  let modules := (h.table h.roots.loaded).entries
  let direct := modules.findSome? fun e =>
    match e.1 with
    | .string name => if e.2.rawEquals f then some name else none
    | _ => none
  let inside := modules.findSome? fun e =>
    match e.1, e.2 with
    | .string name, .table id =>
      (h.table id).entries.findSome? fun e =>
        match e.1 with
        | .string key =>
          if e.2.rawEquals f then
            some (if name == "_G".toUTF8 then key else name ++ ".".toUTF8 ++ key)
          else none
        | _ => none
    | _, _ => none
  direct <|> inside

/-- The name by which to speak of the running function. -/
def ownName : Lib (Option Origin × Bytes) := do
  match (← site).levels 0 with
  | some ⟨_, _, some o⟩ => pure (some o, o.name)
  | some ⟨f, _, none⟩ => return (none, (← read (findGlobalName · f)).getD "?")
  | none => pure (none, "?")

/-- Refuses an argument. -/
def badArgument {α : Type} (n : Nat) (why : Bytes) : Lib α := do
  let (origin, name) ← ownName
  let isMethod := match origin with
    | some o => o.kind == "method"
    | none => false
  if isMethod && n == 1 then
    raise ("calling '".toUTF8 ++ name ++ "' on bad self (".toUTF8 ++ why ++ ")".toUTF8)
  else
    let n := if isMethod then n - 1 else n
    raise (("bad argument #" ++ toString n ++ " to '").toUTF8 ++ name ++ "' (".toUTF8 ++ why
      ++ ")".toUTF8)

/-- Refuses an argument because of its type. -/
def badType {α : Type} (args : Args) (n : Nat) (expected : String) : Lib α := do
  let got ← if args.has n then
      match args.get n with
      | .mark _ => pure "light userdata".toUTF8
      | v => read (·.typeName v)
    else pure "no value".toUTF8
  badArgument n ((expected ++ " expected, got ").toUTF8 ++ got)

/-- An argument that may be anything but has to be there. -/
def anyArg (args : Args) (n : Nat) : Lib Value :=
  if args.has n then pure (args.get n) else badArgument n "value expected"

/-- A table. -/
def tableArg (args : Args) (n : Nat) : Lib Nat :=
  match args.get n with
  | .table id => pure id
  | _ => badType args n "table"

/-- A text, or a number as text. -/
def textArg (args : Args) (n : Nat) : Lib Bytes :=
  match (args.get n).asText? with
  | some s => pure s
  | none => badType args n "string"

/-- A text, or nothing. -/
def textArg? (args : Args) (n : Nat) : Lib (Option Bytes) :=
  match args.get n with
  | .nil => pure none
  | _ => return some (← textArg args n)

/-- A number. -/
def numberArg (args : Args) (n : Nat) : Lib Value :=
  match (args.get n).toNumber? with
  | some v => pure v
  | none => badType args n "number"

/-- A number as a double. -/
def floatArg (args : Args) (n : Nat) : Lib Float := do
  return (← numberArg args n).toFloat?.getD 0.0

/-- An integer, or a number that is one. -/
def intArg (args : Args) (n : Nat) : Lib Int64 := do
  match (args.get n).toNumber? with
  | some v =>
    match v.toInt? with
    | some i => pure i
    | none =>
      match args.get n with
      | .string _ | .int _ | .float _ | .nan _ =>
        badArgument n "number has no integer representation"
      | _ => badType args n "number"
  | none => badType args n "number"

/-- An integer, or a default when the argument is nil. -/
def intArgOr (args : Args) (n : Nat) (default : Int64) : Lib Int64 :=
  match args.get n with
  | .nil => pure default
  | _ => intArg args n

/-- A text that has to be one of some words; the number of the word. -/
def optionArg (args : Args) (n : Nat) (default : Option String) (words : List String) : Lib String :=
  match default, args.get n with
  | some word, .nil => pure word
  | _, _ => do
    let s ← textArg args n
    match words.find? fun w => w.toUTF8 == s with
    | some w => pure w
    | none => badArgument n ("invalid option '".toUTF8 ++ s ++ "'".toUTF8)

/-- A function. -/
def functionArg (args : Args) (n : Nat) : Lib Value :=
  match args.get n with
  | .closure id => pure (.closure id)
  | .builtin b => pure (.builtin b)
  | .native id => pure (.native id)
  | _ => badType args n "function"

/-- The number of an open or closed file among the arguments. -/
def fileObject? (h : Heap) : Value → Option Nat
  | .object id =>
    match h.objects[id]? with
    | some (.file file) => some file
    | _ => none
  | _ => none

/-! ## Arguments of host functions -/

/-- Refuses an argument of a host function. -/
def badHostArgument {α : Type} (n : Nat) (v : Value) (target : String) : Lib α := do
  let kind ← read (·.hostTypeName v)
  failHost ("bad argument #" ++ toString n ++ ": error converting Lua " ++ kind ++ " to " ++ target)

/-- A text in UTF-8, or a number as text. -/
def hostText (args : Args) (n : Nat) : Lib String :=
  let v := args.get n
  match v.asText? with
  | none => badHostArgument n v "String (expected string or number)"
  | some s =>
    match Text.Utf8.decode s with
    | .ok s => pure s
    | .error e => badHostArgument n v ("String (" ++ e.message ++ ")")

/-- A text in UTF-8, or nothing. -/
def hostText? (args : Args) (n : Nat) : Lib (Option String) :=
  match args.get n with
  | .nil => pure none
  | _ => return some (← hostText args n)

/-- A table, or nothing. -/
def hostTable? (args : Args) (n : Nat) : Lib (Option Nat) :=
  match args.get n with
  | .nil => pure none
  | .table id => pure (some id)
  | v => badHostArgument n v "table"

end Lib

end OscHost.Script
