import OscHost.Script.Arguments
/-!
  Time, the environment and processes.

  Dates are those of the Gregorian calendar without time zones.
-/

namespace OscHost.Script.Library.System

open Lib

/-! ## Dates -/

/-- A date and time of day. -/
structure Date where
  year : Int
  month : Int
  day : Int
  hour : Int
  minute : Int
  second : Int

/-- Days from the epoch to a date of the calendar; months may exceed the year. -/
def daysOf (year month day : Int) : Int :=
  let year := year + (month - 1).fdiv 12
  let month := (month - 1).fmod 12 + 1
  -- years that begin in March have their leap day at the end
  let y := if month ≤ 2 then year - 1 else year
  let era := y.fdiv 400
  let ofEra := y - era * 400
  let ofYear := (153 * ((month + 9).fmod 12) + 2).fdiv 5 + day - 1
  era * 146097 + ofEra * 365 + ofEra.fdiv 4 - ofEra.fdiv 100 + ofYear - 719468

/-- Seconds from the epoch to a date. -/
def Date.seconds (d : Date) : Int :=
  daysOf d.year d.month d.day * 86400 + d.hour * 3600 + d.minute * 60 + d.second

/-- The date so many seconds after the epoch. -/
def Date.ofSeconds (t : Int) : Date :=
  let days := t.fdiv 86400
  let rest := t.fmod 86400
  let z := days + 719468
  let era := z.fdiv 146097
  let doe := z - era * 146097
  let yoe := (doe - doe.fdiv 1460 + doe.fdiv 36524 - doe.fdiv 146096).fdiv 365
  let doy := doe - (365 * yoe + yoe.fdiv 4 - yoe.fdiv 100)
  let mp := (5 * doy + 2).fdiv 153
  let month := if mp < 10 then mp + 3 else mp - 9
  ⟨yoe + era * 400 + (if month ≤ 2 then 1 else 0), month, doy - (153 * mp + 2).fdiv 5 + 1,
    rest.fdiv 3600, (rest.fmod 3600).fdiv 60, rest.fmod 60⟩

/-- The day of the week, Sunday being zero. -/
def Date.weekday (d : Date) : Int := (daysOf d.year d.month d.day + 4).fmod 7

/-- The day of the year, the first being one. -/
def Date.yearday (d : Date) : Int := daysOf d.year d.month d.day - daysOf d.year 1 1 + 1

/-- The fields of a date by name. -/
def Date.fields (d : Date) : List (String × Value) :=
  let int (n : Int) : Value := .int (Int64.ofInt n)
  [("year", int d.year), ("month", int d.month), ("day", int d.day), ("hour", int d.hour),
    ("min", int d.minute), ("sec", int d.second), ("yday", int d.yearday),
    ("wday", int (d.weekday + 1)), ("isdst", .bool false)]

/-- The names of the months. -/
def monthNames : List String :=
  ["January", "February", "March", "April", "May", "June", "July", "August", "September", "October",
    "November", "December"]

/-- The names of the days of the week. -/
def dayNames : List String :=
  ["Sunday", "Monday", "Tuesday", "Wednesday", "Thursday", "Friday", "Saturday"]

/-- A number with at least two digits. -/
def two (n : Int) : String := if n < 10 then "0" ++ toString n else toString n

/-- The first three letters of a word. -/
def short (s : String) : String := String.ofList (s.toList.take 3)

/-- What a letter of a date format stands for. -/
def Date.part (d : Date) (c : Char) : Option String :=
  let dayName := dayNames.getD d.weekday.toNat ""
  let monthName := monthNames.getD (d.month - 1).toNat ""
  let hour12 := if d.hour.fmod 12 = 0 then 12 else d.hour.fmod 12
  let clock := two d.hour ++ ":" ++ two d.minute ++ ":" ++ two d.second
  let yearday := toString d.yearday
  match c with
  | 'a' => some (short dayName)
  | 'A' => some dayName
  | 'b' | 'h' => some (short monthName)
  | 'B' => some monthName
  | 'c' => some (short dayName ++ " " ++ short monthName ++ " "
      ++ (if d.day < 10 then " " else "") ++ toString d.day ++ " " ++ clock ++ " " ++ toString d.year)
  | 'C' => some (two (d.year.fdiv 100))
  | 'd' => some (two d.day)
  | 'D' | 'x' => some (two d.month ++ "/" ++ two d.day ++ "/" ++ two (d.year.fmod 100))
  | 'e' => some ((if d.day < 10 then " " else "") ++ toString d.day)
  | 'F' => some (toString d.year ++ "-" ++ two d.month ++ "-" ++ two d.day)
  | 'H' => some (two d.hour)
  | 'I' => some (two hour12)
  | 'j' => some (String.ofList (List.replicate (3 - yearday.length) '0') ++ yearday)
  | 'm' => some (two d.month)
  | 'M' => some (two d.minute)
  | 'n' => some "\n"
  | 'p' => some (if d.hour < 12 then "AM" else "PM")
  | 'r' => some (two hour12 ++ ":" ++ two d.minute ++ ":" ++ two d.second
      ++ (if d.hour < 12 then " AM" else " PM"))
  | 'R' => some (two d.hour ++ ":" ++ two d.minute)
  | 's' => some (toString d.seconds)
  | 'S' => some (two d.second)
  | 't' => some "\t"
  | 'T' | 'X' => some clock
  | 'u' => some (toString (if d.weekday = 0 then 7 else d.weekday))
  | 'w' => some (toString d.weekday)
  | 'y' => some (two (d.year.fmod 100))
  | 'Y' => some (toString d.year)
  | 'z' => some "+0000"
  | 'Z' => some "UTC"
  | '%' => some "%"
  | _ => none

/-- A date by a format; fails at a conversion that has no meaning. -/
def Date.format (d : Date) : List Char → (acc : List Char) → Except String (List Char)
  | '%' :: c :: rest, acc =>
    match d.part c with
    | some s => d.format rest (s.toList.reverse ++ acc)
    | none => .error ("%" ++ String.singleton c)
  | '%' :: [], _ => .error "%"
  | c :: rest, acc => d.format rest (c :: acc)
  | [], acc => .ok acc.reverse

def osDate (args : Args) : Lib (List Value) := do
  let format := ((← textArg? args 1).getD "%c").toChars
  let t ← match args.get 2 with
    | .nil => ask .time
    | _ => (·.toInt) <$> intArg args 2
  let format := if format.head? = some '!' then format.drop 1 else format
  let d := Date.ofSeconds t
  if format.take 2 = ['*', 't'] then
    let table := d.fields.foldl (fun (t : Table) f => t.setText f.1 f.2) {}
    return [← newTable table]
  else
    match d.format format [] with
    | .ok s => return [.string (Bytes.ofChars s)]
    | .error c => badArgument 1 ("invalid conversion specifier '" ++ c ++ "'").toUTF8

/-- A field of a date table. -/
def dateField (t : Value) (name : String) (default : Option Int) : Lib Int := do
  match ← index t (.text name) with
  | .nil =>
    match default with
    | some n => pure n
    | none => raise ("field '" ++ name ++ "' missing in date table").toUTF8
  | v =>
    match v.toInteger? with
    | some n => pure n.toInt
    | none => raise ("field '" ++ name ++ "' is not an integer").toUTF8

/-- Sets the fields of a date table. -/
def setFields (id : Nat) : List (String × Value) → Lib Unit
  | [] => pure ()
  | f :: rest => do
    setIndex (.table id) (.text f.1) f.2
    setFields id rest

def osTime (args : Args) : Lib (List Value) := do
  match args.get 1 with
  | .nil => return [.int (Int64.ofInt (← ask .time))]
  | _ =>
    let id ← tableArg args 1
    let t : Value := .table id
    let year ← dateField t "year" none
    let month ← dateField t "month" none
    let day ← dateField t "day" none
    let hour ← dateField t "hour" (some 12)
    let minute ← dateField t "min" (some 0)
    let second ← dateField t "sec" (some 0)
    let seconds := (Date.mk year month day hour minute second).seconds
    setFields id (Date.ofSeconds seconds).fields
    return [.int (Int64.ofInt seconds)]

def osClock : Lib (List Value) := return [.ofFloat (← ask .clock)]

def osDifftime (args : Args) : Lib (List Value) := do
  let a ← intArg args 1
  let b ← intArg args 2
  return [.float (Float.ofInt (a.toInt - b.toInt))]

/-! ## Processes and the environment -/

def osExecute (args : Args) : Lib (List Value) := do
  match ← textArg? args 1 with
  | none => return [.bool true]
  | some command =>
    let code ← ask (.execute command)
    return [if code = 0 then .bool true else .nil, .text "exit", .int (Int64.ofNat code)]

def osGetenv (args : Args) : Lib (List Value) := do
  let name ← textArg args 1
  return [((← ask (.environment name)).map Value.string).getD .nil]

def osSetlocale (args : Args) : Lib (List Value) := do
  let name ← textArg? args 1
  let _ ← optionArg args 2 (some "all") ["all", "collate", "ctype", "monetary", "numeric", "time"]
  match name with
  | none => return [.text "C"]
  | some s =>
    if s.isEmpty || s == "C".toUTF8 || s == "POSIX".toUTF8 then return [.text "C"] else return [.nil]

def osTmpname : Lib (List Value) := do
  match ← ask .temporaryFile with
  | some n =>
    discard (ask (.close n))
    return [.text ("/tmp/lua_" ++ toString (100000 + n))]
  | none => raise "unable to generate a unique filename"

/-! ## Denied capabilities -/

/-- Refuses a capability. -/
def callDenied (capability : String) : Lib (List Value) := do
  log (.warn ("script attempted " ++ capability ++ "; denied by policy"))
  return [.nil, .text (HostError.capabilityDenied capability).message]

end OscHost.Script.Library.System
