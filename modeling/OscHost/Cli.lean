import OscHost.Policy
/-!
  The command line.

  Arguments are read from left to right.  A setting takes its value after `=` or from the next
  argument; a value is checked when the next setting, switch or request begins, or at the end, so
  an unknown argument is noticed before a bad value in front of it.  Nothing may be given twice.
-/

namespace OscHost.Cli

/-- The settings that take a value. -/
inductive Setting
  | scriptRoot
  | tickInterval
  | refreshInterval
  deriving DecidableEq, Repr

/-- The switches: one for each capability. -/
inductive Switch
  | nativeLibraries
  | foreignModules
  | unrestrictedFiles
  | processes
  | debug
  deriving DecidableEq, Repr

namespace Setting

/-- All settings. -/
def all : List Setting := [.scriptRoot, .tickInterval, .refreshInterval]

/-- The name of a setting after its two dashes. -/
def name : Setting → String
  | .scriptRoot => "script-root"
  | .tickInterval => "tick-interval-ms"
  | .refreshInterval => "refresh-interval-secs"

/-- A setting with the word for its value. -/
def display : Setting → String
  | .scriptRoot => "--script-root <SCRIPT_ROOT>"
  | .tickInterval => "--tick-interval-ms <TICK_INTERVAL_MS>"
  | .refreshInterval => "--refresh-interval-secs <REFRESH_INTERVAL_SECS>"

end Setting

namespace Switch

/-- All switches. -/
def all : List Switch :=
  [.nativeLibraries, .foreignModules, .unrestrictedFiles, .processes, .debug]

/-- The name of a switch after its two dashes. -/
def name : Switch → String
  | .nativeLibraries => "allow-native-library-loading"
  | .foreignModules => "allow-foreign-native-modules"
  | .unrestrictedFiles => "allow-unrestricted-io"
  | .processes => "allow-process-execution"
  | .debug => "allow-debug-introspection"

/-- A policy with the capability of a switch. -/
def set (p : Policy) : Switch → Policy
  | .nativeLibraries => { p with nativeLibraries := true }
  | .foreignModules => { p with foreignModules := true }
  | .unrestrictedFiles => { p with unrestrictedFiles := true }
  | .processes => { p with processes := true }
  | .debug => { p with debug := true }

end Switch

/-- What a command line asks for. -/
structure Options where
  scriptRoot : String := "lua"
  tickIntervalMs : Nat := 100
  refreshIntervalSecs : Nat := 5
  policy : Policy := {}
  deriving Repr

/-- Why a text is no count. -/
inductive CountError
  | empty
  | digit
  | tooLarge
  deriving DecidableEq, Repr

/-- The wording of a bad count. -/
def CountError.message : CountError → String
  | .empty => "cannot parse integer from empty string"
  | .digit => "invalid digit found in string"
  | .tooLarge => "number too large to fit in target type"

/-- Reasons not to run with some options. -/
inductive Stop
  | help
  | version
  | unknownArgument (arg : String)
  | badValue (value : String) (setting : Setting) (error : CountError)
  | missingValue (setting : Setting)
  | repeated (display : String)
  | unexpectedValue (value : String) (display : String)
  deriving Repr

namespace Stop

/-- The word for the kind of a reason. -/
def kind : Stop → String
  | .help => "DisplayHelp"
  | .version => "DisplayVersion"
  | .unknownArgument _ => "UnknownArgument"
  | .badValue .. => "ValueValidation"
  | .missingValue _ => "InvalidValue"
  | .repeated _ => "ArgumentConflict"
  | .unexpectedValue .. => "TooManyValues"

/-- The first line of the answer. -/
def headline : Stop → String
  | .help => "OSC Wardrobe - sandboxed Lua automation host for OSC endpoints"
  | .version => "osc-wardrobe 0.1.0"
  | .unknownArgument arg => "error: unexpected argument '" ++ arg ++ "' found"
  | .badValue value setting error =>
    "error: invalid value '" ++ value ++ "' for '" ++ setting.display ++ "': " ++ error.message
  | .missingValue setting =>
    "error: a value is required for '" ++ setting.display ++ "' but none was supplied"
  | .repeated display => "error: the argument '" ++ display ++ "' cannot be used multiple times"
  | .unexpectedValue value display =>
    "error: unexpected value '" ++ value ++ "' for '" ++ display ++ "' found; no more were expected"

/-- Whether the reason is a request that was granted. -/
def isRequest : Stop → Bool
  | .help | .version => true
  | _ => false

end Stop

/-- Reads decimal digits onto `n`; counts stay below `2^64`. -/
def countFrom (n : Nat) : List Char → Except CountError Nat
  | [] => .ok n
  | c :: rest =>
    if ¬ c.isDigit then .error .digit
    else
      let n := n * 10 + (c.toNat - '0'.toNat)
      if 0x10000000000000000 ≤ n then .error .tooLarge else countFrom n rest

/-- Reads a count: decimal digits after an optional plus. -/
def count (s : String) : Except CountError Nat :=
  match s.toList with
  | [] => .error .empty
  | ['+'] | ['-'] => .error .digit
  | '+' :: digits => countFrom 0 digits
  | digits => countFrom 0 digits

/-- What has been read: the options so far, the names already given, and a setting whose value is
    still to be checked or read. -/
structure Reading where
  options : Options := {}
  given : List String := []
  pending : Option (Setting × Option String) := none

namespace Reading

/-- Takes a value for a setting. -/
def assign (r : Reading) (setting : Setting) (value : String) : Except Stop Reading :=
  if r.given.contains setting.name then .error (.repeated setting.display)
  else
    let given := setting.name :: r.given
    match setting with
    | .scriptRoot =>
      if value = "" then .error (.missingValue setting)
      else .ok { r with given, options := { r.options with scriptRoot := value } }
    | .tickInterval =>
      match count value with
      | .error e => .error (.badValue value setting e)
      | .ok n => .ok { r with given, options := { r.options with tickIntervalMs := n } }
    | .refreshInterval =>
      match count value with
      | .error e => .error (.badValue value setting e)
      | .ok n => .ok { r with given, options := { r.options with refreshIntervalSecs := n } }

/-- Checks the setting that waits, if any. -/
def settle (r : Reading) : Except Stop Reading :=
  match r.pending with
  | none => .ok r
  | some (setting, none) => .error (.missingValue setting)
  | some (setting, some value) => assign { r with pending := none } setting value

/-- Turns a switch on. -/
def turnOn (r : Reading) (s : Switch) : Except Stop Reading := do
  let r ← r.settle
  if r.given.contains s.name then throw (.repeated ("--" ++ s.name))
  pure { r with
    given := s.name :: r.given
    options := { r.options with policy := s.set r.options.policy } }

/-- A granted request, unless a waiting value is bad. -/
def grant (r : Reading) (request : Stop) : Except Stop Reading := do
  let _ ← r.settle
  throw request

/-- Reads an argument of two dashes and a name, perhaps with a value after `=`. -/
def long (r : Reading) (name : String) (value : Option String) : Except Stop Reading :=
  match Setting.all.find? fun s => s.name == name with
  | some setting => do
    let r ← r.settle
    match value with
    | some value => r.assign setting value
    | none => pure { r with pending := some (setting, none) }
  | none =>
    match Switch.all.find? fun s => s.name == name with
    | some s =>
      match value with
      | some value => .error (.unexpectedValue value ("--" ++ s.name))
      | none => r.turnOn s
    | none =>
      if name = "help" ∨ name = "version" then
        match value with
        | some value => .error (.unexpectedValue value ("--" ++ name))
        | none => r.grant (if name = "help" then .help else .version)
      else .error (.unknownArgument ("--" ++ name))

/-- Reads an argument of one dash and letters; the first letter decides. -/
def short (r : Reading) (c : Char) : Except Stop Reading :=
  if c = 'h' then r.grant .help
  else if c = 'V' then r.grant .version
  else .error (.unknownArgument ("-" ++ String.singleton c))

/-- Reads an argument that is neither: the value of a waiting setting, or unknown. -/
def plain (r : Reading) (arg : String) : Except Stop Reading :=
  match r.pending with
  | some (setting, none) => .ok { r with pending := some (setting, some arg) }
  | _ => .error (.unknownArgument arg)

/-- Reads one argument before the closing `--`. -/
def argument (r : Reading) (arg : String) : Except Stop Reading :=
  match arg.toList with
  | '-' :: '-' :: rest =>
    let name := String.ofList (rest.takeWhile (· != '='))
    match rest.dropWhile (· != '=') with
    | [] => r.long name none
    | _ :: value => r.long name (some (String.ofList value))
  | '-' :: c :: _ => r.short c
  | _ => r.plain arg

/-- Reads all arguments. -/
def arguments (r : Reading) : List String → Except Stop Reading
  | [] => r.settle
  | "--" :: rest =>
    match rest with
    | [] => r.settle
    | arg :: _ => .error (.unknownArgument arg)
  | arg :: rest => do (← r.argument arg).arguments rest

end Reading

/-- The options of a command line. -/
def parse (args : List String) : Except Stop Options := do
  let r ← Reading.arguments {} args
  pure r.options

/-- The answer to a request for help. -/
def helpText : String :=
  Stop.help.headline ++ "\n\nUsage: osc-wardrobe [OPTIONS]\n\nOptions:
      --script-root <SCRIPT_ROOT>
          Directory holding main.lua and config/ [default: lua]
      --tick-interval-ms <TICK_INTERVAL_MS>
          Scheduler tick interval in milliseconds [default: 100]
      --refresh-interval-secs <REFRESH_INTERVAL_SECS>
          Interval between periodic menu refreshes, in seconds [default: 5]
      --allow-native-library-loading
          Allow package.loadlib
      --allow-foreign-native-modules
          Allow require() to load C modules
      --allow-unrestricted-io
          Disable the io_dir jail for io.* and os.remove/rename
      --allow-process-execution
          Allow io.popen and os.execute
      --allow-debug-introspection
          Load the debug library
  -h, --help
          Print help
  -V, --version
          Print version"

/-- The whole answer when the program does not run. -/
def Stop.text : Stop → String
  | .help => helpText
  | .version => Stop.version.headline
  | stop =>
    stop.headline ++ "\n\nUsage: osc-wardrobe [OPTIONS]\n\nFor more information, try '--help'."

end OscHost.Cli
