/-!
  Log records.

  A record has a level, the channel it belongs to and one text.  Values that report as they are
  computed carry their records beside the result, oldest first.
-/

namespace OscHost

/-- How grave a record is, gravest first. -/
inductive Level
  | error
  | warn
  | info
  | debug
  | trace
  deriving DecidableEq, Repr

/-- Who speaks: the host itself, a script, or the transport. -/
inductive Channel
  | host
  | script
  | transport
  deriving DecidableEq, Repr

/-- One record. -/
structure LogRecord where
  channel : Channel
  level : Level
  text : String
  deriving DecidableEq, Repr

/-- The word for a level. -/
def Level.name : Level → String
  | .error => "ERROR"
  | .warn => "WARN"
  | .info => "INFO"
  | .debug => "DEBUG"
  | .trace => "TRACE"

/-- Whether records of a level are shown by default. -/
def Level.isShown : Level → Bool
  | .error | .warn | .info => true
  | .debug | .trace => false

namespace LogRecord

/-- A record of the host. -/
def host (level : Level) (text : String) : LogRecord := ⟨.host, level, text⟩

/-- Something failed. -/
def error (text : String) : LogRecord := host .error text

/-- Something was refused or given up. -/
def warn (text : String) : LogRecord := host .warn text

/-- Something worth knowing happened. -/
def info (text : String) : LogRecord := host .info text

/-- Something of use to a developer happened. -/
def debug (text : String) : LogRecord := host .debug text

/-- A step was taken. -/
def trace (text : String) : LogRecord := host .trace text

end LogRecord

/-- A result with the records made on the way to it. -/
structure Logged (α : Type) where
  value : α
  log : List LogRecord

end OscHost
