import OscHost.Osc.Inbound
import OscHost.Worker
/-!
  A run of the program.

  Lines come in, one JSON object each: messages, discovered endpoints and clicks become events.
  Messages go out as log lines.  The program ends when it is interrupted, and fails only when it
  cannot be set up.
-/

namespace OscHost

/-- The program while it runs. -/
structure Session where
  worker : Worker
  /-- What is told beside the worker, the oldest first. -/
  notes : Array LogRecord := #[]

namespace Session

/-- Writes a log record. -/
def note (s : Session) (r : LogRecord) : Session := { s with notes := s.notes.push r }

/-- Posts an event. -/
def post (s : Session) (e : Event) : Session :=
  let (r, worker) := s.worker.post e
  r.log.foldl note { s with worker }

/-- Declares endpoints. -/
def declare (s : Session) (types : Osc.Registry) : Session :=
  { s with worker := (s.worker.onEngine (Engine.onVm fun vm =>
      ((), vm.onHost fun host =>
        { host with transport := { host.transport with
            registry := host.transport.registry.extend types.entries } }))).2 }

/-- Whether a character is blank. -/
def isBlank (c : Char) : Bool :=
  let n := c.toNat
  c == ' ' || (9 ≤ n && n ≤ 13) || n == 0x85 || n == 0xA0 || n == 0x1680
    || (0x2000 ≤ n && n ≤ 0x200A) || n == 0x2028 || n == 0x2029 || n == 0x202F || n == 0x205F
    || n == 0x3000

/-- A line without blanks at its ends. -/
def trimmed (line : String) : String :=
  let cs := line.toList.dropWhile isBlank
  String.ofList (cs.reverse.dropWhile isBlank).reverse

/-- Takes one line. -/
def takeLine (s : Session) (line : String) : Session :=
  let line := trimmed line
  if line = "" then s
  else
    match Osc.Inbound.parse line with
    | .ok (.message address values) => s.post (.message address values)
    | .ok (.endpoints types) =>
      let s := s.note (.info (toString types.size ++ " endpoint definition(s) received"))
      (s.declare types).post .endpointsDiscovered
    | .ok (.click path) => s.post (.menuClicked path)
    | .error e => s.note (.warn ("ignoring input line: " ++ e.message))

/-- Starts the program for a configuration whose directories have been made. -/
def start (c : Config) (around : Files.Surroundings) (t : Files.Tree) (shell : Shell := .basic) :
    Except HostError Session := do
  let engine ← Engine.new c around t {} true shell
  pure { worker := Worker.start { engine } }

/-- A message on its way out, as a log record. -/
def outbound (m : Osc.Message) : LogRecord := ⟨.transport, .info, "-> " ++ m.text⟩

/-- All log records so far, those of each channel in order. -/
def log (s : Session) : List LogRecord :=
  let host := s.worker.engine.runner.vm.host
  host.log.toList ++ s.notes.toList ++ host.transport.sent.toList.map outbound

/-- Ends the program as an interrupt does. -/
def interrupt (s : Session) : Session :=
  let s := s.note (.info "interrupt received; shutting down")
  { s with worker := s.worker.shutdown.2.round }

/-- What scripts wrote to a standard file. -/
def written (s : Session) (file : Nat) : ByteArray :=
  let host := s.worker.engine.runner.vm.host
  match host.files[file]? with
  | some f => f.content host.tree ++ f.pending
  | none => ByteArray.empty

end Session

/-- Spaces in front of the lines of a record after its first. -/
def logIndent : String := "\n    "

/-- The text of a record on its lines. -/
def LogRecord.lines (r : LogRecord) : String :=
  "[" ++ r.level.name ++ "] " ++ logIndent.intercalate (r.text.splitOn "\n")

/-- How the program ends before it has begun: its exit code, its output, and the errors it writes. -/
structure Ending where
  code : Nat
  output : String := ""
  errors : String := ""
  log : List LogRecord := []

/-- Sets the program up for a command line. -/
def Session.ofArguments (args : List String) (around : Files.Surroundings) (t : Files.Tree)
    (shell : Shell := .basic) : Except Ending Session :=
  match Cli.parse args with
  | .error stop =>
    if stop.isRequest then .error { code := 0, output := stop.text }
    else .error { code := 2, errors := stop.text }
  | .ok options =>
    match Config.ofOptions options around.current t with
    | .error e => .error { code := 1, log := [.error ("[startup] " ++ e.message)] }
    | .ok (c, t) =>
      match Session.start c around t shell with
      | .error e => .error { code := 1, log := [.error e.message] }
      | .ok s => .ok s

end OscHost
