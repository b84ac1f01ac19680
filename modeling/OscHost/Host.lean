import OscHost.Config
import OscHost.Files.Jail
import OscHost.Files.OpenFile
import OscHost.Json.Parser
import OscHost.Json.Printer
import OscHost.Osc.Transport
import OscHost.Script.Effect
import OscHost.Shell
/-!
  The host that scripts run in.

  `Host.perform` answers every effect that a script can ask for, and nothing else touches the files,
  the transport or the log on a script's behalf.  Files are reached in three ways only: scripts are
  read through the script jail, trees through the roots for JSON, and everything else through the
  io jail, unless that one is lifted.
-/

namespace OscHost

open Files Script

/-- The state of the host. -/
structure Host where
  tree : Tree
  around : Surroundings
  policy : Policy
  /-- What scripts may be loaded from. -/
  scriptJail : Jail
  /-- What files may be used in. -/
  ioJail : Jail
  /-- What JSON files may be used in. -/
  jsonRoots : JailSet
  transport : Osc.Transport := {}
  /-- Whether a script has asked for a new menu. -/
  menuRequested : Bool := false
  /-- Every file that was opened, by its number. -/
  files : Array OpenFile := #[]
  log : Array LogRecord := #[]
  /-- Nanoseconds since the host began, when the clock was read last. -/
  clock : Nat := 0
  /-- What carries out command lines. -/
  shell : Shell := .basic

namespace Host

/-- The number of the standard input. -/
def input : Nat := 0

/-- The number of the standard output. -/
def output : Nat := 1

/-- The number of the standard error output. -/
def errorOutput : Nat := 2

/-- The standard files. -/
def standardFiles : Array OpenFile :=
  let file (access : Access) : OpenFile :=
    { stream := .loose ByteArray.empty, access, isStandard := true }
  #[file ⟨true, false, false⟩, file ⟨false, true, true⟩, file ⟨false, true, true⟩]

/-- A host for a configuration, over a tree in which the roots have been made as far as they are
    going to be. -/
def new (c : Config) (around : Surroundings) (tree : Tree) (shell : Shell := .basic) : Host :=
  let ioJail := Jail.make tree around c.ioRoot
  { tree, around, policy := c.policy, scriptJail := Jail.make tree around c.scriptRoot, ioJail,
    jsonRoots := ⟨[ioJail]⟩, files := standardFiles, shell }

/-- Writes a log record. -/
def record (s : Host) (r : LogRecord) : Host := { s with log := s.log.push r }

/-- Writes some log records, the oldest first. -/
def records (s : Host) (rs : List LogRecord) : Host := rs.foldl record s

/-- Nanoseconds between two readings of a clock that nothing else moves. -/
def clockStep : Nat := 1000

/-- Reads the clock; every reading is later than the one before. -/
def readClock (s : Host) : Nat × Host :=
  let now := s.clock + clockStep
  (now, { s with clock := now })

/-! ## Paths -/

/-- The text of a path up to a zero byte, as the system reads it. -/
def cut (path : String) : String := String.ofList (path.toList.takeWhile (· != '\x00'))

/-- A path as the system finds it: relative ones start at the current directory. -/
def absolute (s : Host) (path : String) : String :=
  if path = "" then "" else Path.join s.around.current path

/-- What the system says about a path with a zero byte, where it is told the whole of it. -/
def zeroByte : HostError := .files "file name contained an unexpected NUL byte"

/-- A failure of the file system as an error of the host. -/
def fileFailure {α : Type} (r : Except FileError α) : Except HostError α :=
  match r with
  | .ok a => .ok a
  | .error e => .error (.files e.numbered)

/-- Refuses paths with a zero byte. -/
def whole (path : String) : Except HostError String :=
  if path.contains '\x00' then .error zeroByte else .ok path

/-- A refusal of a jail as an error of the host. -/
def refusal {α : Type} (r : Except Refusal α) : Except HostError α :=
  match r with
  | .ok a => .ok a
  | .error e => .error (.policyViolation e.message)

/-- The text of a file in UTF-8. -/
def readText (s : Host) (path : String) : Except HostError String := do
  let content ← fileFailure (s.tree.read (s.absolute (← whole path)))
  match Text.Utf8.decode content with
  | .ok text => pure text
  | .error _ => throw (.files "stream did not contain valid UTF-8")

/-- The path that a request through the io jail stands for. -/
def ioPath (s : Host) (path : String) : Except HostError String :=
  if s.policy.unrestrictedFiles then .ok path
  else do
    let l ← refusal (s.ioJail.resolve s.tree s.around path)
    pure (Location.text l)

/-- Passes a path through the guard of the io functions.  Refusals by the jail are logged. -/
def guardPath (s : Host) : PathArg → Guarded Unit × Host
  | .other type =>
    (.refused (HostError.policyViolation ("path must be a string, got " ++ type)).message, s)
  | .text b =>
    match Text.Utf8.decode b with
    | .error e => (.unreadable e, s)
    | .ok path =>
      match s.ioPath path with
      | .ok path => (.passed (cut path) (), s)
      | .error e => (.refused e.message, s.record (.warn ("io access refused: " ++ e.message)))

/-- Goes on with a path that passed the guard. -/
def guarded {α : Type} (s : Host) (path : PathArg) (f : String → Host → α × Host) :
    Guarded α × Host :=
  match s.guardPath path with
  | (.refused text, s) => (.refused text, s)
  | (.unreadable e, s) => (.unreadable e, s)
  | (.passed path _, s) =>
    match f (s.absolute path) s with
    | (a, s) => (.passed path a, s)

/-! ## Scripts and trees -/

/-- Blanks out a first line that begins with a hash sign. -/
def withoutHashLine (text : String) : String :=
  if text.startsWith "#" then String.ofList (text.toList.dropWhile (· != '\n')) else text

/-- The source of a script below the script root, with its path from there. -/
def loadScript (s : Host) : Option String → Except HostError Source
  | none => .error (.policyViolation "loading chunks from stdin is not permitted")
  | some path => do
    let l ← refusal (s.scriptJail.resolve s.tree s.around path)
    let text ← s.readText (Location.text l)
    let name := "/".intercalate (l.drop s.scriptJail.root.length)
    pure ⟨name, withoutHashLine text⟩

/-- Whether a path below the script root is a file. -/
def isModule (s : Host) (path : String) : Bool :=
  match s.scriptJail.resolve s.tree s.around path with
  | .ok l => ! path.contains '\x00' && s.tree.isFile (Location.text l)
  | .error _ => false

/-- The tree in a JSON file. -/
def readJson (s : Host) (path : String) : Except HostError Json := do
  let l ← refusal (s.jsonRoots.resolve s.tree s.around path)
  let text ← s.readText (Location.text l)
  match Json.parse text with
  | .ok j => pure j.canonical
  | .error e => throw (.marshal (path ++ ": " ++ e.message))

/-- Writes a tree to a JSON file. -/
def writeJson (s : Host) (path : String) (tree : Logged Json) : Except HostError Unit × Host :=
  match refusal (s.jsonRoots.resolve s.tree s.around path) with
  | .error e => (.error e, s)
  | .ok l =>
    let s := s.records tree.log
    match whole (Location.text l) with
    | .error e => (.error e, s)
    | .ok path =>
      match fileFailure (s.tree.write path tree.value.indented.toUTF8) with
      | .ok tree => (.ok (), { s with tree })
      | .error e => (.error e, s)

/-! ## Files -/

/-- Keeps a newly opened file. -/
def keep (s : Host) (f : OpenFile) : Nat × Host :=
  (s.files.size, { s with files := s.files.push f })

/-- An open file by its number. -/
def file? (s : Host) (n : Nat) : Option OpenFile :=
  match s.files[n]? with
  | some f => if f.isOpen then some f else none
  | none => none

/-- Puts a file back after something was done with it. -/
def putFile (s : Host) (n : Nat) (t : Tree) (f : OpenFile) : Host :=
  { s with tree := t, files := s.files.setIfInBounds n f }

/-- Opens a file. -/
def openFile (s : Host) (path : String) (mode : Bytes) : Opening × Host :=
  match Mode.parse? (mode.toChars.takeWhile (· != '\x00')) with
  | none => (.badMode, s)
  | some mode =>
    match Files.openFile s.tree path mode with
    | .error e => (.failed e, s)
    | .ok (tree, f) =>
      let (n, s) := { s with tree }.keep f
      (.opened n, s)

/-- Removes a file or an empty directory.  Whoever has the file open keeps it. -/
def removeFile (s : Host) (path : String) : Except FileError Unit × Host :=
  match s.tree.remove path, s.tree.locate path with
  | .ok tree, .ok (.entry l) =>
    (.ok (), { s with tree, files := s.files.map (·.detach s.tree l) })
  | .error e, _ | _, .error e => (.error e, s)
  | .ok _, .ok (.free _) => (.error .notFound, s)

/-- Gives a file another path. -/
def renameFile (s : Host) (source target : String) : Except FileError Unit × Host :=
  match s.tree.rename source target, s.tree.locate source, s.tree.locate target with
  | .ok tree, .ok (.entry l), .ok m =>
    let m := match m with
      | .entry m | .free m => m
    let files := if l = m then s.files
      else s.files.map fun f => (f.detach s.tree m).renamed l m
    (.ok (), { s with tree, files })
  | .error e, _, _ | _, .error e, _ | _, _, .error e => (.error e, s)
  | .ok _, .ok (.free _), _ => (.error .notFound, s)

/-- The sorted names in a directory. -/
def listDirectory (s : Host) (path : String) : Except HostError (List String) := do
  fileFailure (s.tree.list (s.absolute (← whole (← s.ioPath path))))

/-! ## Processes -/

/-- Runs a command line. -/
def runCommand (s : Host) (command input : Bytes) : Shell.Finished × Host :=
  let done := s.shell.run s.tree s.around.current input (cut (Text.Utf8.lossy command))
  (done, { s with tree := done.tree })

/-- Adds to what the program itself has written. -/
def addOutput (s : Host) (data : ByteArray) : Host :=
  { s with files := s.files.modify output fun f =>
      { f with stream := .loose (f.content s.tree ++ data) } }

/-- Starts a process that a script reads from or writes to. -/
def openProcess (s : Host) (command mode : Bytes) : Nat × Host :=
  if mode[0]? = some 'w'.toUInt8 then
    s.keep { stream := .sink command ByteArray.empty, access := ⟨false, true, true⟩ }
  else
    let (done, s) := s.runCommand command ByteArray.empty
    s.keep { stream := .source done.output done.status, access := ⟨true, false, false⟩ }

/-- Closes a file. -/
def closeFile (s : Host) (n : Nat) : Closing × Host :=
  match s.file? n with
  | none => (.closed, s)
  | some f =>
    if f.isStandard then (.kept, s)
    else
      let (t, f) := f.close s.tree
      let s := s.putFile n t f
      match f.stream with
      | .source _ code => (.finished code, s)
      | .sink command content =>
        let (done, s) := s.runCommand command content
        (.finished done.status, s.addOutput done.output)
      | _ => (.closed, s)

/-! ## The outside -/

/-- Hands over the values of one send. -/
def send (s : Host) (address : String) (values : List BoundaryValue) : Except String Unit × Host :=
  let r := s.transport.dispatch address values
  let s := s.records r.log
  match r.value with
  | .ok transport => (.ok (), { s with transport })
  | .error e =>
    (.error e.message,
      s.record (.debug ("[script] osc.send(" ++ address ++ ") failed: " ++ e.message)))

/-- A variable of the environment. -/
def environment (s : Host) (name : Bytes) : Option Bytes :=
  if name == "HOME".toUTF8 then s.around.home.map (·.toUTF8) else none

/-- Seconds from the epoch to the moment at which the host began. -/
def beginning : Int := 1700000000

/-- Answers what a script asks. -/
def perform : (e : Effect) → Host → e.Reply × Host
  | .log r, s => ((), s.record r)
  | .send address values, s => s.send address values
  | .requestMenu, s => ((), { s with menuRequested := true })
  | .readJson path, s => (s.readJson path, s)
  | .writeJson path tree, s => s.writeJson path tree
  | .loadScript path, s => (s.loadScript path, s)
  | .isModule path, s => (s.isModule path, s)
  | .openFile path mode, s => s.guarded path fun path s => s.openFile path mode
  | .removeFile path, s => s.guarded path fun path s => s.removeFile path
  | .renameFile source target, s =>
    match s.guarded source fun path s => (path, s) with
    | (.refused text, s) => (.refused text, s)
    | (.unreadable e, s) => (.unreadable e, s)
    | (.passed _ source, s) => s.guarded target fun target s => s.renameFile source target
  | .listDirectory path, s => (s.listDirectory path, s)
  | .probe path, s =>
    ((s.tree.existing (s.absolute (cut (Text.Utf8.lossy path)))).toBool, s)
  | .temporaryFile, s =>
    let (n, s) := s.keep { stream := .loose ByteArray.empty, access := ⟨true, true, false⟩ }
    (some n, s)
  | .openProcess command mode, s =>
    let (n, s) := s.openProcess command mode
    (some n, s)
  | .execute command, s =>
    let (done, s) := s.runCommand command ByteArray.empty
    (done.status, s.addOutput done.output)
  | .isOpen n, s => ((s.file? n).isSome, s)
  | .read n format, s =>
    match s.file? n with
    | none => (.error .badDescriptor, s)
    | some f =>
      match f.read s.tree format with
      | .ok (data, t, f) => (.ok data, s.putFile n t f)
      | .error e => (.error e, s)
  | .write n data, s =>
    match s.file? n with
    | none => (.error .badDescriptor, s)
    | some f =>
      match f.write s.tree data with
      | .ok (t, f) => (.ok (), s.putFile n t f)
      | .error e => (.error e, s)
  | .seek n whence offset, s =>
    match s.file? n with
    | none => (.error .badDescriptor, s)
    | some f =>
      match f.seek s.tree whence offset with
      | .ok (place, t, f) => (.ok place, s.putFile n t f)
      | .error e => (.error e, s)
  | .flush n, s =>
    match s.file? n with
    | none => (.error .badDescriptor, s)
    | some f =>
      let (t, f) := f.flush s.tree
      (.ok (), s.putFile n t f)
  | .close n, s => s.closeFile n
  | .environment name, s => (s.environment name, s)
  | .clock, s =>
    let (now, s) := s.readClock
    (Float.ofNat now / 1000000000.0, s)
  | .time, s =>
    let (now, s) := s.readClock
    (beginning + now / 1000000000, s)

end Host

end OscHost
