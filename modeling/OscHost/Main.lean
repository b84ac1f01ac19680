import OscHost.Session
/-!
  The program on a real system.

  The files below the script root are read into a tree before scripts start, and what scripts change
  there is written back after every round.  Lines are read beside the rounds; log lines go to the
  standard error output.
-/

namespace OscHost.Program

open Files

/-- The entry for one path: a link when its real path is another one. -/
def readEntry (path name : String) : IO (Option Files.Entry) := do
  let real := (← IO.FS.realPath path).toString
  let parent := (← IO.FS.realPath (String.ofList (path.toList.take (path.length - name.length)))).toString
  if real != Path.join parent name then return some (.link real)
  try
    return some (.file (← IO.FS.readBinFile path))
  catch _ => return none

/-- Reads everything below a directory into a tree; `depth` bounds how far down. -/
def readBelow (path : String) : (depth : Nat) → Tree → IO Tree
  | 0, t => pure t
  | depth + 1, t => do
    let mut t := t
    for e in ← (← IO.FS.realPath path).readDir do
      let below := Path.join path e.fileName
      match ← readEntry below e.fileName with
      | some entry => t := t.put (Path.normalize below) entry
      | none => t ← readBelow below depth (t.put (Path.normalize below) .directory)
    return t

/-- Directories further down than this are not read. -/
def maxDepth : Nat := 64

/-- Writes back what has changed between two trees. -/
def writeBack (old new : Tree) : IO Unit := do
  for (l, e) in new.entries.reverse do
    match e, old.get? l with
    | .file content, some (.file before) =>
      if content != before then IO.FS.writeBinFile (Location.text l) content
    | .file content, _ => IO.FS.writeBinFile (Location.text l) content
    | .directory, none => IO.FS.createDirAll (Location.text l)
    | _, _ => pure ()
  for (l, e) in old.entries do
    match e, new.get? l with
    | .file _, none => IO.FS.removeFile (Location.text l)
    | .directory, none => IO.FS.removeDir (Location.text l)
    | _, _ => pure ()

/-- Shows the log records that have a shown level. -/
def display (records : List LogRecord) : IO Unit := do
  let err ← IO.getStderr
  for r in records do
    if r.level.isShown then err.putStrLn r.lines

/-- Collects input lines until the input ends. -/
partial def collect (lines : IO.Ref (Array String)) (input : IO.FS.Stream) : IO Unit := do
  let line ← input.getLine
  if ! line.isEmpty then
    lines.modify (·.push line)
    collect lines input

/-- The state of the session without what has been shown, and what is to be shown. -/
def unshown (s : Session) : List LogRecord × Session :=
  let clear (host : Host) : Host :=
    { host with log := #[], transport := { host.transport with sent := #[] } }
  let (_, worker) := s.worker.onEngine (Engine.onVm fun vm => ((), vm.onHost clear))
  (s.log, { worker, notes := #[] })

/-- Goes in rounds until the worker ends. -/
partial def rounds (start : Nat) (lines : IO.Ref (Array String)) (s : Session) : IO Unit := do
  let before := s.worker.engine.runner.vm.host.tree
  let now ← IO.monoNanosNow
  let setClock (host : Host) : Host := { host with clock := max host.clock (now - start) }
  let (_, worker) := s.worker.onEngine (Engine.onVm fun vm => ((), vm.onHost setClock))
  let taken ← lines.modifyGet fun ls => (ls, #[])
  let s := taken.foldl Session.takeLine { s with worker }
  let s := { s with worker := s.worker.round }
  writeBack before s.worker.engine.runner.vm.host.tree
  let (records, s) := unshown s
  display records
  if s.worker.isRunning then
    IO.sleep (UInt32.ofNat s.worker.engine.config.tickMs)
    rounds start lines s

/-- Runs the program. -/
def run (args : List String) : IO UInt32 := do
  let current := (← IO.currentDir).toString
  let around : Surroundings := ⟨current, ← IO.getEnv "HOME"⟩
  let root := match Cli.parse args with
    | .ok o => some (Path.join current o.scriptRoot)
    | .error _ => none
  let mut tree : Tree := {}
  if let some root := root then
    IO.FS.createDirAll (Path.join root "io_dir")
    tree := (tree.makeDirectories root).toOption.getD tree
    tree ← readBelow root maxDepth tree
  match Session.ofArguments args around tree with
  | .error e =>
    if e.output != "" then IO.println e.output
    if e.errors != "" then IO.eprintln e.errors
    display e.log
    return e.code.toUInt32
  | .ok s =>
    let lines ← IO.mkRef #[]
    let input ← IO.getStdin
    let _ ← IO.asTask (collect lines input)
    let (records, s) := unshown s
    display records
    rounds (← IO.monoNanosNow) lines s
    return 0

end OscHost.Program

/-- Runs the program with the arguments of its command line. -/
def main (args : List String) : IO UInt32 := OscHost.Program.run args
