import OscHost.Sandbox
import OscHost.Script.Machine
/-!
  The script machine together with the host it runs in.

  Everything that runs here leaves the machine idle again: a call either ends or fails, and a
  coroutine that is resumed ends, fails or is suspended.
-/

namespace OscHost

open Script

/-- A script machine and its host. -/
structure Vm where
  heap : Heap
  machine : Machine := {}
  host : Host

/-- How a resumed coroutine hands back control. -/
inductive Resumption
  | finished (values : List Value)
  | yielded (values : List Value)
  | failed (message : String)

namespace Vm

/-- A machine on which nothing has run yet. -/
def new (host : Host) : Vm :=
  { heap := Sandbox.heap host.policy (Files.Location.text host.scriptJail.root), host }

/-- Changes the host. -/
def onHost (vm : Vm) (f : Host → Host) : Vm := { vm with host := f vm.host }

/-- Writes a log record. -/
def record (vm : Vm) (r : LogRecord) : Vm := vm.onHost (·.record r)

/-- Writes some log records. -/
def records (vm : Vm) (rs : List LogRecord) : Vm := vm.onHost (·.records rs)

/-- Steps after which a run is given up; more than any run takes. -/
def fuel : Nat := 0x4000000000000000

/-- Runs the machine from a focus on. -/
def runFrom (host : Host) (m : Machine) (f : Focus) : Outcome × Vm :=
  match Machine.run Library.invoke Host.perform fuel m f host with
  | (o, machine, heap, host) => (o, { heap, machine, host })

/-- The result of a run that cannot be suspended. -/
def settled : Outcome → Except Value (List Value)
  | .finished values | .yielded values => .ok values
  | .failed v => .error v
  | .outOfFuel => .error (.text "not enough memory")

/-- A run that cannot be suspended has ended. -/
def settle (r : Outcome × Vm) : Except Value (List Value) × Vm := (settled r.1, r.2)

/-- Runs a library computation on the host's own thread. -/
def compute (vm : Vm) (x : Lib (List Value)) : Except Value (List Value) × Vm :=
  match vm with
  | { heap, machine, host } =>
    settle (runFrom host machine (.library (x.action Machine.hostSite heap) Machine.hostContext))

/-- Calls a function on the host's own thread. -/
def call (vm : Vm) (f : Value) (args : List Value) : Except Value (List Value) × Vm :=
  match vm with
  | { heap, machine, host } =>
    settle (runFrom host machine (machine.enter Library.invoke f args none heap))

/-! ## Errors -/

/-- What follows the message of an error that came out of the machine. -/
def trace : String := "\nstack traceback:\n\t[C]: in ?"

/-- The message of an error of a host function. -/
def hostMessage (vm : Vm) : Value → Option String
  | .object id =>
    match vm.heap.objects[id]? with
    | some (.failure message) => some message
    | _ => none
  | _ => none

/-- Writes a value out, as scripts see it. -/
def textOf (v : Value) : Lib (List Value) := do return [.string (← Lib.text v)]

/-- The text of an error value, as far as its first zero byte.  Errors of host functions have a text
    of their own. -/
def errorText (vm : Vm) (v : Value) : String × Vm :=
  match vm.hostMessage v with
  | some message => (message ++ trace, vm)
  | none =>
    let shown (s : Bytes) := "runtime error: " ++ Host.cut (Text.Utf8.lossy s) ++ trace
    match vm.compute (textOf v) with
    | (.ok [.string s], vm) => (shown s, vm)
    | (_, vm) => (shown "error in error handling".toUTF8, vm)

/-- A result whose error is an error of the host. -/
def lift {α : Type} (r : Except Value α × Vm) : Except HostError α × Vm :=
  match r with
  | (.ok a, vm) => (.ok a, vm)
  | (.error v, vm) =>
    let (message, vm) := vm.errorText v
    (.error (.script message), vm)

/-! ## Code and globals -/

/-- Makes a function of a source text. -/
def compile (vm : Vm) (chunk source : String) : Except HostError Value × Vm :=
  match compileText ("=" ++ chunk).toUTF8 source.toUTF8 with
  | .error message => (.error (.script ("syntax error: " ++ Text.Utf8.lossy message)), vm)
  | .ok p =>
    match vm with
    | { heap, machine, host } =>
      let globals := heap.globalsValue
      let (f, heap) := heap.newChunk p globals
      (.ok f, { heap, machine, host })

/-- Makes a function of a script below the script root. -/
def loadScript (vm : Vm) (path : String) : Except HostError Value × Vm :=
  match vm.host.loadScript (some path) with
  | .error e => (.error e, vm)
  | .ok source =>
    match compileText ("@" ++ source.name).toUTF8 source.text.toUTF8 with
    | .error message => (.error (.script ("syntax error: " ++ Text.Utf8.lossy message)), vm)
    | .ok p =>
      match vm with
      | { heap, machine, host } =>
        let globals := heap.globalsValue
        let (f, heap) := heap.newChunk p globals
        (.ok f, { heap, machine, host })

/-- Runs a source text on the host's own thread. -/
def evaluate (vm : Vm) (chunk source : String) : Except HostError (List Value) × Vm :=
  match vm.compile chunk source with
  | (.error e, vm) => (.error e, vm)
  | (.ok f, vm) => lift (vm.call f [])

/-- Reads the entry of a value at a text key. -/
def entryOf (v : Value) (name : String) : Lib (List Value) := do return [← Lib.index v (.text name)]

/-- The entry of a value at a text key, as scripts read it. -/
def field (vm : Vm) (v : Value) (name : String) : Except HostError Value × Vm :=
  match lift (vm.compute (entryOf v name)) with
  | (.ok values, vm) => (.ok (firstOf values), vm)
  | (.error e, vm) => (.error e, vm)

/-- The value of a global name, as scripts read it. -/
def global (vm : Vm) (name : String) : Except HostError Value × Vm :=
  vm.field vm.heap.globalsValue name

/-! ## Coroutines -/

/-- A new coroutine that runs a function. -/
def newThread (vm : Vm) (f : Value) : Nat × Vm :=
  match vm with
  | { heap, machine, host } =>
    let (id, machine) := machine.newCoroutine f
    (id, { heap, machine, host })

/-- The refusal to resume a coroutine that ended or is running. -/
def unresumable : String := "coroutine is non-resumable"

/-- The machine and what it looks at when the host has a coroutine start or go on. -/
@[inline] def resumption (heap : Heap) (machine : Machine) (thread : Nat) (args : List Value) :
    Machine × Focus :=
  { machine with base := 1, resumers := [] }.awaken Library.invoke thread args heap

/-- What a resumed coroutine hands back when its run has ended. -/
def handBack (vm : Vm) : Outcome → Resumption × Vm
  | .finished values => (.finished values, vm)
  | .yielded values => (.yielded values, vm)
  | .failed v =>
    let (message, vm) := vm.errorText v
    (.failed message, vm)
  | .outOfFuel => (.failed "not enough memory", vm)

/-- The run of a resumed coroutine has ended. -/
def settleThread (r : Outcome × Vm) : Resumption × Vm :=
  { r.2 with machine := { r.2.machine with base := 0 } }.handBack r.1

/-- Starts a coroutine or goes on with it. -/
def resume (vm : Vm) (thread : Nat) (args : List Value) : Resumption × Vm :=
  match vm.machine.standing thread with
  | .suspended =>
    match vm with
    | { heap, machine, host } =>
      let (machine, focus) := resumption heap machine thread args
      settleThread (runFrom host machine focus)
  | _ => (.failed unresumable, vm)

/-! ## Values -/

/-- A host value in the machine; one without a counterpart is nil, and told. -/
def valueOf (v : BoundaryValue) : Logged Value :=
  match v with
  | .nil => ⟨.nil, []⟩
  | .boolean b => ⟨.bool b, []⟩
  | .integer n => ⟨.int n, []⟩
  | .float x => ⟨if x.isNaN then .nan false else .float x, []⟩
  | .string s => ⟨.text s, []⟩
  | .unsupported kind => ⟨.nil, [.warn ("cannot pass a host " ++ kind ++ " to Lua; using nil")]⟩

/-- Host values as arguments of a call. -/
def arguments (vm : Vm) (values : List BoundaryValue) : List Value × Vm :=
  let values := values.map valueOf
  (values.map (·.value), vm.records (values.flatMap (·.log)))

/-- The tree of a value, with the warnings of its making in the log. -/
def treeOf (vm : Vm) (v : Value) : Json × Vm :=
  let tree := Trees.ofValue vm.heap v
  (tree.value, vm.records tree.log)

end Vm

end OscHost
