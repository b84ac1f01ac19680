import OscHost.Event
import OscHost.Json.Printer
import OscHost.Menu
import OscHost.Runner
import OscHost.Settings
/-!
  The engine: scripts, their threads, the menu, and the events that wait to be applied.

  No failure of a script stops the engine.  A menu is replaced only by a menu: whenever building one
  fails, the one before stays.
-/

namespace OscHost

open Script

/-- The engine. -/
structure Engine where
  runner : Runner
  config : Config
  /-- Whether new menus are also told in the log. -/
  announces : Bool := false
  /-- The menu that was presented last. -/
  menu : Option (List MenuItem) := none
  /-- All menus that were presented, the oldest first. -/
  presented : Array (List MenuItem) := #[]
  readyFired : Bool := false
  /-- Events that wait, the oldest first. -/
  inbox : List Event := []

/-- An operation of the engine. -/
abbrev EngineM := StateM Engine

namespace Engine

/-- The global that is told about messages. -/
def receiveHandler : String := "receive"

/-- The global that is called when endpoints are first known. -/
def readyHandler : String := "ready"

/-- The label of threads that handle a click. -/
def clickHandler : String := "menu.onclick"

/-- Does something with the threads. -/
def onRunner {α : Type} (f : Runner → α × Runner) : EngineM α := fun e =>
  match e with
  | { runner, config, announces, menu, presented, readyFired, inbox } =>
    let (a, runner) := f runner
    (a, { runner, config, announces, menu, presented, readyFired, inbox })

/-- Does something with the machine. -/
def onVm {α : Type} (f : Vm → α × Vm) : EngineM α :=
  onRunner fun
    | { vm, scheduler } =>
      let (a, vm) := f vm
      (a, { vm, scheduler })

/-- Writes a log record. -/
def record (r : LogRecord) : EngineM Unit := onVm fun vm => ((), vm.record r)

/-- The engine for a configuration.  Its io root is made first. -/
def new (c : Config) (around : Files.Surroundings) (t : Files.Tree)
    (transport : Osc.Transport := {}) (announces : Bool := false) (shell : Shell := .basic) :
    Except HostError Engine := do
  let t ← c.makeIoRoot around.current t
  let host : Host := { Host.new c around t shell with transport }
  let vm := (Vm.new host).record
    (.info ("script host ready: root=" ++ c.scriptRoot ++ " policy=" ++ c.policy.text))
  pure { runner := { vm }, config := c, announces }

/-- The count of registered threads. -/
def live (e : Engine) : Nat := e.runner.scheduler.size

/-- A path below the script root, not yet confined to it. -/
def scriptPath (e : Engine) (path : String) : String :=
  e.runner.vm.host.absolute (Files.Path.join e.config.scriptRoot path)

/-- Whether a script is there. -/
def hasScript (path : String) : EngineM Bool := do
  let e ← get
  return e.runner.vm.host.tree.isFile (e.scriptPath path)

/-! ## Threads -/

/-- Starts a thread; a failure is logged. -/
def spawnFunction (label : String) (f : Value) (args : List Value) : EngineM (Option Nat) := do
  match ← onRunner (·.spawn (.function label f) args) with
  | .ok id => return some id
  | .error e =>
    record (.error (label ++ ": " ++ e.message))
    return none

/-- Starts a thread that runs a global function. -/
def call (name : String) (args : List BoundaryValue) : EngineM (Option Nat) := do
  match ← onVm (·.global name) with
  | .error e =>
    record (.error ("looking up '" ++ name ++ "': " ++ e.message))
    return none
  | .ok .nil =>
    record (.debug ("no global '" ++ name ++ "'; skipping call"))
    return none
  | .ok v =>
    if Runner.isFunction v then
      let args ← onVm (·.arguments args)
      spawnFunction name v args
    else
      let complaint ← onVm fun vm => (Runner.notFunction vm name v, vm)
      record (.warn complaint)
      return none

/-- Delivers a message. -/
def onMessage (address : String) (values : List BoundaryValue) : EngineM (Option Nat) :=
  call receiveHandler (.string address :: values)

/-- Tells that endpoints are known, the first time only. -/
def onEndpointsDiscovered : EngineM (Option Nat) := do
  if (← get).readyFired then return none
  modify fun e => { e with readyFired := true }
  record (.info ("endpoints discovered; calling " ++ readyHandler ++ "()"))
  call readyHandler []

/-- Tells the script's handler about a click. -/
def onMenuClicked (path : List String) : EngineM (Option Nat) := do
  let noHandler : EngineM (Option Nat) := do
    record (.info ("menu item " ++ " > ".intercalate path ++ " clicked; no handler"))
    return none
  match ← onVm (·.global "menu") with
  | .ok (.table id) =>
    match ← onVm (·.field (.table id) "onclick") with
    | .ok f =>
      if Runner.isFunction f then
        let arg ← onVm fun
          | { heap, machine, host } =>
            let (id, heap) := heap.newTable (Table.ofList (path.map Value.text))
            (Value.table id, { heap, machine, host })
        spawnFunction clickHandler f [arg]
      else noHandler
    | .error _ => noHandler
  | _ => noHandler

/-! ## Configuration and menu -/

/-- Runs a script of the configuration for its values; nothing when it is missing. -/
def runConfigScript (path : String) (args : List Value) :
    EngineM (Except HostError (Option (List Value))) := do
  if ← hasScript path then
    match ← onVm (·.loadScript path) with
    | .error e => return .error e
    | .ok f =>
      match ← onRunner (·.run (.function path f) args) with
      | .ok values => return .ok (some values)
      | .error e => return .error (.configLoad (path ++ ": " ++ e.message))
  else return .ok none

/-- The tree of the first of some values. -/
def firstTree (values : List Value) : EngineM Json := onVm (·.treeOf (firstOf values))

/-- Adds directories to the roots for JSON, up to the first that has no place; yields how many were
    new. -/
def addRoots (added : Nat) : List String → EngineM (Except HostError Nat)
  | [] => return .ok added
  | dir :: rest => do
    let e ← get
    let host := e.runner.vm.host
    match Host.refusal (Files.anchorAt host.around e.config.scriptRoot dir) with
    | .error e => return .error e
    | .ok path =>
      let roots := host.jsonRoots.insert (Files.Jail.make host.tree host.around path)
      if host.jsonRoots.jails.length < roots.jails.length then
        onVm fun vm => ((), vm.onHost fun host => { host with jsonRoots := roots })
        record (.info ("json io root added: " ++ path))
        addRoots (added + 1) rest
      else addRoots added rest

/-- Runs the configuration script and adds the roots it names; yields how many were new. -/
def loadConfig : EngineM (Except HostError Nat) := do
  match ← runConfigScript configScript [] with
  | .error e => return .error e
  | .ok none =>
    record (.debug (configScript ++ " not found; using defaults"))
    return .ok 0
  | .ok (some values) =>
    match Settings.ofJson (← firstTree values) with
    | .error e => return .error e
    | .ok settings =>
      for key in settings.unknown do
        record (.debug (configScript ++ ": ignoring unknown key '" ++ key ++ "'"))
      addRoots 0 settings.ioDirs

/-- Builds the menu; nothing when there is no script for it. -/
def buildMenu (trigger : String) : EngineM (Except HostError (Option (List MenuItem))) := do
  match ← runConfigScript menuScript [.text trigger] with
  | .error e => return .error e
  | .ok none =>
    record (.debug (menuScript ++ " not found; no menu"))
    return .ok none
  | .ok (some values) =>
    match Menu.parse (← firstTree values) with
    | .ok items => return .ok (some items)
    | .error e => return .error e

/-- Presents a menu. -/
def present (items : List MenuItem) : EngineM Unit := do
  if (← get).announces then record (.info ("menu updated: " ++ (Menu.toJson items).compact))
  modify fun e => { e with presented := e.presented.push items, menu := some items }

/-- Builds and presents the menu; false when there is no new one. -/
def updateMenu (trigger : String) : EngineM Bool := do
  match ← buildMenu trigger with
  | .ok (some items) =>
    present items
    return true
  | .ok none => return false
  | .error e =>
    record (.warn ("menu update (" ++ trigger ++ ") failed, keeping previous menu: " ++ e.message))
    return false

/-! ## Running -/

/-- Runs the first script, if it is there. -/
def runEntryScript : EngineM Unit := do
  if ← hasScript entryScript then
    match ← onVm (·.loadScript entryScript) with
    | .ok f => discard (spawnFunction entryScript f [])
    | .error e => record (.error (entryScript ++ ": " ++ e.message))
  else record (.warn ("no " ++ entryScript ++ " in " ++ (← get).config.scriptRoot))

/-- Runs the configuration script; a failure is logged. -/
def configure : EngineM Unit := do
  match ← loadConfig with
  | .ok _ => return
  | .error e => record (.warn e.message)

/-- Runs the scripts that come first, then builds the first menu. -/
def start : EngineM Unit := do
  runEntryScript
  configure
  discard (updateMenu "startup")

/-- Lets an event wait for the next tick. -/
def enqueue (event : Event) : EngineM Unit :=
  modify fun e => { e with inbox := e.inbox ++ [event] }

/-- Applies an event; false for the one that ends everything. -/
def handle (event : Event) : EngineM Bool := do
  record (.trace ("host event: " ++ event.kind))
  match event with
  | .call name args => discard (call name args); return true
  | .message address values => discard (onMessage address values); return true
  | .endpointsDiscovered => discard onEndpointsDiscovered; return true
  | .updateMenu trigger => discard (updateMenu trigger); return true
  | .menuClicked path => discard (onMenuClicked path); return true
  | .shutdown => return false

/-- Applies the event that has waited longest.  False for the one that ends everything: then those
    that still wait are discarded. -/
def applyOldest : EngineM Bool := do
  match (← get).inbox with
  | [] => return true
  | event :: rest =>
    modify fun e => { e with inbox := rest }
    if ← handle event then return true
    modify fun e => { e with inbox := [] }
    return false

/-- Applies so many of the events that wait, in order, up to the one that ends everything. -/
def applyWaiting : (count : Nat) → EngineM Bool
  | 0 => return true
  | count + 1 => do
    if ← applyOldest then applyWaiting count else return false

/-- Builds the menu again if a script has asked for it. -/
def serveMenuRequest : EngineM Unit := do
  let requested ← onVm fun vm =>
    (vm.host.menuRequested, vm.onHost fun host => { host with menuRequested := false })
  if requested then discard (updateMenu "script")

/-- Resumes the threads that are due at a time, and builds the menu again if a script has asked for
    it. -/
def resumeDue (now : Nat) : EngineM Unit := do
  onRunner fun r => ((), r.tick now)
  serveMenuRequest

/-- Applies the events that wait, then resumes the threads that are due at a time.  False once
    everything is to end. -/
def tick (now : Nat) : EngineM Bool := do
  if ← applyWaiting (← get).inbox.length then
    resumeDue now
    return true
  else return false

/-- Ticks at the time that the clock shows. -/
def tickNow : EngineM Bool := do
  let now ← onRunner (·.readClock)
  tick now

end Engine

end OscHost
