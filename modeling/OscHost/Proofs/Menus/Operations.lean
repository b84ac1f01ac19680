import OscHost.Proofs.Menus.Trails
/-!
  Every operation of the engine but the tick leaves a trail, and so do the two parts of a tick that
  come before it looks whether a menu is asked for.  That it looks is not a move of any kind, and has
  to be one (`Lowers`) for what is said of all of a tick.

  The operations are taken one by one, each from those that it calls, as they are defined, and for
  every kind of moves that has those that it is made of: up to the building of a menu none is about
  the menu, and up to the applying of what waits none is about the inbox.
-/

namespace OscHost.Engine.Leaves

open Script

variable {M : Engine → Nat → Engine → Prop}

theorem hasScript (path : String) : Leaves M (Engine.hasScript path) :=
  get.bind fun _ => pure _

section

variable [Admits M]

theorem global (name : String) : Leaves M (Engine.onVm (·.global name)) :=
  onVm fun vm => Vm.gets_global vm name

theorem loadScript (path : String) : Leaves M (Engine.onVm (·.loadScript path)) :=
  onVm fun vm => .of_move (.loadScript vm path)

/-! ## Threads -/

theorem spawnFunction (label : String) (f : Value) (args : List Value) :
    Leaves M (Engine.spawnFunction label f args) := by
  refine (onRunner fun r => Runner.goes_spawn r label f args).bind fun result => ?_
  cases result with
  | ok id => exact pure _
  | error e => exact (record _).bind fun _ => pure _

theorem call (name : String) (args : List BoundaryValue) : Leaves M (Engine.call name args) := by
  refine (global name).bind fun found => ?_
  split
  · exact (record _).bind fun _ => pure _
  · exact (record _).bind fun _ => pure _
  · split
    · exact (onVm fun vm => .of_move (.arguments vm args)).bind fun _ => spawnFunction _ _ _
    · exact (onVm fun vm => .refl vm).bind fun _ => (record _).bind fun _ => pure _

theorem onMessage (address : String) (values : List BoundaryValue) :
    Leaves M (Engine.onMessage address values) :=
  call _ _

theorem onEndpointsDiscovered (hready : Readies M) : Leaves M Engine.onEndpointsDiscovered := by
  have ready : Leaves M (modify fun e => { e with readyFired := true }) := fun e =>
    .of_move (hready e)
  refine get.bind fun e => ?_
  split
  · exact pure _
  · exact ready.bind fun _ => (record _).bind fun _ => call _ _

theorem onMenuClicked (path : List String) : Leaves M (Engine.onMenuClicked path) := by
  have noHandler : Leaves M (do
      Engine.record (.info ("menu item " ++ " > ".intercalate path ++ " clicked; no handler"))
      return (none : Option Nat)) := (record _).bind fun _ => pure _
  refine (global _).bind fun found => ?_
  split
  · refine (onVm fun vm => Vm.gets_field vm _ _).bind fun onclick => ?_
    split
    · split
      · exact (onVm fun vm => .of_move (.newTable vm _)).bind fun _ => spawnFunction _ _ _
      · exact noHandler
    · exact noHandler
  · exact noHandler

/-! ## Configuration and menu -/

theorem runConfigScript (path : String) (args : List Value) :
    Leaves M (Engine.runConfigScript path args) := by
  refine (hasScript path).bind fun found => ?_
  split
  · refine (loadScript path).bind fun loaded => ?_
    split
    · exact pure _
    · refine (onRunner fun r => Runner.goes_run r path _ args).bind fun result => ?_
      split
      · exact pure _
      · exact pure _
  · exact pure _

theorem firstTree (values : List Value) : Leaves M (Engine.firstTree values) :=
  onVm fun vm => .of_move (.treeOf vm _)

theorem addRoots (added : Nat) (dirs : List String) : Leaves M (Engine.addRoots added dirs) := by
  induction dirs generalizing added with
  | nil => exact pure _
  | cons dir rest ih =>
    refine get.bind fun e => ?_
    dsimp only
    split
    · exact pure _
    · split
      · exact (onVm fun vm => .of_move (.addRoots vm _)).bind fun _ => (record _).bind fun _ => ih _
      · exact ih _

theorem loadConfig : Leaves M Engine.loadConfig := by
  refine (runConfigScript _ _).bind fun result => ?_
  split
  · exact pure _
  · exact (record _).bind fun _ => pure _
  · refine (firstTree _).bind fun tree => ?_
    split
    · exact pure _
    · refine (forIn _ _ fun key _ => (record _).bind fun _ => pure _).bind fun _ => addRoots _ _

theorem buildMenu (trigger : String) : Leaves M (Engine.buildMenu trigger) := by
  refine (runConfigScript _ _).bind fun result => ?_
  split
  · exact pure _
  · exact (record _).bind fun _ => pure _
  · refine (firstTree _).bind fun tree => ?_
    split
    · exact pure _
    · exact pure _

/-! ## Running -/

theorem runEntryScript : Leaves M Engine.runEntryScript := by
  refine (hasScript _).bind fun found => ?_
  split
  · refine (loadScript _).bind fun loaded => ?_
    split
    · exact (spawnFunction _ _ _).discard
    · exact record _
  · exact get.bind fun _ => record _

theorem configure : Leaves M Engine.configure := by
  refine loadConfig.bind fun result => ?_
  split
  · exact pure _
  · exact record _

theorem runnerTick (now : Nat) : Leaves M (Engine.onRunner fun r => ((), r.tick now)) :=
  onRunner fun r => Runner.goes_tick r now

end

section

variable [Presents M]

theorem present (items : List MenuItem) : Leaves M (Engine.present items) := by
  have presented : Leaves M (modify fun e =>
      { e with presented := e.presented.push items, menu := some items }) := fun e =>
    .of_move (Presents.present e items)
  refine get.bind fun e => ?_
  split
  · exact (record _).bind fun _ => presented
  · exact presented

theorem updateMenu (trigger : String) : Leaves M (Engine.updateMenu trigger) := by
  refine (buildMenu trigger).bind fun result => ?_
  split
  · exact (present _).bind fun _ => pure _
  · exact pure _
  · exact (record _).bind fun _ => pure _

theorem start : Leaves M Engine.start :=
  runEntryScript.bind fun _ => configure.bind fun _ => (updateMenu _).discard

theorem handle (event : Event) (hready : event = .endpointsDiscovered → Readies M) :
    Leaves M (Engine.handle event) := by
  refine (record _).bind fun _ => ?_
  cases event with
  | call name args => exact (call name args).discard.bind fun _ => pure _
  | message address values => exact (onMessage address values).discard.bind fun _ => pure _
  | endpointsDiscovered => exact (onEndpointsDiscovered (hready rfl)).discard.bind fun _ => pure _
  | updateMenu trigger => exact (updateMenu trigger).discard.bind fun _ => pure _
  | menuClicked path => exact (onMenuClicked path).discard.bind fun _ => pure _
  | shutdown => exact pure _

theorem serveMenuRequest (hlower : Lowers M) : Leaves M Engine.serveMenuRequest := by
  have lower : Leaves M (Engine.onVm fun vm =>
      (vm.host.menuRequested, vm.onHost fun host => { host with menuRequested := false })) :=
    fun e => .of_move (hlower e)
  refine lower.bind fun requested => ?_
  split
  · exact (updateMenu _).discard
  · exact pure _

theorem resumeDue (hlower : Lowers M) (now : Nat) : Leaves M (Engine.resumeDue now) :=
  (runnerTick now).bind fun _ => serveMenuRequest hlower

end

/-! ## What waits -/

theorem setInbox (hinbox : Refills M) (f : Engine → List Event) :
    Leaves M (modify fun e => { e with inbox := f e }) := fun e => .of_move (hinbox e (f e))

section

variable [Presents M] (hready : Readies M) (hinbox : Refills M)
include hready hinbox

theorem applyOldest : Leaves M Engine.applyOldest := by
  refine get.bind fun e => ?_
  split
  · exact pure _
  · rename_i event rest _
    refine (setInbox hinbox fun _ => rest).bind fun _ =>
      (handle event fun _ => hready).bind fun goesOn => ?_
    split
    · exact pure _
    · exact (setInbox hinbox fun _ => []).bind fun _ => pure _

theorem applyWaiting (count : Nat) : Leaves M (Engine.applyWaiting count) := by
  induction count with
  | zero => exact pure _
  | succ count ih =>
    refine (applyOldest hready hinbox).bind fun goesOn => ?_
    split
    · exact ih
    · exact pure _

end

end OscHost.Engine.Leaves
