import OscHost.Proofs.Lines.Readiness
import OscHost.Proofs.Scheduler.Calls
/-!
  How messages are received.

  A message carries the values of its line, one for one.  What is no plain value arrives as nil, in
  its place, and the log tells of it (`handed`).  When the message is applied, the global `receive` is
  called with the address and these values, if it is a function, once and on a thread of its own
  (`Engine.applyOldest_message`).  Whoever else does something meanwhile, the threads of the engine
  are in order by then, which is what it takes (`Intake.Run.order`).

  So a line can be followed from what it says to the call that it comes to (`lines_received`).
-/

namespace OscHost

open Script

/-! ## Values -/

/-- What a function of a script gets for a JSON value. -/
def handed : Json → Value
  | .null | .array _ | .object _ => .nil
  | .bool b => .bool b
  | .int n => if Json.fitsWord n then .int (Int64.ofInt n) else number (Float.ofInt n)
  | .float x => number x
  | .string s => .text s
where
  /-- A double, which need not be a number. -/
  number (x : Float) : Value := if x.isNaN then .nan false else .float x

namespace Vm

theorem value_ofJson (j : Json) : (valueOf (.ofJson j)).value = handed j := by
  cases j with
  | int n =>
    unfold BoundaryValue.ofJson handed
    dsimp only
    split
    · rfl
    · rfl
  | _ => rfl

/-- One argument for each value, in its place. -/
theorem arguments_ofJson (vm : Vm) (address : String) (items : List Json) :
    (vm.arguments (.string address :: items.map BoundaryValue.ofJson)).1 =
      .text address :: items.map handed := by
  unfold arguments
  dsimp only
  rw [List.map_cons, List.map_cons, List.map_map, List.map_map]
  exact congrArg (Value.text address :: ·) (List.map_congr_left fun j _ => value_ofJson j)

end Vm

/-! ## Delivery -/

namespace Engine

/-- The machine when it is noted that an event is applied. -/
def noting (e : Engine) (event : Event) : Vm :=
  e.runner.vm.record (.trace ("host event: " ++ event.kind))

/-- The scripts when the arguments of a call have been made. -/
def passing (e : Engine) (vm : Vm) (args : List BoundaryValue) : Runner :=
  { e.runner with vm := (vm.arguments args).2 }

variable {e : Engine} {f : Value} {vm : Vm}

/-- To spawn a function is to launch it. -/
theorem spawnFunction_snd (label : String) (f : Value) (args : List Value) (e : Engine) :
    (spawnFunction label f args e).2 =
      { e with runner := (e.runner.launch (.function label f) args).2 } := by
  unfold spawnFunction
  rw [bind_apply, onRunner_apply, Runner.spawn_eq]
  rfl

/-- To call a global name that is found to be a function is to launch that. -/
theorem call_function {name : String} (hfound : e.runner.vm.global name = (.ok f, vm))
    (hf : Runner.isFunction f) (args : List BoundaryValue) : (call name args e).2 = { e with
      runner := ((e.passing vm args).launch (.function name f) (vm.arguments args).1).2 } := by
  unfold call
  rw [bind_apply, onVm_apply, hfound]
  cases f with
  | closure _ | builtin _ | native _ =>
    dsimp only
    rw [if_pos hf, bind_apply, onVm_apply, spawnFunction_snd]
    rfl
  | _ => exact nomatch hf

/-- To handle a message is to call `receive`. -/
theorem handle_message (address : String) (values : List BoundaryValue) (e : Engine) :
    (handle (.message address values) e).2 = (call receiveHandler (.string address :: values)
      { e with runner := { e.runner with vm := e.noting (.message address values) } }).2 := by
  unfold handle
  rw [bind_apply]
  dsimp only
  rw [discard_apply]
  rfl

/-- To apply a message is to launch `receive`, if that is a function. -/
theorem applyOldest_message {address : String} {values : List BoundaryValue} {rest : List Event}
    (hinbox : e.inbox = .message address values :: rest)
    (hfound : (e.noting (.message address values)).global receiveHandler = (.ok f, vm))
    (hf : Runner.isFunction f) : applyOldest e = (true, { e with
      inbox := rest
      runner := ((e.passing vm (.string address :: values)).launch (.function receiveHandler f)
        (vm.arguments (.string address :: values)).1).2 }) := by
  let noted : Engine := { e with
    inbox := rest
    runner := { e.runner with vm := e.noting (.message address values) } }
  have hcall := call_function (e := noted) hfound hf (.string address :: values)
  have hhandle := (handle_message address values { e with inbox := rest }).trans hcall
  rw [applyOldest_eq hinbox, hhandle]
  rfl

/-- So `receive` is called once, with the address and the values of the line in their places. -/
theorem exists_callsOnce (horder : e.runner.scheduler.Orderly) {address : String}
    {items : List Json} {rest : List Event}
    (hinbox : e.inbox = .message address (items.map BoundaryValue.ofJson) :: rest)
    (hfound : (e.noting (.message address (items.map BoundaryValue.ofJson))).global receiveHandler =
      (.ok f, vm)) (hf : Runner.isFunction f) :
    ∃ r, applyOldest e = (true, { e with inbox := rest, runner := r }) ∧
      Runner.CallsOnce receiveHandler f (.text address :: items.map handed)
        (e.passing vm (.string address :: items.map BoundaryValue.ofJson)) r := by
  let r := e.passing vm (.string address :: items.map BoundaryValue.ofJson)
  have hr : r.scheduler.Orderly := horder
  have hcalls := Runner.callsOnce_launch hr receiveHandler f (.text address :: items.map handed)
  have happly := applyOldest_message hinbox hfound hf
  rw [Vm.arguments_ofJson] at happly
  exact ⟨_, happly, hcalls⟩

/-! ## An engine that receives -/

/-- An engine whose scripts have set `receive`, and for which a message waits. -/
def listening : Engine :=
  let plain := Exchange.plainEngine
  let heap := plain.runner.vm.heap.setText Sandbox.Place.globals.id receiveHandler (.builtin .coYield)
  { plain with
    runner := { plain.runner with vm := { plain.runner.vm with heap } }
    inbox := [.message "/a" [.unsupported "array", .boolean true]] }

/-- Its `receive` is found at once. -/
theorem global_listening (event : Event) : (listening.noting event).global receiveHandler =
    (.ok (.builtin .coYield), listening.noting event) := by
  let heap := (Moment.new plainHost).heap
  let globals := heap.table Sandbox.Place.globals.id
  have hglobals : globals = Sandbox.contents {} plainHost.scriptRoot .globals :=
    Moment.table_new rfl .globals
  have hinside : Sandbox.Place.globals.id < heap.tables.size := by decide
  have hset : (heap.setText Sandbox.Place.globals.id receiveHandler (.builtin .coYield)).table
      Sandbox.Place.globals.id = globals.setText receiveHandler (.builtin .coYield) := by
    unfold Heap.setText Heap.set
    rw [Heap.table_modifyTable, if_pos ⟨rfl, hinside⟩]
    rfl
  -- the names of a fresh sandbox are distinct, so the last value set for one is found
  have hlisted : globals.Listed := by
    rw [hglobals]
    exact Sandbox.listed_tableOf (by decide)
  have hplain : ((heap.setText Sandbox.Place.globals.id receiveHandler (.builtin .coYield)).table
      Sandbox.Place.globals.id).metatable = none := by
    rw [hset, Table.metatable_setText, hglobals]
    exact Sandbox.metatable_contents ..
  have hlookup := Library.Modules.lookup_plain hplain (.text receiveHandler)
  rw [hset] at hlookup
  have hname := hlisted.getText_setText (v := .builtin .coYield) rfl receiveHandler
  exact Vm.global_eq rfl rfl rfl (hlookup.trans (congrArg Lib.Lookup.found hname))

end Engine

/-! ## From lines to calls -/

namespace Intake

variable {e : Engine} {i j : Intake}

/-- The threads are in order whatever is done. -/
theorem Step.order (h : Step i j) (hi : i.exchange.worker.engine.runner.scheduler.Orderly) :
    j.exchange.worker.engine.runner.scheduler.Orderly := by
  cases h with
  | other h => exact h.spares.order hi
  | pass hheld hsaid => exact hi
  | take hheld hsaid => exact hi
  | tell hheld hhandle => exact (i.exchange.spares_post _).order hi

theorem Run.order (h : Run i j) (hi : i.exchange.worker.engine.runner.scheduler.Orderly) :
    j.exchange.worker.engine.runner.scheduler.Orderly :=
  h.keeps (P := fun i => i.exchange.worker.engine.runner.scheduler.Orderly) Step.order hi

/-- A line that says nothing does nothing to the worker; any other declares its types and posts its
    event, and what it says is what the first shape says that it has.  Over any number of lines, if
    the mailbox took what was told for them, then that is one event for each line that says something,
    in order, all of it was accepted in that order and is delivered, and each address has the type in
    the last line that declares one.  And to deliver a message of a line is to call `receive`, if that
    is a function, once and with the address and the values in their places. -/
theorem lines_received (he : e.inbox = []) (horder : e.runner.scheduler.Orderly)
    (hrun : Run (new e) i) (hheard : ∀ t ∈ i.told, t.heard) :
    (∀ (s : Session) (line : String), (s.takeLine line).worker =
      match Session.said? line with
      | none => s.worker
      | some said => ((s.worker.declare said.defs).post said.event).2) ∧
    (∀ line said, Session.said? line = some said ↔
      (∃ c ∈ line.toList, Session.isBlank c = false) ∧
      ∃ members, Json.parse (Session.trimmed line) = .ok (.object members) ∧
        Osc.Inbound.Says members said) ∧
    i.told.map (·.posting.event) ++ i.held.toList = eventsOf i.lines ∧
    (i.told.map (·.posting)).Sublist i.exchange.accepted ∧
    (i.exchange.accepted.map (·.number)).Nodup ∧ i.exchange.Delivered ∧
    i.exchange.types = typesAfter e.registry.get? i.lines ∧
    i.exchange.worker.engine.runner.scheduler.Orderly ∧
    ∀ e : Engine, e.runner.scheduler.Orderly → ∀ (address : String) (items : List Json) rest f vm,
      e.inbox = .message address (items.map BoundaryValue.ofJson) :: rest →
      (e.noting (.message address (items.map BoundaryValue.ofJson))).global Engine.receiveHandler =
        (.ok f, vm) →
      Runner.isFunction f →
      ∃ r, Engine.applyOldest e = (true, { e with inbox := rest, runner := r }) ∧
        Runner.CallsOnce Engine.receiveHandler f (.text address :: items.map handed)
          (e.passing vm (.string address :: items.map BoundaryValue.ofJson)) r := by
  obtain ⟨hevents, haccepted, htypes⟩ := hrun.faithful (faithful_new e)
  rw [List.filter_eq_self.mpr hheard] at haccepted
  have hx := hrun.tidy he
  have hdistinct := hx.distinct
  rw [List.map_append, List.nodup_append] at hdistinct
  refine ⟨Session.takeLine_worker, fun _ _ => Session.said?_eq_some, hevents, haccepted,
    hdistinct.1, hx.delivered, htypes, hrun.order horder, ?_⟩
  intro e horder address items rest f vm hinbox hfound hf
  exact Engine.exists_callsOnce horder hinbox hfound hf

/-- A line with a message of two values, one of which is no plain one. -/
def messageLine : String := "\x7b\"address\":\"/a\",\"values\":[[],true]\x7d"

/-- Its event is told and accepted; and an engine for which that waits calls `receive` with nil in
    place of the array. -/
theorem lines_received_messageLine : Exchange.plainEngine.inbox = [] ∧
    Exchange.plainEngine.runner.scheduler.Orderly ∧
    (∃ i t, Run (new Exchange.plainEngine) i ∧ i.lines = [messageLine] ∧ i.told = [t] ∧ t.heard ∧
      t.posting ∈ i.exchange.accepted ∧ [t.posting.event] ++ i.held.toList = eventsOf [messageLine] ∧
      t.posting.event = .message "/a" [.unsupported "array", .boolean true]) ∧
    ∃ r, Engine.applyOldest Engine.listening =
        (true, { Engine.listening with inbox := [], runner := r }) ∧
      Runner.CallsOnce Engine.receiveHandler (.builtin .coYield) [.text "/a", .nil, .bool true]
        (Engine.listening.passing
          (Engine.listening.noting (.message "/a" [.unsupported "array", .boolean true]))
          [.string "/a", .unsupported "array", .boolean true]) r := by
  have horder : Exchange.plainEngine.runner.scheduler.Orderly := Scheduler.orderly_empty 0
  have hsaid : Session.said? messageLine =
      some (.message "/a" [.unsupported "array", .boolean true]) := by cbv
  obtain ⟨i, hrun, -, -, hlines, t, htold, hevent, halive, hroom, -⟩ :=
    exists_run_line (i := new Exchange.plainEngine) (Exchange.early_new _) rfl hsaid
  have hroom : t.room = true := hroom
  have hheard : t.heard = true := Bool.and_eq_true_iff.mpr ⟨halive, hroom⟩
  have hall : ∀ t' ∈ i.told, t'.heard := by
    rw [htold]
    intro t' ht'
    rw [List.mem_singleton.mp ht']
    exact hheard
  obtain ⟨-, -, hevents, haccepted, -, -, -, -, hreceives⟩ := lines_received rfl horder hrun hall
  rw [htold] at hevents haccepted
  rw [hlines] at hevents
  refine ⟨rfl, horder, ⟨i, t, hrun, hlines, htold, hheard, ?_, hevents, hevent⟩, ?_⟩
  · exact List.singleton_sublist.mp haccepted
  · exact hreceives Engine.listening horder "/a" [.array [], .bool true] [] (.builtin .coYield) _ rfl
      (Engine.global_listening _) rfl

end Intake

end OscHost
