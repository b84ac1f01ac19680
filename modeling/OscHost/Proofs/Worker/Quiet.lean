import OscHost.Proofs.Sending
import OscHost.Proofs.Worker.Exchange
/-!
  A world that keeps to itself.

  Scripts look the types up but declare none, and neither does the engine in anything that it does: no
  effect changes the registry, so no run of the machine does (`Vm.runFrom_registry`), so no move of
  the engine does.  And whatever it does with its threads keeps them in order.  So all that the worker
  and those who post do spares both (`Engine.Spares`).  Only the rest of the world might not, and a
  step is `Quiet` unless it does not.
-/

namespace OscHost

open Script

/-! ## Runs of the machine -/

theorem Host.perform_registry (e : Effect) (s : Host) :
    (s.perform e).2.transport.registry = s.transport.registry := by
  show (s.perform e).2.frame.transport.registry = s.frame.transport.registry
  rw [perform_frame]

namespace Vm

/-- What is declared to the host of a machine. -/
def registry (vm : Vm) : Osc.Registry := vm.host.transport.registry

theorem runFrom_registry (host : Host) (m : Machine) (f : Focus) :
    (runFrom host m f).2.registry = host.transport.registry :=
  runFrom_part (·.transport.registry) Host.perform_registry host m f

theorem Move.registry_eq {vm vm' : Vm} {n : Nat} (h : Move vm n vm') :
    vm'.registry = vm.registry := by
  cases h with
  | arguments values => exact Host.registry_of_frame (Host.records_frame ..)
  | treeOf v => exact Host.registry_of_frame (Host.records_frame ..)
  | loadScript path =>
    unfold Vm.loadScript
    split
    · rfl
    · split <;> rfl
  | entry v name =>
    rw [compute_eq]
    exact runFrom_registry ..
  | text v =>
    rw [compute_eq]
    exact runFrom_registry ..
  | thread n args => exact runFrom_registry ..
  | _ => rfl

end Vm

/-! ## Operations of the engine -/

namespace Engine

/-- What is declared to the host of an engine. -/
def registry (e : Engine) : Osc.Registry := e.runner.vm.registry

/-- Whether no types are declared meanwhile, and threads that are in order stay so. -/
structure Spares (e e' : Engine) : Prop where
  registry : e'.registry = e.registry
  order : e.runner.scheduler.Orderly → e'.runner.scheduler.Orderly

theorem Spares.refl (e : Engine) : Spares e e := ⟨rfl, id⟩

theorem Spares.trans {e e' e'' : Engine} (h : Spares e e') (h' : Spares e' e'') : Spares e e'' :=
  ⟨h'.registry.trans h.registry, h'.order ∘ h.order⟩

/-- The moves that do. -/
def Sparing (e : Engine) (_ : Nat) (e' : Engine) : Prop := Spares e e'

instance : Presents Sparing where
  machine h := ⟨h.registry_eq, id⟩
  threads _ _ h := ⟨rfl, h⟩
  present _ _ := ⟨rfl, id⟩

theorem Leaves.spares {α : Type} {op : EngineM α} (h : Leaves Sparing op) (e : Engine) :
    Spares e (op e).2 :=
  h.keeps Spares.refl Spares.trans id e

/-- It is among them to call `ready`, and that other events wait. -/
theorem spares_applyOldest (e : Engine) : Spares e (applyOldest e).2 :=
  (Leaves.applyOldest (fun _ => ⟨rfl, id⟩) fun _ _ => ⟨rfl, id⟩).spares e

end Engine

/-! ## Steps -/

namespace Exchange

/-- The types that are known for addresses. -/
def types (x : Exchange) : Osc.Types := x.worker.engine.registry.get?

/-- Whether the types and the order of the threads are spared. -/
def Spares (x y : Exchange) : Prop := x.worker.engine.Spares y.worker.engine

/-- A step in which the rest of the world, if it is what moves, spares both. -/
structure Quiet (x y : Exchange) : Prop where
  step : Step x y
  world : ∀ f : Runner → Runner,
    y = x.advance (Engine.onRunner fun r => ((), f r)) x.stage → Spares x y

variable {x y : Exchange}

theorem Spares.types_eq (h : Spares x y) : y.types = x.types := by
  unfold types
  rw [h.registry]

theorem spares_of_engine (h : y.worker.engine = x.worker.engine) : Spares x y := by
  unfold Spares
  rw [h]
  exact .refl _

theorem spares_note (x : Exchange) (event : Event) (heard : Bool) {worker : Worker}
    (h : worker.engine = x.worker.engine) : Spares x (x.note event heard worker) := by
  refine spares_of_engine ?_
  unfold note
  split
  · exact h
  · exact h

theorem spares_post (x : Exchange) (event : Event) : Spares x (x.post event) :=
  spares_note x event _ (posts_post x.worker event).engine

theorem spares_take (x : Exchange) : Spares x x.take := by
  unfold Spares take Worker.takeOldest
  dsimp only
  split
  · exact .refl _
  · exact ⟨rfl, id⟩

theorem spares_advance {α : Type} {op : EngineM α} (x : Exchange)
    (h : Engine.Leaves Engine.Sparing op) (stage : Stage) : Spares x (x.advance op stage) :=
  h.spares x.worker.engine

theorem spares_apply (x : Exchange) : Spares x x.apply := by
  have hspares := Engine.spares_applyOldest x.worker.engine
  rw [apply_eq]
  split
  · exact hspares
  · exact hspares

theorem spares_tick (x : Exchange) (now : Nat) (stage : Stage) :
    Spares x (x.advance (Engine.resumeDue now) stage) :=
  x.spares_advance (Engine.Leaves.resumeDue (fun _ => ⟨rfl, id⟩) now) stage

/-- Neither the worker nor those who post declare types or disarrange the threads. -/
theorem Quiet.spares (h : Quiet x y) : Spares x y := by
  obtain ⟨hstep, hworld⟩ := h
  cases hstep with
  | post event hhandle => exact spares_post x event
  | shutdown hhandle hplace => exact spares_note x .shutdown _ (posts_shutdown x.worker).engine
  | elsewhere f => exact hworld f rfl
  | start hstage => exact x.spares_advance .start .waiting
  | take hstage hmail => exact spares_take x
  | apply now hstage hinbox => exact spares_apply x
  | tick now hstage hinbox => exact spares_tick x now .waiting
  | _ => exact ⟨rfl, id⟩

theorem Quiet.of_spares (hstep : Step x y) (hspares : Spares x y) : Quiet x y :=
  ⟨hstep, fun _ _ => hspares⟩

/-- Any number of such steps. -/
def Calm : Exchange → Exchange → Prop := Relation.ReflTransGen Quiet

theorem Calm.run (h : Calm x y) : Run x y :=
  Relation.ReflTransGen.mono (fun _ _ hstep => Quiet.step hstep) x y h

end Exchange

end OscHost
