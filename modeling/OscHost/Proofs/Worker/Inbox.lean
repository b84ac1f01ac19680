import OscHost.Proofs.Menus.Operations
import OscHost.Worker
/-!
  The inbox of the engine belongs to the worker.

  The worker puts events into it and takes them out one by one.  Nothing that an event sets off, no
  thread and no menu, touches the events that wait behind it (`SparesInbox`).  So the inbox is a
  queue: each step takes the event in front and leaves the others, until one ends everything
  (`applyOldest_cons`).
-/

namespace OscHost.Engine

open Script

variable {α : Type}

/-- Whether an operation leaves the events that wait as they are. -/
def SparesInbox (x : EngineM α) : Prop := ∀ e, (x e).2.inbox = e.inbox

/-- Nothing that happens to the machine, to the threads and to the menu is about the inbox. -/
instance : Presents (Keeping Engine.inbox) where
  machine _ := rfl
  threads _ _ _ := rfl
  present _ _ := rfl

namespace SparesInbox

theorem onRunner (f : Runner → α × Runner) : SparesInbox (Engine.onRunner f) := fun _ => rfl

theorem record (r : LogRecord) : SparesInbox (Engine.record r) :=
  (Leaves.record r).keeping

theorem start : SparesInbox Engine.start := Leaves.start.keeping

theorem handle (event : Event) : SparesInbox (Engine.handle event) :=
  (Leaves.handle event fun _ _ => rfl).keeping

theorem resumeDue (now : Nat) : SparesInbox (Engine.resumeDue now) :=
  (Leaves.resumeDue (fun _ => rfl) now).keeping

end SparesInbox

end OscHost.Engine

namespace OscHost

/-- Whether an event ends everything. -/
def Event.endsAll : Event → Bool
  | .shutdown => true
  | .call .. | .message .. | .endpointsDiscovered | .updateMenu _ | .menuClicked _ => false

namespace Engine

/-- The engine goes on after every event but the one that ends everything. -/
theorem handle_goesOn (event : Event) (e : Engine) : (handle event e).1 = ! event.endsAll := by
  cases event <;> rfl

section

variable {α β : Type}

theorem bind_apply (x : EngineM α) (f : α → EngineM β) (e : Engine) :
    (x >>= f) e = f (x e).1 (x e).2 := rfl

theorem pure_apply (a : α) (e : Engine) : (pure a : EngineM α) e = (a, e) := rfl

theorem get_apply (e : Engine) : (get : EngineM Engine) e = (e, e) := rfl

theorem modify_apply (f : Engine → Engine) (e : Engine) :
    (modify f : EngineM PUnit) e = (⟨⟩, f e) := rfl

theorem onRunner_apply (f : Runner → α × Runner) (e : Engine) :
    onRunner f e = ((f e.runner).1, { e with runner := (f e.runner).2 }) := rfl

theorem onVm_apply (f : Vm → α × Vm) (e : Engine) : onVm f e =
    ((f e.runner.vm).1, { e with runner := { e.runner with vm := (f e.runner.vm).2 } }) := rfl

theorem discard_apply (x : EngineM α) (a : β) (e : Engine) :
    (do discard x; return a : EngineM β) e = (a, (x e).2) := rfl

theorem ite_apply (c : Prop) [Decidable c] (x y : EngineM α) (e : Engine) :
    (if c then x else y) e = if c then x e else y e := by
  split <;> rfl

end

/-- To apply is to handle the event in front; after the one that ends everything nothing waits. -/
theorem applyOldest_eq {e : Engine} {event : Event} {rest : List Event}
    (h : e.inbox = event :: rest) :
    applyOldest e =
      if event.endsAll then
        (false, { (handle event { e with inbox := rest }).2 with inbox := [] })
      else (true, (handle event { e with inbox := rest }).2) := by
  have hgoesOn := handle_goesOn event { e with inbox := rest }
  have happly : applyOldest e =
      if (handle event { e with inbox := rest }).1 then
        (true, (handle event { e with inbox := rest }).2)
      else (false, { (handle event { e with inbox := rest }).2 with inbox := [] }) := by
    unfold applyOldest
    rw [bind_apply, get_apply, h]
    simp only [bind_apply, modify_apply, ite_apply, pure_apply]
  rw [happly, hgoesOn]
  cases event.endsAll
  · rfl
  · rfl

/-- Applying takes the event in front, and discards the others if that one ends everything. -/
theorem applyOldest_cons {e : Engine} {event : Event} {rest : List Event}
    (h : e.inbox = event :: rest) :
    (applyOldest e).1 = ! event.endsAll ∧
      (applyOldest e).2.inbox = if event.endsAll then [] else rest := by
  have hspares := SparesInbox.handle event { e with inbox := rest }
  rw [applyOldest_eq h]
  cases event.endsAll
  · exact ⟨rfl, hspares⟩
  · exact ⟨rfl, rfl⟩

theorem applyWaiting_succ (count : Nat) (e : Engine) :
    applyWaiting (count + 1) e =
      if (applyOldest e).1 then applyWaiting count (applyOldest e).2
      else (false, (applyOldest e).2) := by
  rw [applyWaiting, bind_apply, ite_apply, pure_apply]

theorem tick_apply (now : Nat) (e : Engine) :
    tick now e =
      if (applyWaiting e.inbox.length e).1 then
        (true, (resumeDue now (applyWaiting e.inbox.length e).2).2)
      else (false, (applyWaiting e.inbox.length e).2) := by
  unfold tick
  simp only [bind_apply, get_apply, ite_apply, pure_apply]

theorem tickNow_apply (e : Engine) :
    tickNow e = tick e.runner.readClock.1 (onRunner (·.readClock) e).2 := by
  unfold tickNow
  rw [bind_apply]
  rfl

end Engine

end OscHost
