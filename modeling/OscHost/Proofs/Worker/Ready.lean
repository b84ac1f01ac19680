import OscHost.Proofs.Worker.Exchange
/-!
  When `ready` is called.

  The engine calls `ready` when it is told that endpoints are known and was not told before.  Whether
  it was is kept in a flag that nothing else touches: no script, no other event, no menu.  So each
  step raises the flag exactly if it applies such an event, and calls `ready` exactly if the flag was
  down (`Step.readied_eq`).
-/

namespace OscHost

open Script

/-- Whether an event tells that endpoints are known. -/
def Event.isDiscovery : Event → Bool
  | .endpointsDiscovered => true
  | .call .. | .message .. | .updateMenu _ | .menuClicked _ | .shutdown => false

namespace Engine

variable {e : Engine} {event : Event}

/-- Nothing that happens to the machine, to the threads and to the menu is about the flag. -/
instance : Presents (Keeping Engine.readyFired) where
  machine _ := rfl
  threads _ _ _ := rfl
  present _ _ := rfl

/-- Whether `ready` is called when an event is applied. -/
def callsReady (e : Engine) (event : Event) : Bool := ! e.readyFired && event.isDiscovery

/-- An engine that is about to call `ready`. -/
def announced (e : Engine) : Engine :=
  (record (.info ("endpoints discovered; calling " ++ readyHandler ++ "()"))
    { (record (.trace "host event: endpoints_discovered") e).2 with readyFired := true }).2

/-- To apply the event that endpoints are known is to call `ready` the first time, and to do nothing
    but tell of the event later on. -/
theorem handle_discovery (e : Engine) : (handle .endpointsDiscovered e).2 =
    if e.callsReady .endpointsDiscovered then (call readyHandler [] e.announced).2
    else (record (.trace "host event: endpoints_discovered") e).2 := by
  have hhandle : (handle .endpointsDiscovered e).2 =
      (onEndpointsDiscovered (record (.trace "host event: endpoints_discovered") e).2).2 := rfl
  have hflag : (record (.trace "host event: endpoints_discovered") e).2.readyFired = e.readyFired :=
    rfl
  rw [hhandle]
  unfold onEndpointsDiscovered callsReady
  rw [bind_apply, get_apply]
  dsimp only
  rw [hflag]
  cases e.readyFired
  · rfl
  · rfl

/-- The flag is raised by the event that endpoints are known, and by nothing else. -/
theorem readyFired_handle (event : Event) (e : Engine) :
    (handle event e).2.readyFired = (e.readyFired || event.isDiscovery) := by
  by_cases hevent : event = .endpointsDiscovered
  · subst hevent
    have hcall : (call readyHandler [] e.announced).2.readyFired = e.announced.readyFired :=
      (Leaves.call readyHandler []).keeping e.announced
    rw [handle_discovery]
    unfold callsReady
    cases hflag : e.readyFired
    · exact hcall
    · exact hflag
  · have hkeeps : (handle event e).2.readyFired = e.readyFired :=
      (Leaves.handle event fun h => absurd h hevent).keeping e
    have hother : event.isDiscovery = false := by
      cases event with
      | endpointsDiscovered => exact absurd rfl hevent
      | _ => rfl
    rw [hkeeps, hother, Bool.or_false]

theorem readyFired_applyOldest {rest : List Event} (h : e.inbox = event :: rest) :
    (applyOldest e).2.readyFired = (e.readyFired || event.isDiscovery) := by
  have hhandle := readyFired_handle event { e with inbox := rest }
  rw [applyOldest_eq h]
  split
  · exact hhandle
  · exact hhandle

end Engine

namespace Exchange

variable {x y : Exchange}

/-- Whether the engine was told that endpoints are known. -/
def fired (x : Exchange) : Bool := x.worker.engine.readyFired

/-- The postings whose events are applied in a step and have `ready` called. -/
def readied (x y : Exchange) : List Posting :=
  (y.applied.drop x.applied.length).filter fun p => x.worker.engine.callsReady p.event

/-- What a step applies, one posting at most, and what it makes of the flag. -/
structure Fires (x y : Exchange) (new : List Posting) : Prop where
  applied : y.applied = x.applied ++ new
  short : new.length ≤ 1
  fired : y.fired = (x.fired || new.any (·.event.isDiscovery))

/-- A step that applies nothing and keeps the flag. -/
theorem Fires.nothing (happlied : y.applied = x.applied)
    (hflag : y.worker.engine.readyFired = x.worker.engine.readyFired) : Fires x y [] := by
  refine ⟨?_, Nat.zero_le 1, ?_⟩
  · rw [happlied, List.append_nil]
  · unfold Exchange.fired
    rw [hflag]
    exact (Bool.or_false _).symm

/-- Then nothing has `ready` called. -/
theorem Fires.readied_nil (h : Fires x y []) : readied x y = [] := by
  unfold readied
  rw [h.applied, List.append_nil, List.drop_length]
  rfl

theorem fires_note (x : Exchange) (event : Event) (heard : Bool) {worker : Worker}
    (h : worker.engine = x.worker.engine) : Fires x (x.note event heard worker) [] := by
  have hflag : worker.engine.readyFired = x.worker.engine.readyFired := by rw [h]
  unfold note
  split
  · exact .nothing rfl hflag
  · exact .nothing rfl hflag

theorem fires_post (x : Exchange) (event : Event) : Fires x (x.post event) [] :=
  fires_note x event _ (posts_post x.worker event).engine

theorem fires_take (x : Exchange) : Fires x x.take [] := by
  refine .nothing rfl ?_
  show x.worker.takeOldest.engine.readyFired = _
  unfold Worker.takeOldest
  split
  · rfl
  · rfl

theorem fires_advance {α : Type} {op : EngineM α} (x : Exchange)
    (h : Engine.Leaves (Engine.Keeping Engine.readyFired) op) (stage : Stage) :
    Fires x (x.advance op stage) [] :=
  .nothing rfl (h.keeping x.worker.engine)

/-- The event in front is applied, and raises the flag if it is of the kind. -/
theorem Pending.fires_apply (h : x.Pending) (hinbox : x.worker.engine.inbox ≠ []) :
    ∃ new, Fires x x.apply new := by
  obtain ⟨number, numbers, event, rest, hnumbers, hevents, -⟩ := h.taken_cons hinbox
  have htaken : x.taken.take 1 = [⟨number, event⟩] := by
    unfold taken
    rw [hnumbers, hevents]
    rfl
  have hflag := Engine.readyFired_applyOldest hevents
  obtain ⟨hgoesOn, -⟩ := Engine.applyOldest_cons hevents
  have happly := x.apply_eq
  rw [hgoesOn, htaken] at happly
  rw [happly]
  cases hends : event.endsAll with
  | false =>
    refine ⟨[⟨number, event⟩], rfl, Nat.le_refl 1, hflag.trans ?_⟩
    rw [List.any_cons, List.any_nil, Bool.or_false]
    rfl
  | true =>
    -- what ends everything tells nothing of endpoints
    have hother : event.isDiscovery = false := by
      cases event with
      | endpointsDiscovered => exact nomatch hends
      | _ => rfl
    rw [hother, Bool.or_false] at hflag
    exact ⟨[], .nothing rfl hflag⟩

/-- Every step applies one posting at most, and raises the flag if that one is of the kind. -/
theorem Step.fires (h : Step x y) (hx : x.Tidy) : ∃ new, Fires x y new := by
  cases h with
  | post event hhandle => exact ⟨[], fires_post x event⟩
  | shutdown hhandle hplace =>
    exact ⟨[], fires_note x .shutdown _ (posts_shutdown x.worker).engine⟩
  | start hstage => exact ⟨[], x.fires_advance .start .waiting⟩
  | take hstage hmail => exact ⟨[], fires_take x⟩
  | apply now hstage hinbox =>
    have haccounts := hx.accounts
    unfold Accounts at haccounts
    rw [hstage] at haccounts
    exact haccounts.fires_apply hinbox
  | tick now hstage hinbox =>
    exact ⟨[], x.fires_advance (Engine.Leaves.resumeDue (fun _ => rfl) now) .waiting⟩
  | _ => exact ⟨[], .nothing rfl rfl⟩

/-! ## Over a whole run -/

/-- The first posting that was applied of the kind. -/
def discovery (x : Exchange) : Option Posting := x.applied.find? (·.event.isDiscovery)

/-- A step adds to what `ready` was called for what it adds to what was first. -/
theorem Step.readied_eq (h : Step x y) (hx : x.Tidy)
    (hfired : x.fired = x.discovery.isSome) :
    y.fired = y.discovery.isSome ∧
      y.discovery.toList = x.discovery.toList ++ readied x y := by
  obtain ⟨new, happlied, hshort, hflag⟩ := h.fires hx
  have hreadied : readied x y = new.filter fun p => ! x.fired && p.event.isDiscovery := by
    unfold readied
    rw [happlied, List.drop_left]
    rfl
  have hdiscovery : y.discovery = x.discovery.or (new.find? (·.event.isDiscovery)) := by
    unfold discovery
    rw [happlied, List.find?_append]
  rw [hflag, hdiscovery, hreadied, hfired]
  -- once there is a first one it stays the first; before, it can only be what this step applies
  cases x.discovery with
  | some p => exact ⟨rfl, by simp⟩
  | none =>
    rcases new with _ | ⟨p, _ | ⟨q, rest⟩⟩
    · exact ⟨rfl, rfl⟩
    · cases hp : p.event.isDiscovery <;> simp [hp]
    · exact absurd hshort (by simp)

end Exchange

end OscHost
