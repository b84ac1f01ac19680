import Mathlib
import OscHost.Proofs.Lines.Reader
/-!
  `ready` is called once.

  However the lines, others who post and the worker come one after the other, `ready` is called for
  the first event of its kind that is applied, and for no other (`Marked`).  An event that was
  accepted is applied once the worker has nothing left to take; so if the mailbox took the event of a
  line, the call was made by then (`ready_called_once`).

  The mailbox takes what is posted while the worker is alive and there is a place in it.  The reader
  does not look whether it did.  With no place left the event is told in the log and dropped, and if no
  other line comes, `ready` is never called although the types are known
  (`not_forall_ready_called`).
-/

namespace OscHost

open Osc (Inbound)

namespace Exchange

variable {x : Exchange}

/-- Declaring types applies nothing. -/
theorem fires_declare (x : Exchange) (defs : List (String × Osc.EndpointType)) :
    Fires x (x.declare defs) [] := .nothing rfl rfl

theorem worker_post (x : Exchange) (event : Event) :
    (x.post event).worker = (x.worker.post event).2 := by
  unfold post note
  split
  · rfl
  · rfl

/-- Posting changes nothing of the worker but what waits. -/
theorem post_kept (x : Exchange) (event : Event) : (x.post event).stage = x.stage ∧
    (x.post event).worker.isRunning = x.worker.isRunning ∧
    (x.post event).handles = x.handles := by
  refine ⟨?_, ?_, ?_⟩
  · unfold post note
    split
    · rfl
    · rfl
  · rw [worker_post]
    exact (posts_post x.worker event).isRunning
  · unfold post note
    split
    · rfl
    · rfl

/-- Whether the first scripts are still to run, someone can post, and nobody asked to end. -/
structure Early (x : Exchange) : Prop where
  stage : x.stage = .starting
  running : x.worker.isRunning = true
  handles : 0 < x.handles
  plain : ∀ p ∈ x.accepted, p.event.endsAll = false

theorem early_new (e : Engine) : (new e).Early :=
  ⟨rfl, rfl, Nat.one_pos, fun _ hp => absurd hp List.not_mem_nil⟩

theorem Early.post (hx : x.Early) {event : Event} (hevent : event.endsAll = false) :
    (x.post event).Early := by
  obtain ⟨hstage, hrunning, hhandles⟩ := x.post_kept event
  refine ⟨hstage.trans hx.stage, hrunning.trans hx.running, hhandles ▸ hx.handles, ?_⟩
  intro p hp
  rw [accepted_post] at hp
  rcases List.mem_append.mp hp with hold | hnew
  · exact hx.plain p hold
  · split at hnew
    · rw [List.mem_singleton.mp hnew]
      exact hevent
    · exact absurd hnew List.not_mem_nil

end Exchange

namespace Intake

variable {e : Engine} {i j : Intake}

/-! ## At most once -/

/-- Whether `ready` was called for the first event of its kind that was applied, and only for that
    one. -/
structure Marked (i : Intake) : Prop where
  fired : i.exchange.fired = i.exchange.discovery.isSome
  readied : i.readied = i.exchange.discovery.toList

/-- What the reader does itself does not call `ready`. -/
theorem Marked.of_fires {x : Exchange} (hi : i.Marked) (hstep : i.exchange.Step x)
    (hx : i.exchange.Tidy) (hfires : i.exchange.Fires x []) :
    x.fired = x.discovery.isSome ∧ i.readied = x.discovery.toList := by
  obtain ⟨hfired, hdiscovery⟩ := hstep.readied_eq hx hi.fired
  rw [hfires.readied_nil, List.append_nil, ← hi.readied] at hdiscovery
  exact ⟨hfired, hdiscovery.symm⟩

theorem Step.marked (h : Step i j) (hx : i.exchange.Tidy) (hi : i.Marked) : j.Marked := by
  cases h with
  | other h =>
    obtain ⟨hfired, hdiscovery⟩ := h.step.readied_eq hx hi.fired
    refine ⟨hfired, ?_⟩
    rw [hdiscovery, hi.readied]
  | pass hheld hsaid => exact ⟨hi.fired, hi.readied⟩
  | @take line said hheld hsaid =>
    obtain ⟨hfired, hreadied⟩ := hi.of_fires (.elsewhere _ fun r => r.declare said.defs) hx
      (i.exchange.fires_declare said.defs)
    exact ⟨hfired, hreadied⟩
  | @tell event hheld hhandle =>
    obtain ⟨hfired, hreadied⟩ := hi.of_fires (.post _ event hhandle) hx
      (i.exchange.fires_post event)
    exact ⟨hfired, hreadied⟩

theorem Run.marked (h : Run i j) (hx : i.exchange.Tidy) (hi : i.Marked) : j.Marked := by
  have hboth := h.keeps (P := fun i => i.exchange.Tidy ∧ i.Marked)
    (fun hstep ⟨hx, hi⟩ => ⟨hstep.exchange.tidy hx, hstep.marked hx hi⟩) ⟨hx, hi⟩
  exact hboth.2

/-- An engine that was told nothing yet has not called `ready`. -/
theorem marked_new (hready : e.readyFired = false) : (new e).Marked := ⟨hready, rfl⟩

theorem Marked.length_le (hi : i.Marked) : i.readied.length ≤ 1 := by
  rw [hi.readied]
  exact Option.length_toList_le

/-- What was called is not undone. -/
theorem Step.readied_prefix (h : Step i j) : i.readied <+: j.readied := by
  cases h with
  | other h => exact List.prefix_append _ _
  | _ => exact List.prefix_refl _

theorem Run.readied_prefix (h : Run i j) : i.readied <+: j.readied := by
  induction h with
  | refl => exact List.prefix_refl _
  | tail _ hstep ih => exact ih.trans hstep.readied_prefix

theorem Run.tidy (h : Run (new e) i) (he : e.inbox = []) : i.exchange.Tidy :=
  (Run.exchange h).tidy (Exchange.tidy_new he)

/-- What the mailbox took is applied once nothing is left. -/
theorem applied_of_heard (he : e.inbox = []) (hrun : Run (new e) i) {t : Telling} (ht : t ∈ i.told)
    (hheard : t.heard) (hdrained : i.exchange.Drained) : t.posting ∈ i.exchange.applied := by
  have haccepted := (hrun.faithful (faithful_new e)).accepted
  have htold : t.posting ∈ (i.told.filter Telling.heard).map (·.posting) :=
    List.mem_map_of_mem (List.mem_filter.mpr ⟨ht, hheard⟩)
  rw [← (hrun.tidy he).accepted_of_drained hdrained]
  exact haccepted.subset htold

/-- `ready` is called at most once, for the first event that endpoints are known that is applied.
    And if such an event was told while the worker was alive and there was a place in the mailbox,
    then it has been called once the worker has nothing left to take, and for good. -/
theorem ready_called_once (he : e.inbox = []) (hready : e.readyFired = false)
    (hrun : Run (new e) i) :
    (∀ e : Engine, (Engine.handle .endpointsDiscovered e).2 =
      if e.callsReady .endpointsDiscovered then (Engine.call Engine.readyHandler [] e.announced).2
      else (Engine.record (.trace "host event: endpoints_discovered") e).2) ∧
    i.readied.length ≤ 1 ∧ i.readied = i.exchange.discovery.toList ∧
    ((∃ t ∈ i.told, t.posting.event = .endpointsDiscovered ∧ t.alive ∧ t.room) →
      i.exchange.Drained → ∃ p, ∀ j, Run i j → j.readied = [p]) := by
  have hx := hrun.tidy he
  have hmarked := hrun.marked (Exchange.tidy_new he) (marked_new hready)
  refine ⟨Engine.handle_discovery, hmarked.length_le, hmarked.readied, ?_⟩
  rintro ⟨t, ht, hevent, halive, hroom⟩ hdrained
  have happlied := applied_of_heard he hrun ht (Bool.and_eq_true_iff.mpr ⟨halive, hroom⟩) hdrained
  have hkind : t.posting.event.isDiscovery = true := by
    rw [hevent]
    rfl
  have hsome : i.exchange.discovery.isSome := List.find?_isSome.mpr ⟨_, happlied, hkind⟩
  obtain ⟨p, hp⟩ := Option.isSome_iff_exists.mp hsome
  have hone : i.readied = [p] := by
    rw [hmarked.readied, hp]
    rfl
  refine ⟨p, fun j hj => ?_⟩
  -- more cannot be called, and what was called is not undone
  have hmore := (hj.marked hx hmarked).length_le
  have hbegins := hj.readied_prefix
  rw [hone] at hbegins
  exact (hbegins.eq_of_length_le hmore).symm

/-! ## Runs of a reader -/

/-- Whatever others and the worker do, the reader may wait for it. -/
theorem run_calm {x : Exchange} (h : i.exchange.Calm x) :
    ∃ readied, Run i { i with exchange := x, readied } := by
  induction h with
  | refl => exact ⟨i.readied, .refl⟩
  | tail _ hstep ih =>
    obtain ⟨readied, hrun⟩ := ih
    exact ⟨_, hrun.tail (.other _ hstep)⟩

/-- From there the worker may run the first scripts, and take and apply all that waits. -/
theorem exists_run_drained (he : e.inbox = []) (hrun : Run (new e) i) (hi : i.exchange.Early) :
    ∃ j, Run i j ∧ j.told = i.told ∧ j.exchange.accepted = i.exchange.accepted ∧
      j.exchange.Drained := by
  let started := i.exchange.advance Engine.start .waiting
  have hstart : i.exchange.Calm started :=
    .single (.of_spares (.start _ hi.stage) (i.exchange.spares_advance .start .waiting))
  have hrunning : started.worker.isRunning = true :=
    (Exchange.isRunning_advance i.exchange Engine.start .waiting).trans hi.running
  -- one round takes all that waits, since nobody posts in between
  obtain ⟨x, hround, -, hrest, hend⟩ := Exchange.run_round (x := started) (by rfl) hrunning
  have hsame := (Exchange.undisturbed_advance i.exchange Engine.start .waiting).trans hrest
  obtain ⟨readied, hcalm⟩ := run_calm (hstart.trans hround)
  have hwhole : Run (new e) _ := hrun.trans hcalm
  have hx := hwhole.tidy he
  refine ⟨_, hcalm, rfl, hsame.accepted, hx.drained_of_round ?_ ?_ hend⟩
  · show 0 < x.handles
    rw [hsame.handles]
    exact hi.handles
  · show ∀ p ∈ x.accepted, p.event.endsAll = false
    rw [hsame.accepted]
    exact hi.plain

/-- A line that tells of endpoints. -/
def discoveryLine : String := "\x7b\"endpoints\":\x7b\x7d\x7d"

theorem said?_discoveryLine : Session.said? discoveryLine = some (.endpoints {}) := by cbv

/-- The reader takes a line that says something, and tells its event. -/
theorem exists_run_line (hi : i.exchange.Early) (hheld : i.held = none) {line : String}
    {said : Inbound} (hsaid : Session.said? line = some said) :
    ∃ j, Run i j ∧ j.exchange.Early ∧ j.held = none ∧ j.lines = i.lines ++ [line] ∧
      ∃ t, j.told = i.told ++ [t] ∧ t.posting.event = said.event ∧ t.alive = true ∧
        t.room = decide (i.exchange.worker.mailbox.events.length < Mailbox.capacity) ∧
        j.exchange.accepted = i.exchange.accepted ++ if t.heard then [t.posting] else [] := by
  have htake := Step.take i hheld hsaid
  have hdeclared : (i.exchange.declare said.defs).Early :=
    ⟨hi.stage, hi.running, hi.handles, hi.plain⟩
  refine ⟨_, (Relation.ReflTransGen.single htake).tail (.tell _ rfl hi.handles),
    hdeclared.post said.endsAll_event, rfl, rfl, _, rfl, rfl, hi.running, rfl, ?_⟩
  exact Exchange.accepted_post ..

/-- Others may post clicks until so many wait. -/
theorem exists_run_clicks {n : Nat} (hn : n ≤ Mailbox.capacity) :
    ∃ i, Run (new e) i ∧ i.exchange.Early ∧ i.held = none ∧ i.told = [] ∧
      i.exchange.worker.mailbox.events.length = n ∧
      ∀ p ∈ i.exchange.accepted, p.event.isDiscovery = false := by
  induction n with
  | zero =>
    exact ⟨new e, .refl, Exchange.early_new e, rfl, rfl, rfl,
      fun _ hp => absurd hp List.not_mem_nil⟩
  | succ n ih =>
    obtain ⟨i, hrun, hi, hheld, htold, hlength, hclicks⟩ := ih (Nat.le_of_succ_le hn)
    -- the mailbox has room for one more as long as it holds less than its capacity
    have hroom : (i.exchange.telling (.menuClicked [])).heard = true := by
      unfold Telling.heard Exchange.telling
      dsimp only
      rw [hi.running, hlength]
      exact decide_eq_true hn
    have hposts := Exchange.posts_post i.exchange.worker (.menuClicked [])
    have hquiet : i.exchange.Quiet (i.exchange.post (.menuClicked [])) :=
      .of_spares (.post _ _ hi.handles) (i.exchange.spares_post _)
    have hplain : Event.endsAll (.menuClicked []) = false := rfl
    refine ⟨_, hrun.tail (.other i hquiet), hi.post hplain, hheld, htold, ?_, ?_⟩
    · show (i.exchange.post (.menuClicked [])).worker.mailbox.events.length = n + 1
      rw [Exchange.worker_post, hposts.events, Exchange.heard_telling, hroom, if_pos rfl,
        List.length_append, hlength]
      rfl
    · intro p hp
      have hp : p ∈ (i.exchange.post (.menuClicked [])).accepted := hp
      rw [Exchange.accepted_post, hroom, if_pos rfl] at hp
      rcases List.mem_append.mp hp with hold | hnew
      · exact hclicks p hold
      · rw [List.mem_singleton.mp hnew]
        rfl

/-- A line that tells of endpoints while the first scripts run has `ready` called. -/
theorem ready_called_once_plainEngine : Exchange.plainEngine.inbox = [] ∧
    Exchange.plainEngine.readyFired = false ∧
    ∃ i, Run (new Exchange.plainEngine) i ∧ ∃ p, ∀ j, Run i j → j.readied = [p] := by
  obtain ⟨i, hrun, hi, -, -, t, htold, hevent, halive, hroom, -⟩ := exists_run_line
    (i := new Exchange.plainEngine) (Exchange.early_new _) rfl said?_discoveryLine
  obtain ⟨j, hrun', htold', -, hdrained⟩ := exists_run_drained rfl hrun hi
  have hin : t ∈ j.told := by
    rw [htold', htold]
    exact List.mem_append_right _ List.mem_cons_self
  have hwhole : Run (new Exchange.plainEngine) j := hrun.trans hrun'
  exact ⟨rfl, rfl, j, hwhole,
    (ready_called_once rfl rfl hwhole).2.2.2 ⟨t, hin, hevent, halive, hroom⟩ hdrained⟩

/-- That the worker is alive is not enough: if the mailbox is full when a line tells of endpoints,
    and all that waited is applied, `ready` is not called. -/
theorem not_forall_ready_called : ¬ ∀ (e : Engine), e.inbox = [] → e.readyFired = false →
    ∀ i, Run (new e) i →
      (∃ t ∈ i.told, t.posting.event = .endpointsDiscovered ∧ t.alive) →
      i.exchange.Drained → i.readied ≠ [] := by
  intro hall
  obtain ⟨i, hrun, hi, hheld, -, hlength, hclicks⟩ :=
    exists_run_clicks (e := Exchange.plainEngine) (Nat.le_refl Mailbox.capacity)
  obtain ⟨j, hrun', hj, -, -, t, htold, hevent, halive, hroom, haccepted⟩ :=
    exists_run_line hi hheld said?_discoveryLine
  have hfirst : Run (new Exchange.plainEngine) j := hrun.trans hrun'
  obtain ⟨k, hrun'', htold', haccepted', hdrained⟩ := exists_run_drained rfl hfirst hj
  have hwhole : Run (new Exchange.plainEngine) k := hfirst.trans hrun''
  have hin : t ∈ k.told := by
    rw [htold', htold]
    exact List.mem_append_right _ List.mem_cons_self
  refine hall _ rfl rfl k hwhole ⟨t, hin, hevent, halive⟩ hdrained ?_
  -- the mailbox did not take the event, so nothing that was applied is of its kind
  have hdropped : t.heard = false := by
    unfold Telling.heard
    rw [halive, hroom, hlength, Bool.true_and]
    exact decide_eq_false (Nat.lt_irrefl _)
  rw [hdropped, if_neg Bool.false_ne_true, List.append_nil] at haccepted
  have hnone : k.exchange.discovery = none := by
    unfold Exchange.discovery
    rw [← (hwhole.tidy rfl).accepted_of_drained hdrained, haccepted', haccepted, List.find?_eq_none]
    intro p hp
    rw [hclicks p hp]
    exact Bool.false_ne_true
  rw [(hwhole.marked (Exchange.tidy_new rfl) (marked_new rfl)).readied, hnone]
  rfl

end Intake

end OscHost
