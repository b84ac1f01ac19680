import OscHost.Proofs.FirstSteps
import OscHost.Proofs.Worker.Rounds
/-!
  What becomes of an event that is posted.

  Whoever posts and whenever, the events that are applied are those that were accepted, each once
  and in the order in which they were accepted, up to the one that ends everything.  This is read
  off the accounts of an exchange.
-/

namespace OscHost.Exchange

variable {x : Exchange}

/-- What was accepted before the event that ends everything. -/
def due (x : Exchange) : List Posting := x.accepted.takeWhile (! ·.event.endsAll)

/-- What became of the events that were posted. -/
structure Delivered (x : Exchange) : Prop where
  /-- What was applied is the beginning of what was accepted, and none of it ends everything. -/
  inOrder : x.applied <+: x.due
  /-- Nothing was applied twice. -/
  once : (x.applied.map (·.number)).Nodup
  /-- Nothing was applied that was refused. -/
  refused : ∀ p ∈ x.refused, p.number ∉ x.applied.map (·.number)
  /-- A worker that was asked to end has applied all that was accepted before. -/
  asked : x.stage = .leaving .asked ∨ x.stage = .gone .asked →
    x.applied = x.due ∧ ∃ p ∈ x.accepted, p.event.endsAll
  /-- A worker that was abandoned has applied all that was accepted. -/
  abandoned : x.stage = .leaving .abandoned ∨ x.stage = .gone .abandoned → x.applied = x.accepted

namespace Tidy

variable (hx : x.Tidy)
include hx

/-- Events that were applied are not cut off. -/
theorem takeWhile_applied (l : List Posting) :
    (x.applied ++ l).takeWhile (! ·.event.endsAll) =
      x.applied ++ l.takeWhile (! ·.event.endsAll) := by
  refine List.takeWhile_append_of_pos fun p hp => ?_
  have hplain := hx.plain p hp
  rw [Bool.not_eq_true] at hplain
  rw [hplain]
  rfl

theorem due_of_cutShort (h : x.CutShort) : x.applied = x.due := by
  obtain ⟨last, rest, haccepted, hends⟩ := h
  unfold due
  rw [haccepted, hx.takeWhile_applied, List.takeWhile_cons_of_neg (by rw [hends]; decide),
    List.append_nil]

theorem accepted_eq : ∃ rest, x.accepted = x.applied ++ rest := by
  rcases hx.accounts.forms with hpending | ⟨-, last, rest, haccepted, -⟩ | ⟨hall, -⟩
  · exact ⟨x.taken ++ x.waiting, by rw [hpending.accepted, List.append_assoc]⟩
  · exact ⟨last :: rest, haccepted⟩
  · exact ⟨[], by rw [hall, List.append_nil]⟩

theorem delivered : x.Delivered := by
  obtain ⟨rest, haccepted⟩ := hx.accepted_eq
  have hdistinct := hx.distinct
  rw [haccepted, List.append_assoc, List.map_append, List.nodup_append] at hdistinct
  refine ⟨?_, hdistinct.1, ?_, ?_, fun hstage => (hx.accounts.settled hstage).1.symm⟩
  · -- nothing that was applied ends everything, so what is due goes on behind it
    unfold due
    rw [haccepted, hx.takeWhile_applied]
    exact List.prefix_append _ _
  · -- a refused posting stands behind the applied ones in a list without repetition
    intro p hp hnumber
    have hlater : p.number ∈ (rest ++ x.refused).map (·.number) :=
      List.mem_map_of_mem (List.mem_append_right _ hp)
    exact hdistinct.2.2 p.number hnumber p.number hlater rfl
  · intro hstage
    have hdue := hx.due_of_cutShort (hx.accounts.cutShort hstage)
    obtain ⟨last, later, haccepted', hends⟩ := hx.accounts.cutShort hstage
    refine ⟨hdue, last, ?_, hends⟩
    rw [haccepted']
    exact List.mem_append_right _ List.mem_cons_self

end Tidy

/-! ## Nothing left -/

/-- Whether the worker has nothing left to take or to apply, and was not asked to end. -/
structure Drained (x : Exchange) : Prop where
  mailbox : x.worker.mailbox.events = []
  inbox : x.worker.engine.inbox = []
  notAsked : x.stage ≠ .leaving .asked ∧ x.stage ≠ .gone .asked

/-- Then all that was accepted was applied. -/
theorem Tidy.accepted_of_drained (hx : x.Tidy) (h : x.Drained) : x.accepted = x.applied := by
  rcases hx.accounts.forms with hpending | ⟨hstage, -⟩ | ⟨hall, -⟩
  · exact hpending.accepted_eq_applied h.inbox h.mailbox
  · exact absurd hstage (not_or.mpr h.notAsked)
  · exact hall

/-- After a round in which nobody was asked to end, and someone can still post, nothing is left. -/
theorem Tidy.drained_of_round (hx : x.Tidy) (hhandle : 0 < x.handles)
    (hplain : ∀ p ∈ x.accepted, p.event.endsAll = false)
    (hend : x.stage = .waiting ∧ x.worker.mailbox.events = [] ∨ ∃ why, x.stage = .gone why) :
    x.Drained := by
  rcases hend with ⟨hstage, hempty⟩ | ⟨why, hstage⟩
  · have haccounts := hx.accounts
    unfold Accounts at haccounts
    rw [hstage] at haccounts
    refine ⟨hempty, haccounts.2, ?_, ?_⟩
    · rw [hstage]
      exact nofun
    · rw [hstage]
      exact nofun
  · cases why with
    | asked =>
      -- whoever asks posts an event that ends everything
      obtain ⟨last, rest, haccepted, hends⟩ := hx.accounts.cutShort (.inr hstage)
      have hlast : last ∈ x.accepted := haccepted ▸ List.mem_append_right _ List.mem_cons_self
      rw [hplain last hlast] at hends
      exact absurd hends Bool.false_ne_true
    | abandoned =>
      have hnobody := (hx.accounts.settled (.inr hstage)).2
      omega

/-- After a round in which someone can still post, and had asked the worker to end, it has. -/
theorem Tidy.gone_of_round (hx : x.Tidy) (hhandle : 0 < x.handles)
    (hasked : ∃ p ∈ x.accepted, p.event.endsAll)
    (hend : x.stage = .waiting ∧ x.worker.mailbox.events = [] ∨ ∃ why, x.stage = .gone why) :
    x.stage = .gone .asked := by
  obtain ⟨p, hp, hends⟩ := hasked
  rcases hend with ⟨hstage, hempty⟩ | ⟨_ | _, hstage⟩
  · -- a worker that waits with nothing to take has applied all, which no such event is
    have haccounts := hx.accounts
    unfold Accounts at haccounts
    rw [hstage] at haccounts
    rw [haccounts.1.accepted_eq_applied haccounts.2 hempty] at hp
    exact absurd hends (hx.plain p hp)
  · exact hstage
  · have hnobody := (hx.accounts.settled (.inr hstage)).2
    omega

/-! ## Runs of an exchange -/

/-- An exchange that begins: the worker has just been made, and one can post. -/
def new (e : Engine) : Exchange := { worker := { engine := e } }

theorem isRunning_advance {α : Type} (x : Exchange) (op : EngineM α) (stage : Stage) :
    (x.advance op stage).worker.isRunning = x.worker.isRunning := rfl

theorem applied_advance {α : Type} (x : Exchange) (op : EngineM α) (stage : Stage) :
    (x.advance op stage).applied = x.applied := rfl

/-- A step adds to what was applied just by having the engine handle the event in front of its
    inbox. -/
theorem Step.applied_cases {y : Exchange} (h : Step x y) (hx : x.Tidy) :
    y.applied = x.applied ∨ ∃ p rest, x.worker.engine.inbox = p.event :: rest ∧
      y.applied = x.applied ++ [p] ∧
      y.worker.engine = (Engine.handle p.event { x.worker.engine with inbox := rest }).2 := by
  have noted (event : Event) (heard : Bool) (w : Worker) :
      (x.note event heard w).applied = x.applied := by
    unfold note
    split <;> rfl
  cases h with
  | post event => exact .inl (noted ..)
  | shutdown => exact .inl (noted ..)
  | apply now hstage hinbox =>
    have hpending := hx.accounts
    unfold Accounts at hpending
    rw [hstage] at hpending
    obtain ⟨number, numbers, event, rest, hnumbers, hevents, -⟩ := hpending.taken_cons hinbox
    have htaken : x.taken.take 1 = [⟨number, event⟩] := by
      unfold taken
      rw [hnumbers, hevents]
      rfl
    have happly := x.apply_eq
    rw [htaken, Worker.onEngine_apply, Engine.applyOldest_eq hevents] at happly
    rw [happly]
    cases event.endsAll with
    | true => exact .inl rfl
    | false => exact .inr ⟨⟨number, event⟩, rest, hevents, rfl, rfl⟩
  | elsewhere => exact .inl (applied_advance ..)
  | start => exact .inl (applied_advance ..)
  | timeout => exact .inl (applied_advance ..)
  | empty => exact .inl (applied_advance ..)
  | tick => exact .inl (applied_advance ..)
  | abandon => exact .inl (applied_advance ..)
  | _ => exact .inl rfl

/-- Events are applied once each and in the order in which they were accepted, whatever those who
    post and the worker do one after the other.  And to apply an event is to have the engine handle
    it: no step adds anything else to what was applied. -/
theorem applied_in_order (e : Engine) (he : e.inbox = []) (x : Exchange) (h : Run (new e) x) :
    x.Delivered ∧ ∀ y, Step x y →
      y.applied = x.applied ∨ ∃ p rest, x.worker.engine.inbox = p.event :: rest ∧
        y.applied = x.applied ++ [p] ∧
        y.worker.engine = (Engine.handle p.event { x.worker.engine with inbox := rest }).2 := by
  have hx := Run.tidy h (tidy_new he)
  exact ⟨hx.delivered, fun _ hstep => hstep.applied_cases hx⟩

/-! ## A worker that is asked to end -/

/-- An engine with two empty roots. -/
def plainEngine : Engine :=
  { runner := { vm := Vm.new plainHost }, config := Config.new "/lua" }

/-- Whether a worker that has ended takes no events. -/
def Closed (x : Exchange) : Prop := ∀ why, x.stage = .gone why → x.worker.isRunning = false

theorem Step.closed {y : Exchange} (h : Step x y) (hx : x.Closed) : y.Closed := by
  have noted {event : Event} {heard : Bool} {w : Worker} (hw : w.isRunning = x.worker.isRunning) :
      (x.note event heard w).Closed := by
    unfold note
    split
    · exact fun why hstage => hw.trans (hx why hstage)
    · exact fun why hstage => hw.trans (hx why hstage)
  cases h with
  | post event => exact noted (posts_post ..).isRunning
  | shutdown => exact noted (posts_shutdown ..).isRunning
  | clone | drop | dropLast | elsewhere => exact hx
  | apply now hstage =>
    intro why hgone
    rw [apply_eq] at hgone
    split at hgone
    · exact nomatch hstage.symm.trans hgone
    · exact nomatch hgone
  | close => exact fun _ _ => rfl
  | _ => exact nofun

theorem Run.closed {y : Exchange} (h : Run x y) (hx : x.Closed) : y.Closed := by
  induction h with
  | refl => exact hx
  | tail _ hstep ih => exact hstep.closed ih

/-- What is posted to such a worker is refused. -/
theorem post_of_ended (h : x.worker.isRunning = false) (event : Event) : x.post event =
    { x with next := x.next + 1, refused := x.refused ++ [⟨x.next, event⟩] } := by
  have hclosed : (! x.worker.mailbox.isOpen) = true := by
    rw [Bool.not_eq_true']
    exact h
  unfold post Worker.post Mailbox.post
  rw [if_pos hclosed]
  rfl

/-- Four events that two handles have posted while the first scripts run, one of them the one that
    ends everything. -/
def rush : Exchange :=
  let both := { (new plainEngine).post (.call "a" []) with handles := 2 }
  ((both.post .endpointsDiscovered).shutdown).post (.menuClicked [])

theorem run_rush : Run (new plainEngine) rush := by
  have hfirst : Run (new plainEngine) ((new plainEngine).post (.call "a" [])) :=
    .single (.post _ _ Nat.one_pos)
  have hcloned := hfirst.tail (.clone _ Nat.one_pos)
  have hsecond := hcloned.tail (.post _ .endpointsDiscovered Nat.two_pos)
  have hasked := hsecond.tail (.shutdown _ Nat.two_pos fun _ => by decide)
  exact hasked.tail (.post _ (.menuClicked []) Nat.two_pos)

theorem rush_accepted : rush.accepted = [⟨0, .call "a" []⟩, ⟨1, .endpointsDiscovered⟩,
    ⟨2, .shutdown⟩, ⟨3, .menuClicked []⟩] := rfl

/-- The worker applies the first two in the order in which they were posted and no other, and what is
    posted to it later is refused. -/
theorem plainEngine_delivers : plainEngine.inbox = [] ∧ ∃ x, Run (new plainEngine) x ∧
    x.handles = 2 ∧ x.accepted = [⟨0, .call "a" []⟩, ⟨1, .endpointsDiscovered⟩, ⟨2, .shutdown⟩,
      ⟨3, .menuClicked []⟩] ∧ x.refused = [⟨4, .endpointsDiscovered⟩] ∧
    x.applied = [⟨0, .call "a" []⟩, ⟨1, .endpointsDiscovered⟩] ∧ x.Delivered := by
  have hstarted : Run (new plainEngine) (rush.advance Engine.start .waiting) :=
    run_rush.tail (.start _ rfl)
  have hrunning : (rush.advance Engine.start .waiting).worker.isRunning = true :=
    (isRunning_advance rush Engine.start .waiting).trans rfl
  obtain ⟨y, hround, -, hsame, hend⟩ := run_round rfl hrunning
  have hrun : Run (new plainEngine) y := hstarted.trans hround.run
  have haccepted : y.accepted = rush.accepted := hsame.accepted
  have hhandles : y.handles = 2 := hsame.handles
  have hgone : y.stage = .gone .asked := by
    refine (Run.tidy hrun (tidy_new rfl)).gone_of_round ?_ ?_ hend
    · rw [hhandles]
      exact Nat.two_pos
    · rw [haccepted, rush_accepted]
      exact ⟨⟨2, .shutdown⟩, .tail _ (.tail _ (.head _)), rfl⟩
  have hended := Run.closed hrun (fun _ hstage => nomatch hstage) _ hgone
  have hlate : Run (new plainEngine) (y.post .endpointsDiscovered) :=
    hrun.tail (.post y _ (hhandles ▸ Nat.two_pos))
  have hpost := post_of_ended hended .endpointsDiscovered
  have hrefused : (y.post .endpointsDiscovered).refused = [⟨4, .endpointsDiscovered⟩] := by
    rw [hpost, hsame.refused, hsame.next]
    rfl
  have hdelivered := (applied_in_order plainEngine rfl _ hlate).1
  refine ⟨rfl, _, hlate, ?_, ?_, hrefused, ?_, hdelivered⟩
  · rw [hpost]
    exact hhandles
  · rw [hpost]
    exact haccepted.trans rush_accepted
  · have hcut := (hdelivered.asked (.inr (hpost ▸ hgone))).1
    rw [hcut, due, hpost]
    show y.accepted.takeWhile _ = _
    rw [haccepted, rush_accepted]
    rfl

end OscHost.Exchange
