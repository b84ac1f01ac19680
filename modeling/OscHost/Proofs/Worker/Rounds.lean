import OscHost.Proofs.Worker.Quiet
/-!
  A round of the worker, step by step.

  `Worker.round` takes everything that waits, applies it and resumes the threads that are due, all at
  once.  It is one way for an exchange to go on: the one in which nobody posts meanwhile, and the rest
  of the world keeps to itself.  So what holds of every run of an exchange holds of a worker that goes
  in rounds.
-/

namespace OscHost

namespace Worker

theorem takeAndTick_apply (w : Worker) :
    w.takeAndTick =
      if (Engine.tickNow (w.takeWaiting w.mailbox.events.length).engine).1 then
        ((w.takeWaiting w.mailbox.events.length).onEngine Engine.tickNow).2
      else ((w.takeWaiting w.mailbox.events.length).onEngine Engine.tickNow).2.stopped := rfl

end Worker

namespace Exchange

variable {x : Exchange}

/-- Whether nobody has posted meanwhile, come or gone. -/
structure Undisturbed (x y : Exchange) : Prop where
  next : y.next = x.next
  accepted : y.accepted = x.accepted
  refused : y.refused = x.refused
  handles : y.handles = x.handles

theorem Undisturbed.trans {x y z : Exchange} (h : Undisturbed x y) (h' : Undisturbed y z) :
    Undisturbed x z :=
  ⟨h'.next.trans h.next, h'.accepted.trans h.accepted, h'.refused.trans h.refused,
    h'.handles.trans h.handles⟩

theorem undisturbed_advance {α : Type} (x : Exchange) (op : EngineM α) (stage : Stage) :
    Undisturbed x (x.advance op stage) := ⟨rfl, rfl, rfl, rfl⟩

theorem undisturbed_apply (x : Exchange) : Undisturbed x x.apply := by
  obtain ⟨-, hhandles, hnext, haccepted, hrefused⟩ := apply_kept x
  exact ⟨hnext, haccepted, hrefused, hhandles⟩

/-- Taking everything that waits, event by event. -/
theorem run_takes (hstage : x.stage = .waiting ∨ x.stage = .taking) :
    ∃ y, Calm x y ∧ y.worker = x.worker.takeWaiting x.worker.mailbox.events.length ∧
      y.worker.mailbox.events = [] ∧ Undisturbed x y ∧ (y = x ∨ y.stage = .taking) := by
  generalize hcount : x.worker.mailbox.events.length = count
  induction count generalizing x with
  | zero => exact ⟨x, .refl, rfl, List.eq_nil_of_length_eq_zero hcount,
    ⟨rfl, rfl, rfl, rfl⟩, .inl rfl⟩
  | succ count ih =>
    obtain ⟨event, rest, hevents⟩ := List.exists_cons_of_length_eq_add_one hcount
    have hmail : x.worker.mailbox.events ≠ [] := by
      rw [hevents]
      exact List.cons_ne_nil event rest
    -- taking one leaves one fewer, so the induction is on how many wait
    have hrest : x.take.worker.mailbox.events.length = count := by
      show x.worker.takeOldest.mailbox.events.length = count
      rw [(Worker.takeOldest_of_events hevents).1]
      rw [hevents] at hcount
      exact Nat.succ.inj hcount
    obtain ⟨y, hrun, hworker, hempty, hsame, hy⟩ := ih (x := x.take) (.inr rfl) hrest
    have hstep : Quiet x x.take := .of_spares (.take x hstage hmail) (spares_take x)
    have htaken : Undisturbed x x.take := ⟨rfl, rfl, rfl, rfl⟩
    refine ⟨y, hrun.head hstep, hworker, hempty, htaken.trans hsame, .inr ?_⟩
    rcases hy with rfl | hy
    · rfl
    · exact hy

/-- Applying everything that was taken, event by event. -/
theorem run_applies {now : Nat} (hstage : x.stage = .applying now) :
    ∃ y, Calm x y ∧ Undisturbed x y ∧
      y.worker = (x.worker.onEngine (Engine.applyWaiting x.worker.engine.inbox.length)).2 ∧
      if (Engine.applyWaiting x.worker.engine.inbox.length x.worker.engine).1 then
        y.stage = .applying now ∧ y.worker.engine.inbox = []
      else y.stage = .leaving .asked := by
  generalize hcount : x.worker.engine.inbox.length = count
  induction count generalizing x with
  | zero => exact ⟨x, .refl, ⟨rfl, rfl, rfl, rfl⟩, rfl, hstage, List.eq_nil_of_length_eq_zero hcount⟩
  | succ count ih =>
    obtain ⟨event, rest, hevents⟩ := List.exists_cons_of_length_eq_add_one hcount
    have hinbox : x.worker.engine.inbox ≠ [] := by
      rw [hevents]
      exact List.cons_ne_nil event rest
    have hstep : Quiet x x.apply := .of_spares (.apply x now hstage hinbox) (spares_apply x)
    have hkept : Undisturbed x x.apply := undisturbed_apply x
    obtain ⟨hgoesOn, hrest⟩ := Engine.applyOldest_cons hevents
    rw [Worker.onEngine_apply, Engine.applyWaiting_succ]
    have happly := x.apply_eq
    -- unless the event ends everything, the next one is applied in the same stage
    by_cases hg : (Engine.applyOldest x.worker.engine).1 = true
    · rw [if_pos hg] at happly
      rw [hg, Eq.comm, Bool.not_eq_true'] at hgoesOn
      have hlength : x.apply.worker.engine.inbox.length = count := by
        rw [happly]
        show (Engine.applyOldest x.worker.engine).2.inbox.length = count
        rw [hrest, hgoesOn]
        rw [hevents] at hcount
        exact Nat.succ.inj hcount
      have hstage' : x.apply.stage = .applying now := by
        rw [happly]
        exact hstage
      have hengine : x.apply.worker.engine = (Engine.applyOldest x.worker.engine).2 := by
        rw [happly]
        rfl
      obtain ⟨y, hrun, hsame, hworker, hend⟩ := ih hstage' hlength
      rw [if_pos hg, ← hengine]
      refine ⟨y, hrun.head hstep, hkept.trans hsame, ?_, hend⟩
      rw [hworker, Worker.onEngine_apply, (apply_kept x).1]
    · rw [if_neg hg] at happly ⊢
      refine ⟨x.apply, .single hstep, hkept, ?_, ?_⟩
      · rw [happly]
        rfl
      · rw [if_neg Bool.false_ne_true, happly]

/-- A tick begins once nothing waits in the mailbox any more. -/
theorem quiet_beginTick {y : Exchange} (hy : y = x ∧ x.stage = .waiting ∨ y.stage = .taking)
    (hempty : y.worker.mailbox.events = []) : Quiet y y.beginTick := by
  rcases hy with ⟨rfl, hstage⟩ | hstage
  · exact .of_spares (.timeout y hstage) ⟨rfl, id⟩
  · exact .of_spares (.empty y hstage hempty) ⟨rfl, id⟩

/-- Once a tick has begun, it applies what was taken and resumes who is due, or the worker ends. -/
theorem run_tick {now : Nat} (hstage : x.stage = .applying now) :
    ∃ y, Calm x y ∧ Undisturbed x y ∧
      y.worker = (if (Engine.tick now x.worker.engine).1 then
        (x.worker.onEngine (Engine.tick now)).2
        else (x.worker.onEngine (Engine.tick now)).2.stopped) ∧
      (y.stage = .waiting ∧ y.worker.mailbox = x.worker.mailbox ∨ y.stage = .gone .asked) := by
  obtain ⟨y, hrun, hsame, hworker, hend⟩ := run_applies hstage
  rw [Worker.onEngine_apply, Engine.tick_apply]
  -- if nothing ends, the due threads are resumed; otherwise the worker is gone
  by_cases hg : (Engine.applyWaiting x.worker.engine.inbox.length x.worker.engine).1 = true
  · rw [if_pos hg] at hend ⊢
    obtain ⟨hstage', hinbox⟩ := hend
    rw [if_pos rfl]
    have hstep : Quiet y (y.advance (Engine.resumeDue now) .waiting) :=
      .of_spares (.tick y now hstage' hinbox) (spares_tick y now .waiting)
    refine ⟨_, hrun.tail hstep, hsame.trans ⟨rfl, rfl, rfl, rfl⟩, ?_, .inl ⟨rfl, ?_⟩⟩
    · show (y.worker.onEngine (Engine.resumeDue now)).2 = _
      rw [hworker, Worker.onEngine_apply, Worker.onEngine_apply]
    · show (y.worker.onEngine (Engine.resumeDue now)).2.mailbox = _
      rw [hworker, Worker.onEngine_apply, Worker.onEngine_apply]
  · rw [if_neg hg] at hend ⊢
    rw [if_neg Bool.false_ne_true]
    refine ⟨_, hrun.tail (.of_spares (.close y .asked hend) ⟨rfl, id⟩),
      hsame.trans ⟨rfl, rfl, rfl, rfl⟩, ?_, .inr rfl⟩
    show y.worker.stopped = _
    rw [hworker, Worker.onEngine_apply]

/-- A round is a run in which nobody posts: it ends with nothing left to take, or with the worker
    gone. -/
theorem run_round (hstage : x.stage = .waiting) (hrunning : x.worker.isRunning) :
    ∃ y, Calm x y ∧ y.worker = x.worker.round ∧ Undisturbed x y ∧
      (y.stage = .waiting ∧ y.worker.mailbox.events = [] ∨ ∃ why, y.stage = .gone why) := by
  unfold Worker.round
  rw [if_neg (by rw [hrunning]; decide)]
  -- either nobody is left and nothing waits, or what waits is taken and a tick begins
  by_cases hidle : x.worker.mailbox.events.isEmpty && ! x.worker.mailbox.hasSenders
  · rw [if_pos hidle]
    rw [Bool.and_eq_true, Bool.not_eq_true', List.isEmpty_iff] at hidle
    obtain ⟨hempty, hsenders⟩ := hidle
    let told := x.advance (Engine.record (.info "all host handles dropped")) (.leaving .abandoned)
    have habandon : Quiet x told := .of_spares (.abandon x hstage hempty hsenders) ⟨rfl, id⟩
    have hclose : Quiet told _ := .of_spares (.close told .abandoned rfl) ⟨rfl, id⟩
    exact ⟨_, (Relation.ReflTransGen.single habandon).tail hclose, rfl,
      ⟨rfl, rfl, rfl, rfl⟩, .inr ⟨_, rfl⟩⟩
  · rw [if_neg hidle, Worker.takeAndTick_apply]
    obtain ⟨y, hrun, hworker, hempty, hsame, hy⟩ := run_takes (.inl hstage)
    have hbegin : Quiet y y.beginTick :=
      quiet_beginTick (hy.imp_left fun hsame => ⟨hsame, hstage⟩) hempty
    obtain ⟨z, hrun', hsame', hworker', hend⟩ := run_tick (x := y.beginTick) rfl
    have hbegun : Undisturbed y y.beginTick := ⟨rfl, rfl, rfl, rfl⟩
    refine ⟨z, (hrun.tail hbegin).trans hrun', ?_, hsame.trans (hbegun.trans hsame'), ?_⟩
    · rw [hworker', ← hworker, Worker.onEngine_apply _ Engine.tickNow, Engine.tickNow_apply]
      rfl
    · refine hend.imp ?_ fun hgone => ⟨_, hgone⟩
      rintro ⟨hwaits, hmailbox⟩
      refine ⟨hwaits, ?_⟩
      rw [hmailbox]
      exact hempty

end Exchange

end OscHost
