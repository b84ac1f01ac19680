import OscHost.Proofs.Scheduler.Operations
/-!
  The life of a thread.

  A thread is registered under a number that nobody had before, runs at once, and from then on is
  suspended whenever nobody is running, until it ends or fails.  After that it has no turn any more,
  and it is dropped by the next operation that sweeps.  Nobody else is ever dropped.

  The argument is one invariant, said of a single thread: it is registered as it stood or not at
  all (`OnlyAs`).  A thread that has ended cannot leave it, since it is not due, and neither can a
  thread that is gone, since its number is below the next one.
-/

namespace OscHost

/-- Whether a thread that hands back control so will never run again. -/
def Handback.ended {α : Type} : Handback α → Bool
  | .finished _ | .failed _ => true
  | .yielded _ | .slept _ => false

theorem Handback.isTerminal_state {α : Type} (back : Handback α) (now : Nat) :
    (back.state now).isTerminal = back.ended := by
  cases back <;> rfl

/-- Who will never run again is not due. -/
theorem ThreadState.isDue_of_isTerminal {state : ThreadState} (h : state.isTerminal) (now : Nat) :
    ¬ state.isDue now := by
  cases state with
  | runnable => exact absurd h Bool.false_ne_true
  | suspended wakeAt => exact absurd h Bool.false_ne_true
  | finished => exact Bool.false_ne_true
  | failed message => exact Bool.false_ne_true

namespace Scheduler

variable {σ β α : Type} {w : World σ β α} {k : Scheduler β} {s : σ}

/-- Whether a thread is registered as it stands, or its number is not registered any more. -/
structure OnlyAs (k : Scheduler β) (t : ScriptThread β) : Prop where
  below : t.id < k.nextId
  only : ∀ t' ∈ k.threads, t'.id = t.id → t' = t

theorem Orderly.onlyAs (hk : k.Orderly) {t : ScriptThread β} (ht : t ∈ k.threads) :
    k.OnlyAs t :=
  ⟨hk.below t.id (mem_ids ht), fun _ ht' hid => hk.unique ht' ht hid⟩

namespace OnlyAs

variable {t : ScriptThread β}

/-- Who has ended is not called. -/
theorem not_called (h : k.OnlyAs t) (hended : t.state.isTerminal) (op : Operation σ β α) :
    t.id ∉ op.called k := by
  intro hcalled
  rcases Operation.called_due hcalled with ⟨t', ht', hid⟩ | ⟨now, -, t', ht', hid, hdue⟩
  · have hnext := (Operation.newcomer_called ht').1
    have hbelow := h.below
    omega
  · rw [h.only t' ht' hid] at hdue
    exact ThreadState.isDue_of_isTerminal hended now hdue

/-- A thread that an operation does not call is registered as it stood, or not at all. -/
theorem perform_of_not_called (hk : k.Orderly) (h : k.OnlyAs t) {op : Operation σ β α}
    (hcalled : t.id ∉ op.called k) : (op.perform w k s).1.OnlyAs t := by
  have hdoes := op.does (w := w) hk s
  refine ⟨?_, ?_⟩
  · rw [hdoes.nextId]
    exact Nat.lt_add_right _ h.below
  · intro t' ht' hid
    obtain ⟨old, hold, rfl, -⟩ := (Operation.mem_perform hk).mp ht'
    rw [afterTurns_id] at hid
    rcases List.mem_append.mp hold with hmem | hnew
    · have hturn : old.id ∉ (op.turns w k s).map (·.thread) := by
        rw [hdoes.thread, hid]
        exact hcalled
      rw [afterTurns_of_absent hturn]
      exact h.only old hmem hid
    · exact absurd (hid ▸ (Operation.newcomer_called hnew).2) hcalled

/-- Who has ended stays as it is in every run, as long as it is registered. -/
theorem performAll (hk : k.Orderly) (h : k.OnlyAs t) (hended : t.state.isTerminal)
    (ops : List (Operation σ β α)) : (performAll w ops k s).1.OnlyAs t := by
  induction ops generalizing k s with
  | nil => exact h
  | cons op ops ih =>
    exact ih (hk.perform op s) (h.perform_of_not_called hk (h.not_called hended op))

/-- Who has ended has no turn in any run. -/
theorem no_turn (hk : k.Orderly) (h : k.OnlyAs t) (hended : t.state.isTerminal)
    (ops : List (Operation σ β α)) : t.id ∉ (turnsAll w ops k s).map (·.thread) := by
  induction ops generalizing k s with
  | nil => exact List.not_mem_nil
  | cons op ops ih =>
    have hcalled := h.not_called hended op
    unfold turnsAll
    rw [List.map_append, (op.does hk s).thread, List.mem_append, not_or]
    exact ⟨hcalled, ih (hk.perform op s) (h.perform_of_not_called hk hcalled)⟩

end OnlyAs

/-- A number that was given out and is not registered is not registered by an operation. -/
theorem Operation.not_mem_ids (hk : k.Orderly) (op : Operation σ β α) {id : Nat}
    (hlt : id < k.nextId) (hid : id ∉ k.ids) : id ∉ (op.perform w k s).1.ids := by
  intro hmem
  have hold := (op.ids_sublist hk s).subset hmem
  rw [List.map_append] at hold
  rcases List.mem_append.mp hold with hmem | hnew
  · exact hid hmem
  · obtain ⟨t, ht, rfl⟩ := List.mem_map.mp hnew
    have hnext := (Operation.newcomer_called ht).1
    omega

/-- Numbers are never used again. -/
theorem not_mem_ids_performAll (hk : k.Orderly) (ops : List (Operation σ β α)) {id : Nat}
    (hlt : id < k.nextId) (hid : id ∉ k.ids) : id ∉ (performAll w ops k s).1.ids := by
  induction ops generalizing k s with
  | nil => exact hid
  | cons op ops ih =>
    have hlt' : id < (op.perform w k s).1.nextId := by
      rw [(op.does hk s).nextId]
      exact Nat.lt_add_right _ hlt
    exact ih (hk.perform op s) hlt' (op.not_mem_ids hk hlt hid)

/-- A thread keeps its label and its body. -/
theorem same_thread (hk : k.Orderly) (ops : List (Operation σ β α)) :
    ∀ t' ∈ (performAll w ops k s).1.threads, t'.id < k.nextId →
      ∃ t ∈ k.threads, t.id = t'.id ∧ t.label = t'.label ∧ t.body = t'.body := by
  induction ops generalizing k s with
  | nil => exact fun t' ht' _ => ⟨t', ht', rfl, rfl, rfl⟩
  | cons op ops ih =>
    intro t' ht' hlt
    have hdoes := op.does (w := w) hk s
    have hlt' : t'.id < (op.perform w k s).1.nextId := by
      rw [hdoes.nextId]
      exact Nat.lt_add_right _ hlt
    obtain ⟨t₁, ht₁, hid, hlabel, hbody⟩ := ih (hk.perform op s) t' ht' hlt'
    obtain ⟨t, ht, rfl, -⟩ := (Operation.mem_perform hk).mp ht₁
    rw [afterTurns_id] at hid
    rcases List.mem_append.mp ht with hmem | hnew
    · exact ⟨t, hmem, hid, afterTurns_label.symm.trans hlabel, afterTurns_body.symm.trans hbody⟩
    · have hnext := (Operation.newcomer_called hnew).1
      omega

/-- A sweep drops who has ended. -/
theorem OnlyAs.swept {t : ScriptThread β} (hk : k.Orderly) (h : k.OnlyAs t)
    (hended : t.state.isTerminal) {op : Operation σ β α} (hsweeps : op.sweeps) :
    t.id ∉ (op.perform w k s).1.ids := by
  intro hmem
  obtain ⟨t', ht', hid⟩ := List.mem_map.mp hmem
  have hsame := (h.perform_of_not_called (w := w) (s := s) hk (h.not_called hended op)).only t' ht' hid
  obtain ⟨-, -, -, hstays⟩ := (Operation.mem_perform hk).mp ht'
  rw [hsame] at hstays
  exact hstays ⟨hsweeps, hended⟩

/-- Only a sweep drops, and only who has ended, before it or in its turn. -/
theorem Operation.dropped (hk : k.Orderly) {t : ScriptThread β} (ht : t ∈ k.threads)
    (op : Operation σ β α) (hdropped : t.id ∉ (op.perform w k s).1.ids) :
    op.sweeps ∧ (t.state.isTerminal ∨
      ∃ turn ∈ op.turns w k s, turn.thread = t.id ∧ turn.back.ended) := by
  obtain ⟨hsweeps, hended⟩ : op.sweeps ∧
      (afterTurns (op.time.getD k.now) (op.turns w k s) t).state.isTerminal := by
    -- who is not swept is registered afterwards
    by_contra hstays
    have hmem := (Operation.mem_perform hk).mpr ⟨t, List.mem_append_left _ ht, rfl, hstays⟩
    exact hdropped (afterTurns_id (t := t) ▸ mem_ids hmem)
  refine ⟨hsweeps, ?_⟩
  by_cases hturn : t.id ∈ (op.turns w k s).map (·.thread)
  · obtain ⟨turn, hmem, hid, hafter⟩ := afterTurns_of_present (op.time.getD k.now) hturn
    rw [hafter] at hended
    exact .inr ⟨turn, hmem, hid, turn.back.isTerminal_state _ ▸ hended⟩
  · rw [afterTurns_of_absent hturn] at hended
    exact .inl hended

/-! ## All of it -/

/-- How the threads of a scheduler fare, in every run that starts with it. -/
structure LifeCycle (w : World σ β α) (k : Scheduler β) (s : σ) : Prop where
  /-- Registered numbers are below the next one. -/
  below : ∀ id ∈ k.ids, id < k.nextId
  /-- No two threads have one number. -/
  distinct : k.ids.Nodup
  /-- A number that was given out and is not registered is never registered again. -/
  gone : ∀ id < k.nextId, id ∉ k.ids → ∀ ops, id ∉ (performAll w ops k s).1.ids
  /-- As long as a number is registered it stands for one thread. -/
  same : ∀ ops, ∀ t' ∈ (performAll w ops k s).1.threads, t'.id < k.nextId →
    ∃ t ∈ k.threads, t.id = t'.id ∧ t.label = t'.label ∧ t.body = t'.body
  /-- Nobody is runnable. -/
  settled : ∀ t ∈ k.threads, t.state ≠ .runnable
  /-- Who has ended or failed has no turn any more. -/
  idle : ∀ t ∈ k.threads, t.state.isTerminal →
    ∀ ops, t.id ∉ (turnsAll w ops k s).map (·.thread)
  /-- Who has ended or failed stays as it is, as long as it is registered. -/
  fixed : ∀ t ∈ k.threads, t.state.isTerminal →
    ∀ ops, ∀ t' ∈ (performAll w ops k s).1.threads, t'.id = t.id → t' = t
  /-- Who has ended or failed is dropped by an operation that sweeps. -/
  swept : ∀ t ∈ k.threads, t.state.isTerminal →
    ∀ op : Operation σ β α, op.sweeps → t.id ∉ (op.perform w k s).1.ids
  /-- Only such an operation drops, and only who has ended or failed, before it or in its turn. -/
  dropped : ∀ t ∈ k.threads, ∀ op : Operation σ β α, t.id ∉ (op.perform w k s).1.ids →
    op.sweeps ∧ (t.state.isTerminal ∨
      ∃ turn ∈ op.turns w k s, turn.thread = t.id ∧ turn.back.ended)
  /-- A new thread never vanishes before its first turn. -/
  launched : ∀ now label body args, ∃ back,
    (k.launch w now label body args s).1 = .ok (k.nextId, back)
  /-- The state that a resumption reports is the state that the thread is left in. -/
  resumed : ∀ now id args state, (k.resume w now id args s).1 = .ok state →
    (k.resume w now id args s).2.1.status id = some state

theorem Orderly.lifeCycle (hk : k.Orderly) (s : σ) : LifeCycle w k s where
  below := hk.below
  distinct := hk.nodup
  gone := fun _ hlt hid ops => not_mem_ids_performAll hk ops hlt hid
  same := same_thread hk
  settled := hk.settled
  idle := fun _ ht hended ops => (hk.onlyAs ht).no_turn hk hended ops
  fixed := fun _ ht hended ops => ((hk.onlyAs ht).performAll hk hended ops).only
  swept := fun _ ht hended _ hsweeps => (hk.onlyAs ht).swept hk hended hsweeps
  dropped := fun _ ht op hdropped => op.dropped hk ht hdropped
  launched := by
    intro now label body args
    obtain ⟨back, s', hlaunch⟩ := launch_eq w now k label body args s
    rw [hlaunch]
    exact ⟨back, rfl⟩
  resumed := by
    intro now id args state hok
    -- a refused resumption reports no state at all
    by_cases hdue : (k.status id).any (·.isDue now)
    · obtain ⟨back, s', -, hresume⟩ := resume_eq_of_due (w := w) hdue args s
      have hmem : id ∈ ({ k with now } : Scheduler β).ids := by
        obtain ⟨old, hold, -⟩ := (Option.any_eq_true _ _).mp hdue
        obtain ⟨t, ht, rfl, -⟩ := status_mem hold
        exact mem_ids ht
      rw [hresume] at hok ⊢
      rw [← Except.ok.inj hok]
      exact status_setState hmem _
    · obtain ⟨refusal, hresume⟩ := resume_eq_of_not_due (w := w) hdue args s
      rw [hresume] at hok
      exact nomatch hok

/-- Every scheduler that comes about keeps to the life cycle, whatever its threads do. -/
theorem life_cycle (w : World σ β α) (now : Nat) (s : σ) (ops : List (Operation σ β α)) :
    LifeCycle w (performAll w ops { now } s).1 (performAll w ops { now } s).2 :=
  ((orderly_empty now).performAll ops s).lifeCycle _

end Scheduler

end OscHost
