import OscHost.Proofs.Scheduler.Operations
/-!
  How long a thread sleeps.

  A thread that naps is suspended until the time of its turn and the length of the nap together,
  whatever the clock showed before and will show later: the wake time is a number that nobody
  changes but the thread itself, by another turn.  So until that time it has no turn, and the first
  tick from that time on gives it one.

  The one proviso is that the wake time exists, which it does for every time that is a year or more
  before the last moment of the clock.
-/

namespace OscHost

theorem Nap.wakeAt_eq_some {now : Nat} (h : now + maxSleep ≤ lastMoment) (nap : Nap) :
    nap.wakeAt now = some (now + nap.ns) := by
  have hle := nap.le_maxSleep
  unfold wakeAt
  rw [if_pos (by omega)]

namespace Scheduler

variable {σ β α : Type} {w : World σ β α} {k : Scheduler β} {s : σ}

/-! ## A status and who changes it -/

theorem Orderly.status_eq_some_iff (hk : k.Orderly) {id : Nat} {state : ThreadState} :
    k.status id = some state ↔ ∃ t ∈ k.threads, t.id = id ∧ t.state = state := by
  constructor
  · exact status_mem
  · rintro ⟨t, ht, rfl, rfl⟩
    exact hk.status_eq_some ht

/-- A thread that an operation does not call stands as before. -/
theorem Operation.status_of_not_called (hk : k.Orderly) (op : Operation σ β α) {id : Nat}
    {state : ThreadState} (hstate : k.status id = some state) (hgoes : ¬ state.isTerminal)
    (hcalled : id ∉ op.called k) : (op.perform w k s).1.status id = some state := by
  obtain ⟨t, ht, rfl, rfl⟩ := status_mem hstate
  have hturn : t.id ∉ (op.turns w k s).map (·.thread) := by
    rw [(op.does hk s).thread]
    exact hcalled
  have hsame : afterTurns (op.time.getD k.now) (op.turns w k s) t = t := afterTurns_of_absent hturn
  have hmem : t ∈ (op.perform w k s).1.threads :=
    (mem_perform hk).mpr ⟨t, List.mem_append_left _ ht, hsame, fun h => hgoes h.2⟩
  exact (hk.perform op s).status_eq_some hmem

/-- A thread that had a turn stands as it handed back control. -/
theorem Operation.status_of_turn (hk : k.Orderly) (op : Operation σ β α) {turn : Turn α}
    (hturn : turn ∈ op.turns w k s) (hgoes : ¬ (turn.back.state (op.time.getD k.now)).isTerminal) :
    (op.perform w k s).1.status turn.thread = some (turn.back.state (op.time.getD k.now)) := by
  have hmem : turn.thread ∈ (op.turns w k s).map (·.thread) := List.mem_map_of_mem hturn
  have hcalled : turn.thread ∈ op.called k := by
    rw [← (op.does (w := w) hk s).thread]
    exact hmem
  -- whoever is called is registered, before or by the operation itself
  have hold : ∃ old ∈ k.threads ++ op.newcomer k, old.id = turn.thread := by
    rcases Operation.called_due hcalled with ⟨t, ht, hid⟩ | ⟨-, -, t, ht, hid, -⟩
    · exact ⟨t, List.mem_append_right _ ht, hid⟩
    · exact ⟨t, List.mem_append_left _ ht, hid⟩
  obtain ⟨old, hold, hid⟩ := hold
  obtain ⟨turn', hturn', hid', hafter⟩ :=
    afterTurns_of_present (t := old) (op.time.getD k.now) (hid ▸ hmem)
  have hsame : turn' = turn := turn_unique (turns_nodup hk) hturn' hturn (hid'.trans hid)
  rw [hsame] at hafter
  have hmem' := (mem_perform (w := w) (s := s) hk).mpr
    ⟨old, hold, hafter, fun h => hgoes h.2⟩
  exact ((hk.perform op s).status_eq_some_iff).mpr ⟨_, hmem', hid, rfl⟩

/-- A thread that has no turn in a run stands as before. -/
theorem status_performAll (hk : k.Orderly) (ops : List (Operation σ β α)) {id : Nat}
    {state : ThreadState} (hstate : k.status id = some state) (hgoes : ¬ state.isTerminal)
    (hidle : id ∉ (turnsAll w ops k s).map (·.thread)) :
    (performAll w ops k s).1.status id = some state := by
  induction ops generalizing k s with
  | nil => exact hstate
  | cons op ops ih =>
    unfold turnsAll at hidle
    rw [List.map_append, List.mem_append, not_or, (op.does hk s).thread] at hidle
    exact ih (hk.perform op s) (op.status_of_not_called hk hstate hgoes hidle.1) hidle.2

/-! ## Who sleeps -/

/-- No operation calls a thread before its wake time. -/
theorem Operation.not_called_early (hk : k.Orderly) (op : Operation σ β α) {id wake : Nat}
    (hstate : k.status id = some (.suspended (some wake)))
    (hearly : ∀ now ∈ op.time, now < wake) : id ∉ op.called k := by
  intro hcalled
  obtain ⟨t, ht, rfl, hsleeps⟩ := status_mem hstate
  rcases Operation.called_due hcalled with ⟨t', ht', hid⟩ | ⟨now, htime, t', ht', hid, hdue⟩
  · have hnext := (newcomer_called ht').1
    have hbelow := hk.below t.id (mem_ids ht)
    omega
  · rw [hk.unique ht' ht hid, hsleeps] at hdue
    have hlate : wake ≤ now := decide_eq_true_iff.mp hdue
    have hbefore := hearly now htime
    omega

/-- A tick from the wake time on calls a thread once. -/
theorem Operation.called_once (hk : k.Orderly) {id wake now : Nat}
    (hstate : k.status id = some (.suspended (some wake))) (hlate : wake ≤ now) :
    (((tick now : Operation σ β α).turns w k s).map (·.thread)).count id = 1 := by
  obtain ⟨t, ht, rfl, hsleeps⟩ := status_mem hstate
  have hdue : t.state.isDue now := by
    rw [hsleeps]
    exact decide_eq_true hlate
  have hmem : t.id ∈ ((tick now : Operation σ β α).turns w k s).map (·.thread) := by
    rw [((tick now : Operation σ β α).does hk s).thread]
    exact mem_due.mpr ⟨t, ht, hdue, rfl⟩
  exact List.count_eq_one_of_mem (turns_nodup hk) hmem

/-- Whether the last turn of a thread in a run came at a time, and ended with a nap. -/
structure LastSlept (w : World σ β α) (start : Nat) (s : σ) (before : List (Operation σ β α))
    (op : Operation σ β α) (after : List (Operation σ β α)) (id t : Nat) (nap : Nap) : Prop where
  time : op.time = some t
  slept : ⟨id, .slept nap⟩ ∈
    op.turns w (performAll w before { now := start } s).1 (performAll w before { now := start } s).2
  last : id ∉ (turnsAll w after (performAll w (before ++ [op]) { now := start } s).1
    (performAll w (before ++ [op]) { now := start } s).2).map (·.thread)

theorem performAll_append (ops ops' : List (Operation σ β α)) (k : Scheduler β) (s : σ) :
    performAll w (ops ++ ops') k s =
      performAll w ops' (performAll w ops k s).1 (performAll w ops k s).2 := by
  induction ops generalizing k s with
  | nil => rfl
  | cons op ops ih => exact ih _ _

/-- After its last nap a thread is suspended until the nap is over. -/
theorem LastSlept.status {start : Nat} {before after : List (Operation σ β α)}
    {op : Operation σ β α} {id t : Nat} {nap : Nap}
    (h : LastSlept w start s before op after id t nap) (hroom : t + maxSleep ≤ lastMoment) :
    (performAll w (before ++ op :: after) { now := start } s).1.status id =
      some (.suspended (some (t + nap.ns))) := by
  obtain ⟨htime, hslept, hlast⟩ := h
  have hbefore : (performAll w before { now := start } s).1.Orderly :=
    (orderly_empty start).performAll before s
  rw [performAll_append] at hlast ⊢
  have hwake : (Handback.slept nap : Handback α).state (op.time.getD
      (performAll w before { now := start } s).1.now) = .suspended (some (t + nap.ns)) := by
    rw [htime]
    exact congrArg ThreadState.suspended (nap.wakeAt_eq_some hroom)
  have hstate := op.status_of_turn hbefore hslept (by rw [hwake]; exact Bool.false_ne_true)
  rw [hwake] at hstate
  exact status_performAll (hbefore.perform op _) after hstate Bool.false_ne_true hlast

/-- The threads that an operation gives a turn after a run of a new scheduler, in order. -/
def calledAfter (w : World σ β α) (start : Nat) (s : σ) (ops : List (Operation σ β α))
    (op : Operation σ β α) : List Nat :=
  (op.turns w (performAll w ops { now := start } s).1
    (performAll w ops { now := start } s).2).map (·.thread)

/-- A thread that naps has no turn until its nap is over, and the first tick from then on gives it
    one. -/
theorem sleep_contract (w : World σ β α) (start : Nat) (s : σ)
    (before : List (Operation σ β α)) (op : Operation σ β α) (after : List (Operation σ β α))
    (id t : Nat) (nap : Nap) (h : LastSlept w start s before op after id t nap)
    (hroom : t + maxSleep ≤ lastMoment) :
    (∀ next : Operation σ β α, (∀ now ∈ next.time, now < t + nap.ns) →
      id ∉ calledAfter w start s (before ++ op :: after) next) ∧
    ∀ now, t + nap.ns ≤ now →
      (calledAfter w start s (before ++ op :: after) (.tick now)).count id = 1 := by
  have hk : (performAll w (before ++ op :: after) { now := start } s).1.Orderly :=
    (orderly_empty start).performAll _ s
  have hstate := h.status hroom
  unfold calledAfter
  constructor
  · intro next hearly
    rw [(next.does hk _).thread]
    exact next.not_called_early hk hstate hearly
  · intro now hlate
    exact Operation.called_once hk hstate hlate

/-- A world in which a body naps whenever it is resumed. -/
def napping : World Unit Nap Unit where
  resume := fun nap _ s => (.slept nap, s)
  record := fun _ s => s

/-- A nap of five nanoseconds. -/
def shortNap : Nap := ⟨5, by decide⟩

/-- Thread 1 falls asleep at 10, and a tick at 12 leaves it alone. -/
theorem shortNap_kept :
    LastSlept napping 0 () [] (.launch 10 "a" shortNap []) [.tick 12] 1 10 shortNap ∧
      (1 ∉ calledAfter napping 0 () [.launch 10 "a" shortNap [], .tick 12] (.resume 14 1 [])) ∧
      (calledAfter napping 0 () [.launch 10 "a" shortNap [], .tick 12] (.tick 15)).count 1 = 1 := by
  have hslept :
      LastSlept napping 0 () [] (.launch 10 "a" shortNap []) [.tick 12] 1 10 shortNap :=
    ⟨rfl, List.mem_singleton_self _, List.not_mem_nil⟩
  obtain ⟨hearly, hlate⟩ := sleep_contract napping 0 () [] (.launch 10 "a" shortNap [])
    [.tick 12] 1 10 shortNap hslept (by decide)
  exact ⟨hslept, hearly (.resume 14 1 []) (fun now hnow => by cases hnow; decide),
    hlate 15 (by decide)⟩

end Scheduler

end OscHost
