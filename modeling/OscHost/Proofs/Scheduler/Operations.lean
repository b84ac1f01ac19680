import OscHost.Scheduler
import Mathlib.Data.List.Nodup
/-!
  What the operations of a scheduler do to its threads.

  An operation gives a turn to some threads, each at most once, and whom it gives one depends on the
  scheduler alone (`Operation.called`).  All that it does can be read off its turns: who had one
  stands as it handed back control, everyone else stands as before, and an operation that sweeps
  drops those who then stand as ended or failed (`Operation.does`).

  This holds of schedulers in order: numbers ascend, are below the next one, and nobody is left
  runnable.  Every operation keeps a scheduler in order, whatever the threads do.
-/

namespace OscHost

/-- A thread that hands back control is not runnable any more. -/
theorem Handback.state_ne_runnable {α : Type} (back : Handback α) (now : Nat) :
    back.state now ≠ .runnable := by
  cases back <;> exact nofun

namespace Scheduler

variable {σ β α : Type}

/-- The numbers of the registered threads. -/
def ids (k : Scheduler β) : List Nat := k.threads.map (·.id)

/-- Whether numbers ascend and are below the next one, and nobody is left runnable. -/
structure Orderly (k : Scheduler β) : Prop where
  ascending : k.ids.Pairwise (· < ·)
  below : ∀ id ∈ k.ids, id < k.nextId
  settled : ∀ t ∈ k.threads, t.state ≠ .runnable

theorem orderly_empty (now : Nat) : ({ now } : Scheduler β).Orderly :=
  ⟨List.Pairwise.nil, fun _ h => absurd h List.not_mem_nil, fun _ h => absurd h List.not_mem_nil⟩

theorem mem_ids {k : Scheduler β} {t : ScriptThread β} (ht : t ∈ k.threads) : t.id ∈ k.ids :=
  List.mem_map_of_mem ht

theorem find?_mem {k : Scheduler β} {id : Nat} {t : ScriptThread β} (h : k.find? id = some t) :
    t ∈ k.threads ∧ t.id = id := by
  have hid := List.find?_some h
  exact ⟨List.mem_of_find?_eq_some h, beq_iff_eq.mp hid⟩

section

variable {k : Scheduler β} (hk : k.ids.Nodup)
include hk

/-- No two threads have one number. -/
theorem thread_unique {t t' : ScriptThread β} (ht : t ∈ k.threads) (ht' : t' ∈ k.threads)
    (h : t.id = t'.id) : t = t' :=
  List.inj_on_of_nodup_map hk ht ht' h

/-- A registered thread is found by its number. -/
theorem find?_thread {t : ScriptThread β} (ht : t ∈ k.threads) : k.find? t.id = some t := by
  have hsome : (k.find? t.id).isSome := List.find?_isSome.mpr ⟨t, ht, beq_self_eq_true _⟩
  obtain ⟨t', ht'⟩ := Option.isSome_iff_exists.mp hsome
  obtain ⟨hm, hid⟩ := find?_mem ht'
  rw [ht', thread_unique hk hm ht hid]

end

namespace Orderly

variable {k : Scheduler β} (hk : k.Orderly)
include hk

theorem nodup : k.ids.Nodup := hk.ascending.imp fun h => Nat.ne_of_lt h

/-- No two threads have one number. -/
theorem unique {t t' : ScriptThread β} (ht : t ∈ k.threads) (ht' : t' ∈ k.threads)
    (h : t.id = t'.id) : t = t' :=
  thread_unique hk.nodup ht ht' h

theorem status_eq_some {t : ScriptThread β} (ht : t ∈ k.threads) :
    k.status t.id = some t.state := by
  unfold status
  rw [find?_thread hk.nodup ht]
  rfl

end Orderly

theorem exists_find? {k : Scheduler β} {id : Nat} (h : id ∈ k.ids) : ∃ t, k.find? id = some t := by
  obtain ⟨t, ht, hid⟩ := List.mem_map.mp h
  exact Option.isSome_iff_exists.mp (List.find?_isSome.mpr ⟨t, ht, beq_iff_eq.mpr hid⟩)

theorem status_mem {k : Scheduler β} {id : Nat} {state : ThreadState} (h : k.status id = some state) :
    ∃ t ∈ k.threads, t.id = id ∧ t.state = state := by
  obtain ⟨t, ht, hstate⟩ := Option.map_eq_some_iff.mp h
  obtain ⟨hm, hid⟩ := find?_mem ht
  exact ⟨t, hm, hid, hstate⟩

theorem mem_due {k : Scheduler β} {now id : Nat} :
    id ∈ k.due now ↔ ∃ t ∈ k.threads, t.state.isDue now ∧ t.id = id := by
  unfold due
  simp only [List.mem_map, List.mem_filter, and_assoc]

/-! ## Turns -/

/-- A thread after some turns at a time. -/
def afterTurns (now : Nat) (turns : List (Turn α)) (t : ScriptThread β) : ScriptThread β :=
  match turns.find? (·.thread == t.id) with
  | some turn => { t with state := turn.back.state now }
  | none => t

section

variable {now : Nat} {turns : List (Turn α)} {t : ScriptThread β}

@[simp] theorem afterTurns_nil : afterTurns now ([] : List (Turn α)) t = t := rfl

@[simp] theorem afterTurns_id : (afterTurns now turns t).id = t.id := by
  unfold afterTurns
  split <;> rfl

theorem afterTurns_label : (afterTurns now turns t).label = t.label := by
  unfold afterTurns
  split <;> rfl

theorem afterTurns_body : (afterTurns now turns t).body = t.body := by
  unfold afterTurns
  split <;> rfl

theorem afterTurns_of_absent (h : t.id ∉ turns.map (·.thread)) : afterTurns now turns t = t := by
  have hnone : turns.find? (·.thread == t.id) = none := by
    rw [List.find?_eq_none]
    intro turn hturn he
    exact h (List.mem_map.mpr ⟨turn, hturn, beq_iff_eq.mp he⟩)
  unfold afterTurns
  rw [hnone]

/-- Who had a turn stands as it handed back control. -/
theorem afterTurns_of_present (now : Nat) (h : t.id ∈ turns.map (·.thread)) :
    ∃ turn ∈ turns, turn.thread = t.id ∧
      afterTurns now turns t = { t with state := turn.back.state now } := by
  obtain ⟨turn, hturn, hid⟩ := List.mem_map.mp h
  have hsome : (turns.find? (·.thread == t.id)).isSome :=
    List.find?_isSome.mpr ⟨turn, hturn, beq_iff_eq.mpr hid⟩
  obtain ⟨turn', hturn'⟩ := Option.isSome_iff_exists.mp hsome
  have hthread := List.find?_some hturn'
  refine ⟨turn', List.mem_of_find?_eq_some hturn', beq_iff_eq.mp hthread, ?_⟩
  unfold afterTurns
  rw [hturn']

/-- A first turn, and then others of other threads. -/
theorem afterTurns_cons {turn : Turn α} (h : turn.thread ∉ turns.map (·.thread)) :
    afterTurns now (turn :: turns) t =
      afterTurns now turns
        (if t.id = turn.thread then { t with state := turn.back.state now } else t) := by
  by_cases hid : t.id = turn.thread
  · have habsent : t.id ∉ turns.map (·.thread) := hid ▸ h
    rw [if_pos hid, afterTurns_of_absent (t := { t with state := turn.back.state now }) habsent]
    have hfirst : (turn :: turns).find? (·.thread == t.id) = some turn :=
      List.find?_cons_of_pos (by simpa using hid.symm)
    unfold afterTurns
    rw [hfirst]
  · rw [if_neg hid]
    have hne : (turn.thread == t.id) = false := beq_eq_false_iff_ne.mpr fun he => hid he.symm
    unfold afterTurns
    rw [List.find?_cons_of_neg (by rw [hne]; exact Bool.false_ne_true)]

/-- The one turn that a thread had. -/
theorem turn_unique {turn turn' : Turn α} (hnodup : (turns.map (·.thread)).Nodup)
    (h : turn ∈ turns) (h' : turn' ∈ turns) (he : turn.thread = turn'.thread) : turn = turn' :=
  List.inj_on_of_nodup_map hnodup h h' he

end

/-! ## Resuming -/

variable {w : World σ β α} {k : Scheduler β} {s : σ}

theorem ids_setState (k : Scheduler β) (id : Nat) (state : ThreadState) :
    (k.setState id state).ids = k.ids := by
  unfold ids setState
  rw [List.map_map]
  refine List.map_congr_left fun t _ => ?_
  show (if t.id = id then { t with state } else t).id = t.id
  split <;> rfl

theorem status_setState {id : Nat} (h : id ∈ k.ids) (state : ThreadState) :
    (k.setState id state).status id = some state := by
  obtain ⟨t, ht⟩ := exists_find? h
  let set : ScriptThread β → ScriptThread β := fun t => if t.id = id then { t with state } else t
  have hsame : ((·.id == id) ∘ set : ScriptThread β → Bool) = (·.id == id) := by
    funext t
    dsimp only [Function.comp, set]
    split <;> rfl
  have hfind : (k.setState id state).find? id = some (set t) := by
    show (k.threads.map set).find? (·.id == id) = some (set t)
    rw [List.find?_map, hsame]
    exact congrArg (Option.map set) ht
  unfold status
  rw [hfind]
  dsimp only [set, Option.map]
  rw [if_pos (find?_mem ht).2]

theorem resumeThread_eq {id : Nat} {t : ScriptThread β} (ht : k.find? id = some t) (args : List α)
    (s : σ) : resumeThread w k id args s =
      (some (w.resume t.body args s).1, k.setState id ((w.resume t.body args s).1.state k.now),
        (report t (w.resume t.body args s).1).foldl (fun s line => w.record line s)
          (w.resume t.body args s).2) := by
  unfold resumeThread
  rw [ht]

theorem resumeThread_of_mem {id : Nat} (h : id ∈ k.ids) (args : List α) (s : σ) :
    ∃ back s', resumeThread w k id args s = (some back, k.setState id (back.state k.now), s') := by
  obtain ⟨t, ht⟩ := exists_find? h
  exact ⟨_, _, resumeThread_eq ht args s⟩

theorem resumeAll_cons (args : List α) (id : Nat) (ids : List Nat) (k : Scheduler β) (s : σ) :
    (resumeAll w args (id :: ids) k s).2 =
      (resumeAll w args ids (resumeThread w k id args s).2.1 (resumeThread w k id args s).2.2).2 :=
  rfl

/-- Resuming registered threads gives each its turn, in order, and does nothing else. -/
theorem resumeAll_spec (args : List α) {ids : List Nat} (hnodup : ids.Nodup)
    (hids : ∀ id ∈ ids, id ∈ k.ids) (s : σ) :
    ∃ turns s', resumeAll w args ids k s =
        (turns, { k with threads := k.threads.map (afterTurns k.now turns) }, s') ∧
      turns.map (·.thread) = ids := by
  induction ids generalizing k s with
  | nil =>
    refine ⟨[], s, ?_, rfl⟩
    have hsame : k.threads.map (afterTurns k.now ([] : List (Turn α))) = k.threads :=
      List.map_id k.threads
    rw [hsame]
    rfl
  | cons id ids ih =>
    obtain ⟨hid, hnodup⟩ := List.nodup_cons.mp hnodup
    obtain ⟨back, s₁, hback⟩ := resumeThread_of_mem (w := w) (hids id List.mem_cons_self) args s
    -- setting a state registers nobody and drops nobody, so the rest can be resumed
    have hrest : ∀ n ∈ ids, n ∈ (k.setState id (back.state k.now)).ids := by
      intro n hn
      rw [ids_setState]
      exact hids n (List.mem_cons_of_mem id hn)
    obtain ⟨turns, s₂, hturns, hthreads⟩ := ih hnodup hrest s₁
    refine ⟨⟨id, back⟩ :: turns, s₂, ?_, congrArg (id :: ·) hthreads⟩
    -- the first turn is laid below those of the rest: their numbers are other ones
    have hmap : (k.setState id (back.state k.now)).threads.map (afterTurns k.now turns) =
        k.threads.map (afterTurns k.now (⟨id, back⟩ :: turns)) := by
      unfold setState
      rw [List.map_map]
      refine List.map_congr_left fun t _ => ?_
      rw [afterTurns_cons (by rw [hthreads]; exact hid)]
      rfl
    unfold resumeAll
    rw [hback]
    dsimp only
    rw [hturns, ← hmap]
    rfl

/-- A launch is the first turn of a new thread. -/
theorem launch_snd (w : World σ β α) (now : Nat) (k : Scheduler β) (label : String) (body : β)
    (args : List α) (s : σ) :
    (k.launch w now label body args s).2 = (resumeThread w (k.register now label body) k.nextId args
      (w.record (.trace ("spawned thread " ++ threadName k.nextId)) s)).2 := by
  unfold launch
  dsimp only
  generalize resumeThread w (k.register now label body) k.nextId args _ = r
  obtain ⟨back, k', s'⟩ := r
  cases back <;> rfl

/-- The first turn of a new thread, in a scheduler in which everyone else stands as before. -/
theorem Orderly.resumeThread_register {k : Scheduler β} (hk : k.Orderly) (w : World σ β α)
    (now : Nat) (label : String) (body : β) (args : List α) (s : σ) :
    resumeThread w (k.register now label body) k.nextId args s =
      let r := w.resume body args s
      (some r.1, { k.register now label body with
          threads := k.threads ++ [⟨k.nextId, label, body, r.1.state now⟩] },
        (report ⟨k.nextId, label, body, .runnable⟩ r.1).foldl (fun s line => w.record line s) r.2) := by
  let t : ScriptThread β := ⟨k.nextId, label, body, .runnable⟩
  have hother : ∀ t' ∈ k.threads, t'.id ≠ k.nextId := fun t' ht' =>
    Nat.ne_of_lt (hk.below _ (mem_ids ht'))
  -- no number that was given out before is the next one, so the newcomer is found
  have hfind : (k.register now label body).find? k.nextId = some t := by
    show (k.threads ++ [t]).find? (·.id == k.nextId) = some t
    have hnone : k.threads.find? (·.id == k.nextId) = none :=
      List.find?_eq_none.mpr fun t' ht' he => hother t' ht' (beq_iff_eq.mp he)
    rw [List.find?_append, hnone, Option.none_or]
    exact List.find?_cons_of_pos (beq_self_eq_true k.nextId)
  -- and only the newcomer is set
  have hset (state : ThreadState) : (k.register now label body).setState k.nextId state =
      { k.register now label body with
        threads := k.threads ++ [⟨k.nextId, label, body, state⟩] } := by
    have hsame : (k.threads.map fun t' => if t'.id = k.nextId then { t' with state } else t') =
        k.threads := by
      conv => rhs; rw [← List.map_id k.threads]
      exact List.map_congr_left fun t' ht' => if_neg (hother t' ht')
    unfold setState register
    dsimp only
    rw [List.map_append, hsame, List.map_singleton, if_pos rfl]
  rw [resumeThread_eq hfind, hset]
  rfl

/-- A launch tells how the first turn has come out. -/
theorem launch_fst_of_turn {now : Nat} {label : String} {body : β} {args : List α} {s : σ}
    {back : Handback α} (h : (resumeThread w (k.register now label body) k.nextId args
      (w.record (.trace ("spawned thread " ++ threadName k.nextId)) s)).1 = some back) :
    (k.launch w now label body args s).1 = .ok (k.nextId, back) := by
  unfold launch
  dsimp only
  generalize resumeThread w (k.register now label body) k.nextId args _ = r at h
  obtain ⟨_, k', s'⟩ := r
  obtain rfl := h
  rfl

/-- A new thread is found, and it alone is resumed. -/
theorem launch_eq (w : World σ β α) (now : Nat) (k : Scheduler β) (label : String) (body : β)
    (args : List α) (s : σ) :
    ∃ back s', k.launch w now label body args s = (.ok (k.nextId, back),
      (k.register now label body).setState k.nextId (back.state now), s') := by
  have hmem : k.nextId ∈ (k.register now label body).ids := by
    unfold register ids
    rw [List.map_append]
    exact List.mem_append_right _ List.mem_cons_self
  let s₁ := w.record (.trace ("spawned thread " ++ threadName k.nextId)) s
  obtain ⟨back, s₂, hback⟩ := resumeThread_of_mem (w := w) hmem args s₁
  refine ⟨back, s₂, ?_⟩
  unfold launch
  dsimp only
  rw [hback]
  rfl

/-- Nobody else is resumed out of turn, whatever the reason. -/
theorem resume_eq_of_not_due {now id : Nat} (hdue : ¬ (k.status id).any (·.isDue now))
    (args : List α) (s : σ) :
    ∃ refusal, k.resume w now id args s = (.error refusal, { k with now }, s) := by
  unfold resume
  dsimp only
  cases hstate : ({ k with now } : Scheduler β).status id with
  | none => exact ⟨_, rfl⟩
  | some state =>
    have hearly : ¬ state.isDue now = true := by
      rw [show k.status id = some state from hstate] at hdue
      exact hdue
    dsimp only
    rw [if_neg hearly]
    exact ⟨_, rfl⟩

/-- A resumption of a thread that is due is a turn, and yields the state after it. -/
theorem resume_of_due {now id : Nat} (hdue : (k.status id).any (·.isDue now)) (args : List α)
    (s : σ) :
    k.resume w now id args s =
      let (_, k', s') := resumeThread w { k with now } id args s
      (.ok ((k'.status id).getD .finished), k', s') := by
  obtain ⟨state, hstate, hdue'⟩ := (Option.any_eq_true _ _).mp hdue
  unfold resume
  dsimp only
  rw [show ({ k with now } : Scheduler β).status id = some state from hstate]
  dsimp only
  rw [if_pos hdue']

theorem resume_snd_of_due {now id : Nat} (hdue : (k.status id).any (·.isDue now)) (args : List α)
    (s : σ) : (k.resume w now id args s).2 = (resumeThread w { k with now } id args s).2 := by
  rw [resume_of_due hdue]

/-- A thread that is due is found, and it alone is resumed. -/
theorem resume_eq_of_due {now id : Nat} (hdue : (k.status id).any (·.isDue now)) (args : List α)
    (s : σ) :
    ∃ back s', resumeAll w args [id] { k with now } s =
        ([⟨id, back⟩], { k with now }.setState id (back.state now), s') ∧
      k.resume w now id args s = (.ok (back.state now),
        { k with now }.setState id (back.state now), s') := by
  obtain ⟨state, hstate, -⟩ := (Option.any_eq_true _ _).mp hdue
  obtain ⟨t, ht, hid, -⟩ := status_mem hstate
  have hmem : id ∈ ({ k with now } : Scheduler β).ids := hid ▸ mem_ids ht
  obtain ⟨back, s₁, hback⟩ := resumeThread_of_mem (w := w) hmem args s
  have hstatus : (({ k with now } : Scheduler β).setState id (back.state now)).status id =
      some (back.state now) := status_setState hmem _
  refine ⟨back, s₁, ?_, ?_⟩
  · unfold resumeAll
    rw [hback]
    rfl
  · rw [resume_of_due hdue, hback]
    dsimp only
    rw [hstatus]
    rfl

/-! ## Operations -/

/-- Something that is done with a scheduler, by whoever owns it.  `elsewhere` is whatever happens to
    the world between two operations. -/
inductive Operation (σ β α : Type)
  | launch (now : Nat) (label : String) (body : β) (args : List α)
  | resume (now : Nat) (id : Nat) (args : List α)
  | tick (now : Nat)
  | sweep
  | elsewhere (f : σ → σ)

namespace Operation

/-- The scheduler and the world after an operation. -/
def perform (w : World σ β α) : Operation σ β α → Scheduler β → σ → Scheduler β × σ
  | .launch now label body args, k, s => (k.launch w now label body args s).2
  | .resume now id args, k, s => (k.resume w now id args s).2
  | .tick now, k, s => k.tick w now s
  | .sweep, k, s => (k.sweep, s)
  | .elsewhere f, k, s => (k, f s)

/-- The turns that an operation gives, in order. -/
def turns (w : World σ β α) : Operation σ β α → Scheduler β → σ → List (Turn α)
  | .launch now label body args, k, s =>
    match (k.launch w now label body args s).1 with
    | .ok (id, back) => [⟨id, back⟩]
    | .error _ => []
  | .resume now id args, k, s =>
    if (k.status id).any (·.isDue now) then (resumeAll w args [id] { k with now } s).1 else []
  | .tick now, k, s => (resumeAll w [] (k.due now) { k with now } s).1
  | .sweep, _, _ | .elsewhere _, _, _ => []

/-- Whom an operation gives a turn. -/
def called (k : Scheduler β) : Operation σ β α → List Nat
  | .launch .. => [k.nextId]
  | .resume now id _ => if (k.status id).any (·.isDue now) then [id] else []
  | .tick now => k.due now
  | .sweep | .elsewhere _ => []

/-- The time of an operation, if it has one. -/
def time : Operation σ β α → Option Nat
  | .launch now .. | .resume now .. | .tick now => some now
  | .sweep | .elsewhere _ => none

/-- Whether an operation drops threads. -/
def sweeps : Operation σ β α → Bool
  | .tick _ | .sweep => true
  | .launch .. | .resume .. | .elsewhere _ => false

/-- The thread that an operation registers, if it registers one. -/
def newcomer (k : Scheduler β) : Operation σ β α → List (ScriptThread β)
  | .launch _ label body _ => [⟨k.nextId, label, body, .runnable⟩]
  | .resume .. | .tick _ | .sweep | .elsewhere _ => []

/-- All that an operation does. -/
structure Does (w : World σ β α) (op : Operation σ β α) (k : Scheduler β) (s : σ) : Prop where
  thread : (op.turns w k s).map (·.thread) = op.called k
  nextId : (op.perform w k s).1.nextId = k.nextId + (op.newcomer k).length
  now : (op.perform w k s).1.now = op.time.getD k.now
  threads : (op.perform w k s).1.threads =
    ((k.threads ++ op.newcomer k).map (afterTurns (op.time.getD k.now) (op.turns w k s))).filter
      fun t => ! (op.sweeps && t.state.isTerminal)

theorem filter_kept (l : List (ScriptThread β)) :
    (l.filter fun t => ! (false && t.state.isTerminal)) = l :=
  List.filter_eq_self.mpr fun _ _ => rfl

/-- An operation without a turn on which nothing depends. -/
theorem threads_untouched (now : Nat) (l : List (ScriptThread β)) :
    (l ++ []).map (afterTurns now ([] : List (Turn α))) = l := by
  rw [List.append_nil]
  exact List.map_id l

/-- One thread has a turn. -/
theorem threads_setState_turn (k : Scheduler β) (id : Nat) (back : Handback α) :
    (k.setState id (back.state k.now)).threads =
      k.threads.map (afterTurns k.now [⟨id, back⟩]) := by
  unfold setState
  refine List.map_congr_left fun t _ => ?_
  rw [afterTurns_cons List.not_mem_nil, afterTurns_nil]

/-- An operation that drops nobody. -/
theorem Does.of_kept {op : Operation σ β α} {s s' : σ} {k' : Scheduler β} {turns : List (Turn α)}
    (hsweeps : op.sweeps = false) (hturns : op.turns w k s = turns)
    (hperform : op.perform w k s = (k', s')) (hthread : turns.map (·.thread) = op.called k)
    (hnext : k'.nextId = k.nextId + (op.newcomer k).length) (hnow : k'.now = op.time.getD k.now)
    (hthreads : k'.threads =
      (k.threads ++ op.newcomer k).map (afterTurns (op.time.getD k.now) turns)) :
    op.Does w k s := by
  refine ⟨?_, ?_, ?_, ?_⟩
  · rw [hturns]
    exact hthread
  · rw [hperform]
    exact hnext
  · rw [hperform]
    exact hnow
  · rw [hperform, hturns, hsweeps, filter_kept]
    exact hthreads

theorem launch_does (now : Nat) (label : String) (body : β) (args : List α) (s : σ) :
    (launch now label body args).Does w k s := by
  obtain ⟨back, s', hlaunch⟩ := launch_eq w now k label body args s
  have hturns : (launch now label body args).turns w k s = [⟨k.nextId, back⟩] := by
    dsimp only [Operation.turns]
    rw [hlaunch]
  have hperform : (launch now label body args).perform w k s =
      ((k.register now label body).setState k.nextId (back.state now), s') := by
    dsimp only [perform]
    rw [hlaunch]
  exact .of_kept rfl hturns hperform rfl rfl rfl
    (threads_setState_turn (k.register now label body) k.nextId back)

theorem resume_does (now id : Nat) (args : List α) (s : σ) :
    (resume now id args).Does w k s := by
  -- a turn is taken exactly if the thread is due; refused, only the time is new
  by_cases hdue : (k.status id).any (·.isDue now)
  · obtain ⟨back, s', hall, hresume⟩ := resume_eq_of_due (w := w) hdue args s
    have hturns : (resume now id args).turns w k s = [⟨id, back⟩] := by
      dsimp only [Operation.turns]
      rw [if_pos hdue, hall]
    have hperform : (resume now id args).perform w k s =
        ({ k with now }.setState id (back.state now), s') := by
      dsimp only [perform]
      rw [hresume]
    refine .of_kept rfl hturns hperform ?_ rfl rfl ?_
    · dsimp only [called]
      rw [if_pos hdue]
      rfl
    · show _ = List.map _ (k.threads ++ [])
      rw [List.append_nil]
      exact threads_setState_turn { k with now } id back
  · obtain ⟨refusal, hresume⟩ := resume_eq_of_not_due (w := w) hdue args s
    have hturns : (resume now id args).turns w k s = [] := by
      dsimp only [Operation.turns]
      rw [if_neg hdue]
    have hperform : (resume now id args).perform w k s = ({ k with now }, s) := by
      dsimp only [perform]
      rw [hresume]
    refine .of_kept rfl hturns hperform ?_ rfl rfl (threads_untouched _ _).symm
    dsimp only [called]
    rw [if_neg hdue]
    rfl

theorem tick_does (hk : k.Orderly) (now : Nat) (s : σ) :
    (tick now : Operation σ β α).Does w k s := by
  -- who is due is registered, each under a number of its own, so each has one turn
  have hdue : ∀ id ∈ k.due now, id ∈ ({ k with now } : Scheduler β).ids := by
    intro id hid
    obtain ⟨t, ht, -, rfl⟩ := mem_due.mp hid
    exact mem_ids (k := k) ht
  have hnodup : (k.due now).Nodup := hk.nodup.sublist (List.filter_sublist.map _)
  obtain ⟨turns, s', hall, hthread⟩ := resumeAll_spec (w := w) [] hnodup hdue s
  have hturns : (tick now).turns w k s = turns := by
    dsimp only [Operation.turns]
    rw [hall]
  have hperform : (tick now).perform w k s =
      (({ k with now, threads := k.threads.map (afterTurns now turns) } : Scheduler β).sweep, s') := by
    dsimp only [perform, Scheduler.tick]
    rw [hall]
  refine ⟨?_, ?_, ?_, ?_⟩
  · rw [hturns, hthread]
    rfl
  · rw [hperform]
    rfl
  · rw [hperform]
    rfl
  · rw [hperform, hturns]
    show _ = List.filter _ (List.map _ (k.threads ++ []))
    rw [List.append_nil]
    rfl

theorem does (hk : k.Orderly) (op : Operation σ β α) (s : σ) : op.Does w k s := by
  cases op with
  | launch now label body args => exact launch_does now label body args s
  | resume now id args => exact resume_does now id args s
  | tick now => exact tick_does hk now s
  | sweep =>
    refine ⟨rfl, rfl, rfl, ?_⟩
    show _ = List.filter _ (List.map (afterTurns k.now ([] : List (Turn α))) (k.threads ++ []))
    rw [threads_untouched]
    rfl
  | elsewhere f => exact .of_kept rfl rfl rfl rfl rfl rfl (threads_untouched _ _).symm

section

variable {op : Operation σ β α}

/-- Whom an operation leaves registered, and how. -/
theorem mem_perform (hk : k.Orderly) {t : ScriptThread β} :
    t ∈ (op.perform w k s).1.threads ↔
      ∃ old ∈ k.threads ++ op.newcomer k,
        afterTurns (op.time.getD k.now) (op.turns w k s) old = t ∧
          ¬ (op.sweeps ∧ t.state.isTerminal) := by
  rw [(does hk op s).threads, List.mem_filter, List.mem_map]
  have hkept : (! (op.sweeps && t.state.isTerminal)) = true ↔
      ¬ (op.sweeps ∧ t.state.isTerminal) := by
    rw [Bool.not_eq_true', Bool.and_eq_false_iff, not_and_or, Bool.not_eq_true, Bool.not_eq_true]
  rw [hkept]
  constructor
  · rintro ⟨⟨old, hold, rfl⟩, hstays⟩
    exact ⟨old, hold, rfl, hstays⟩
  · rintro ⟨old, hold, rfl, hstays⟩
    exact ⟨⟨old, hold, rfl⟩, hstays⟩

/-- Each thread has at most one turn in an operation. -/
theorem turns_nodup (hk : k.Orderly) : ((op.turns w k s).map (·.thread)).Nodup := by
  rw [(does hk op s).thread]
  cases op with
  | launch now label body args => exact List.nodup_singleton _
  | resume now id args =>
    dsimp only [called]
    split
    · exact List.nodup_singleton id
    · exact List.nodup_nil
  | tick now => exact hk.nodup.sublist (List.filter_sublist.map _)
  | sweep => exact List.nodup_nil
  | elsewhere f => exact List.nodup_nil

/-- There is at most one new thread, it has the next number, and it has its first turn at once. -/
theorem newcomer_cases (op : Operation σ β α) (k : Scheduler β) :
    op.newcomer k = [] ∨
      ∃ t, op.newcomer k = [t] ∧ t.id = k.nextId ∧ op.called k = [k.nextId] := by
  cases op with
  | launch now label body args => exact .inr ⟨_, rfl, rfl, rfl⟩
  | resume now id args => exact .inl rfl
  | tick now => exact .inl rfl
  | sweep => exact .inl rfl
  | elsewhere f => exact .inl rfl

theorem newcomer_called {t : ScriptThread β} (ht : t ∈ op.newcomer k) :
    t.id = k.nextId ∧ t.id ∈ op.called k := by
  rcases op.newcomer_cases k with hnone | ⟨new, hone, hid, hcalled⟩
  · rw [hnone] at ht
    exact absurd ht List.not_mem_nil
  · rw [hone] at ht
    rw [hcalled, List.mem_singleton.mp ht, hid]
    exact ⟨rfl, List.mem_singleton_self _⟩

/-- Whom an operation calls is new, or registered and due. -/
theorem called_due {id : Nat} (h : id ∈ op.called k) :
    (∃ t ∈ op.newcomer k, t.id = id) ∨
      ∃ now, op.time = some now ∧ ∃ t ∈ k.threads, t.id = id ∧ t.state.isDue now := by
  cases op with
  | launch now label body args =>
    exact .inl ⟨_, List.mem_singleton_self _, (List.mem_singleton.mp h).symm⟩
  | resume now id' args =>
    dsimp only [called] at h
    -- a resumption calls nobody unless the thread is due
    by_cases hdue : (k.status id').any (·.isDue now)
    · rw [if_pos hdue] at h
      obtain ⟨state, hstate, hdue'⟩ := (Option.any_eq_true _ _).mp hdue
      obtain ⟨t, ht, hid, rfl⟩ := status_mem hstate
      exact .inr ⟨now, rfl, t, ht, hid.trans (List.mem_singleton.mp h).symm, hdue'⟩
    · rw [if_neg hdue] at h
      exact absurd h List.not_mem_nil
  | tick now =>
    obtain ⟨t, ht, hdue, hid⟩ := mem_due.mp h
    exact .inr ⟨now, rfl, t, ht, hid, hdue⟩
  | sweep => exact absurd h List.not_mem_nil
  | elsewhere f => exact absurd h List.not_mem_nil

/-- The threads before an operation and the new one have different numbers, all below the next
    number after it. -/
theorem ids_with_newcomer (op : Operation σ β α) (hk : k.Orderly) :
    ((k.threads ++ op.newcomer k).map (·.id)).Pairwise (· < ·) ∧
      ∀ id ∈ (k.threads ++ op.newcomer k).map (·.id), id < k.nextId + (op.newcomer k).length := by
  rw [List.map_append]
  rcases op.newcomer_cases k with hnone | ⟨new, hone, hid, -⟩
  · rw [hnone, List.map_nil, List.append_nil]
    exact ⟨hk.ascending, hk.below⟩
  · rw [hone, List.map_singleton, hid]
    refine ⟨List.pairwise_append.mpr ⟨hk.ascending, List.pairwise_singleton _ _, ?_⟩, ?_⟩
    · intro id hid next hnext
      rw [List.mem_singleton.mp hnext]
      exact hk.below id hid
    · intro id hid
      rcases List.mem_append.mp hid with hold | hnew
      · exact Nat.lt_succ_of_lt (hk.below id hold)
      · rw [List.mem_singleton.mp hnew]
        exact Nat.lt_succ_self _

/-- Nobody's number is lost or changed but by a sweep. -/
theorem ids_sublist (op : Operation σ β α) (hk : k.Orderly) (s : σ) :
    (op.perform w k s).1.ids.Sublist ((k.threads ++ op.newcomer k).map (·.id)) := by
  unfold ids
  rw [(does hk op s).threads]
  have hmap : (((k.threads ++ op.newcomer k).map
      (afterTurns (op.time.getD k.now) (op.turns w k s))).map (·.id)) =
      (k.threads ++ op.newcomer k).map (·.id) := by
    rw [List.map_map]
    exact List.map_congr_left fun t _ => afterTurns_id
  exact hmap ▸ List.filter_sublist.map _

end

end Operation

/-- Every operation keeps a scheduler in order. -/
theorem Orderly.perform (hk : k.Orderly) (op : Operation σ β α) (s : σ) :
    (op.perform w k s).1.Orderly := by
  obtain ⟨hascending, hbelow⟩ := op.ids_with_newcomer hk
  have hsub := op.ids_sublist (w := w) hk s
  refine ⟨hascending.sublist hsub, ?_, ?_⟩
  · intro id hid
    rw [(Operation.does hk op s).nextId]
    exact hbelow id (hsub.subset hid)
  · -- who had a turn has handed back control, and the new thread had one
    intro t ht
    obtain ⟨old, hold, rfl, -⟩ := (Operation.mem_perform hk).mp ht
    by_cases hturn : old.id ∈ (op.turns w k s).map (·.thread)
    · obtain ⟨turn, -, -, hafter⟩ := afterTurns_of_present (op.time.getD k.now) hturn
      rw [hafter]
      exact turn.back.state_ne_runnable _
    · rw [afterTurns_of_absent hturn]
      rcases List.mem_append.mp hold with hmem | hnew
      · exact hk.settled old hmem
      · rw [(Operation.does hk op s).thread] at hturn
        exact absurd (Operation.newcomer_called hnew).2 hturn

/-! ## Runs -/

/-- The scheduler and the world after some operations. -/
def performAll (w : World σ β α) : List (Operation σ β α) → Scheduler β → σ → Scheduler β × σ
  | [], k, s => (k, s)
  | op :: ops, k, s => performAll w ops (op.perform w k s).1 (op.perform w k s).2

/-- The turns that some operations give, in order. -/
def turnsAll (w : World σ β α) : List (Operation σ β α) → Scheduler β → σ → List (Turn α)
  | [], _, _ => []
  | op :: ops, k, s => op.turns w k s ++ turnsAll w ops (op.perform w k s).1 (op.perform w k s).2

/-- Every run keeps a scheduler in order. -/
theorem Orderly.performAll (hk : k.Orderly) (ops : List (Operation σ β α)) (s : σ) :
    (performAll w ops k s).1.Orderly := by
  induction ops generalizing k s with
  | nil => exact hk
  | cons op ops ih => exact ih (hk.perform op s) _

end Scheduler

end OscHost
