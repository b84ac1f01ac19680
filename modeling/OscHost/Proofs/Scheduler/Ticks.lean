import OscHost.Proofs.Scheduler.LifeCycle
/-!
  What a tick does.

  Who is due is settled before anybody is resumed.  Then the due threads have their turns, one after
  the other by ascending number, without arguments (`InTurn`), and each is left as it hands back
  control.  The state of nobody else is touched, whatever the turns come to: the loop finds every
  thread by its number, and a turn sets the state of its own thread alone
  (`find?_setState_of_ne`).  So those who are still registered in the end are the due ones that were
  suspended again and those that sleep beyond the time of the tick.
-/

namespace OscHost.Scheduler

variable {σ β α : Type} {w : World σ β α} {k : Scheduler β} {s s' : σ}

/-! ## Turns one after the other -/

/-- The threads that are due at a time. -/
def dueThreads (k : Scheduler β) (now : Nat) : List (ScriptThread β) :=
  k.threads.filter (·.state.isDue now)

/-- The world once a thread has handed back control and the log says so. -/
def reported (w : World σ β α) (t : ScriptThread β) (r : Handback α × σ) : σ :=
  (report t r.1).foldl (fun s line => w.record line s) r.2

/-- How some threads hand back control when they are resumed one after the other without arguments,
    and how that leaves the world. -/
inductive InTurn (w : World σ β α) : List (ScriptThread β) → σ → List (Handback α) → σ → Prop
  | done (s : σ) : InTurn w [] s [] s
  | next (t : ScriptThread β) {ts : List (ScriptThread β)} (s : σ) {backs : List (Handback α)}
      {last : σ} (rest : InTurn w ts (reported w t (w.resume t.body [] s)) backs last) :
      InTurn w (t :: ts) s ((w.resume t.body [] s).1 :: backs) last

/-- Setting the state of a thread changes no other one. -/
theorem find?_setState_of_ne {id id' : Nat} (hne : id' ≠ id) (state : ThreadState) :
    (k.setState id state).find? id' = k.find? id' := by
  unfold setState find?
  dsimp only
  induction k.threads with
  | nil => rfl
  | cons t ts ih =>
    rw [List.map_cons, List.find?_cons, List.find?_cons, ih]
    by_cases hid : t.id = id
    · have hother : (t.id == id') = false := beq_eq_false_iff_ne.mpr fun h => hne (h ▸ hid)
      rw [if_pos hid, hother]
    · rw [if_neg hid]

/-- The turns of some threads with what they hand back. -/
def turnsOf (ts : List (ScriptThread β)) (backs : List (Handback α)) : List (Turn α) :=
  List.zipWith (fun t back => ⟨t.id, back⟩) ts backs

/-- Resuming registered threads by their numbers resumes these threads. -/
theorem resumeAll_inTurn {ts : List (ScriptThread β)} (hnodup : (ts.map (·.id)).Nodup)
    (hfind : ∀ t ∈ ts, k.find? t.id = some t) (s : σ) :
    ∃ backs, InTurn w ts s backs (resumeAll w [] (ts.map (·.id)) k s).2.2 ∧
      (resumeAll w [] (ts.map (·.id)) k s).1 = turnsOf ts backs := by
  induction ts generalizing k s with
  | nil => exact ⟨[], .done s, rfl⟩
  | cons t ts ih =>
    obtain ⟨hid, hnodup⟩ := List.nodup_cons.mp hnodup
    have hturn := resumeThread_eq (w := w) (hfind t List.mem_cons_self) [] s
    -- the others are found as before
    have hrest : ∀ t' ∈ ts, (k.setState t.id ((w.resume t.body [] s).1.state k.now)).find? t'.id =
        some t' := by
      intro t' ht'
      have hne : t'.id ≠ t.id := fun he => hid (List.mem_map.mpr ⟨t', ht', he⟩)
      rw [find?_setState_of_ne hne]
      exact hfind t' (List.mem_cons_of_mem _ ht')
    obtain ⟨backs, hin, hturns⟩ := ih hnodup hrest (reported w t (w.resume t.body [] s))
    refine ⟨(w.resume t.body [] s).1 :: backs, ?_, ?_⟩
    · rw [List.map_cons, resumeAll_cons, hturn]
      exact .next t s hin
    · unfold reported at hturns
      unfold turnsOf at hturns ⊢
      rw [List.map_cons, resumeAll, hturn, List.zipWith_cons_cons, ← hturns]
      rfl

/-! ## The tick -/

/-- What a tick at a time does to a scheduler and the world. -/
structure Ticked (w : World σ β α) (now : Nat) (k : Scheduler β) (s : σ) : Prop where
  /-- Due is who is suspended without a wake time or with one that has come. -/
  due : ∀ t, t ∈ k.dueThreads now ↔ t ∈ k.threads ∧
    (t.state = .suspended none ∨ ∃ wake, t.state = .suspended (some wake) ∧ wake ≤ now)
  /-- The due threads have different numbers, by which they are in order. -/
  ascending : ((k.dueThreads now).map (·.id)).Pairwise (· < ·)
  /-- They are resumed, and nobody else.  Afterwards those of them are registered that were suspended
      again, and of the others those that sleep on, as they were. -/
  turns : ∃ backs, InTurn w (k.dueThreads now) s backs (k.tick w now s).2 ∧
    ∀ t', t' ∈ (k.tick w now s).1.threads ↔
      (∃ t back, (t, back) ∈ (k.dueThreads now).zip backs ∧ back.ended = false ∧
        t' = { t with state := back.state now }) ∨
      (t' ∈ k.threads ∧ ∃ wake, t'.state = .suspended (some wake) ∧ now < wake)
  /-- Numbers stay in order, and the next one is the same. -/
  order : (k.tick w now s).1.ids.Pairwise (· < ·) ∧ (k.tick w now s).1.nextId = k.nextId

/-- Of those who are registered between operations everyone is suspended or has ended. -/
theorem Orderly.isDue_iff (hk : k.Orderly) {t : ScriptThread β} (ht : t ∈ k.threads) {now : Nat} :
    t.state.isDue now = true ↔
      t.state = .suspended none ∨ ∃ wake, t.state = .suspended (some wake) ∧ wake ≤ now := by
  cases hstate : t.state with
  | runnable => exact absurd hstate (hk.settled t ht)
  | suspended wakeAt =>
    cases wakeAt with
    | none => exact iff_of_true rfl (.inl rfl)
    | some wake =>
      refine decide_eq_true_iff.trans ⟨fun hle => .inr ⟨wake, rfl, hle⟩, ?_⟩
      rintro (h | ⟨_, h, hle⟩)
      · cases h
      · cases h
        exact hle
  | finished => exact iff_of_false Bool.false_ne_true (by simp)
  | failed message => exact iff_of_false Bool.false_ne_true (by simp)

/-- Who is neither due nor at an end sleeps on. -/
theorem Orderly.sleeps_iff (hk : k.Orderly) {t : ScriptThread β} (ht : t ∈ k.threads) {now : Nat} :
    ¬ t.state.isDue now = true ∧ ¬ t.state.isTerminal = true ↔
      ∃ wake, t.state = .suspended (some wake) ∧ now < wake := by
  cases hstate : t.state with
  | runnable => exact absurd hstate (hk.settled t ht)
  | suspended wakeAt =>
    cases wakeAt with
    | none => exact iff_of_false (fun h => h.1 rfl) (by simp)
    | some wake =>
      have hdue : (ThreadState.suspended (some wake)).isDue now = decide (wake ≤ now) := rfl
      rw [hdue, decide_eq_true_iff]
      constructor
      · exact fun h => ⟨wake, rfl, Nat.lt_of_not_le h.1⟩
      · rintro ⟨_, h, hlt⟩
        cases h
        exact ⟨Nat.not_le.mpr hlt, Bool.false_ne_true⟩
  | finished => exact iff_of_false (fun h => h.2 rfl) (by simp)
  | failed message => exact iff_of_false (fun h => h.2 rfl) (by simp)

theorem mem_dueThreads {now : Nat} {t : ScriptThread β} :
    t ∈ k.dueThreads now ↔ t ∈ k.threads ∧ t.state.isDue now = true := List.mem_filter

theorem Orderly.dueThreads_ascending (hk : k.Orderly) (now : Nat) :
    ((k.dueThreads now).map (·.id)).Pairwise (· < ·) :=
  hk.ascending.sublist (List.filter_sublist.map _)

/-- Whom a turn among those of the due threads belongs to. -/
theorem mem_turnsOf {ts : List (ScriptThread β)} {backs : List (Handback α)} {turn : Turn α} :
    turn ∈ turnsOf ts backs ↔ ∃ t back, (t, back) ∈ ts.zip backs ∧ turn = ⟨t.id, back⟩ := by
  unfold turnsOf
  rw [← List.map_uncurry_zip_eq_zipWith, List.mem_map]
  constructor
  · rintro ⟨⟨t, back⟩, hmem, rfl⟩
    exact ⟨t, back, hmem, rfl⟩
  · rintro ⟨t, back, hmem, rfl⟩
    exact ⟨(t, back), hmem, rfl⟩

section

variable {now : Nat} {t : ScriptThread β} {backs : List (Handback α)}

/-- A due thread stands as it handed back control. -/
theorem Orderly.afterTurns_of_zip (hk : k.Orderly)
    (hcalled : (turnsOf (k.dueThreads now) backs).map (·.thread) = k.due now) {back : Handback α}
    (hzip : (t, back) ∈ (k.dueThreads now).zip backs) :
    afterTurns now (turnsOf (k.dueThreads now) backs) t = { t with state := back.state now } := by
  have hturn : (⟨t.id, back⟩ : Turn α) ∈ turnsOf (k.dueThreads now) backs :=
    mem_turnsOf.mpr ⟨t, back, hzip, rfl⟩
  obtain ⟨turn, hturn', hid, hafter⟩ := afterTurns_of_present (t := t) now
    (List.mem_map_of_mem (f := (·.thread)) hturn)
  have honly : turn = ⟨t.id, back⟩ := by
    refine turn_unique ?_ hturn' hturn hid
    rw [hcalled]
    exact (hk.dueThreads_ascending now).imp fun h => Nat.ne_of_lt h
  rw [hafter, honly]

/-- And every due thread did. -/
theorem Orderly.exists_zip (hk : k.Orderly)
    (hcalled : (turnsOf (k.dueThreads now) backs).map (·.thread) = k.due now)
    (ht : t ∈ k.threads) (hdue : t.state.isDue now = true) :
    ∃ back, (t, back) ∈ (k.dueThreads now).zip backs := by
  have hpresent : t.id ∈ (turnsOf (k.dueThreads now) backs).map (·.thread) := by
    rw [hcalled]
    exact mem_due.mpr ⟨t, ht, hdue, rfl⟩
  obtain ⟨turn, hturn, hid⟩ := List.mem_map.mp hpresent
  obtain ⟨t', back, hzip, rfl⟩ := mem_turnsOf.mp hturn
  obtain rfl : t' = t := hk.unique (mem_dueThreads.mp (List.of_mem_zip hzip).1).1 ht hid
  exact ⟨back, hzip⟩

/-- A thread that is not due stays as it is. -/
theorem Orderly.afterTurns_of_not_due (hk : k.Orderly)
    (hcalled : (turnsOf (k.dueThreads now) backs).map (·.thread) = k.due now)
    (ht : t ∈ k.threads) (hearly : ¬ t.state.isDue now = true) :
    afterTurns now (turnsOf (k.dueThreads now) backs) t = t := by
  refine afterTurns_of_absent fun hin => ?_
  rw [hcalled] at hin
  obtain ⟨t', ht', hdue, hid⟩ := mem_due.mp hin
  exact hearly (hk.unique ht' ht hid ▸ hdue)

/-- Who has not ended after the turns of the due threads. -/
theorem Orderly.stays_iff (hk : k.Orderly)
    (hcalled : (turnsOf (k.dueThreads now) backs).map (·.thread) = k.due now) :
    (∃ old ∈ k.threads, afterTurns now (turnsOf (k.dueThreads now) backs) old = t ∧
      ¬ t.state.isTerminal = true) ↔
      (∃ old back, (old, back) ∈ (k.dueThreads now).zip backs ∧ back.ended = false ∧
        t = { old with state := back.state now }) ∨
      (t ∈ k.threads ∧ ∃ wake, t.state = .suspended (some wake) ∧ now < wake) := by
  constructor
  · -- who is due had a turn, and nobody else
    rintro ⟨old, hold, rfl, hstays⟩
    by_cases hdue : old.state.isDue now = true
    · obtain ⟨back, hzip⟩ := hk.exists_zip hcalled hold hdue
      rw [hk.afterTurns_of_zip hcalled hzip] at hstays ⊢
      rw [back.isTerminal_state, Bool.not_eq_true] at hstays
      exact .inl ⟨old, back, hzip, hstays, rfl⟩
    · rw [hk.afterTurns_of_not_due hcalled hold hdue] at hstays ⊢
      exact .inr ⟨hold, (hk.sleeps_iff hold).mp ⟨hdue, hstays⟩⟩
  · rintro (⟨old, back, hzip, hends, rfl⟩ | ⟨ht, hsleeps⟩)
    · have hdue := mem_dueThreads.mp (List.of_mem_zip hzip).1
      refine ⟨old, hdue.1, hk.afterTurns_of_zip hcalled hzip, ?_⟩
      rw [back.isTerminal_state, hends]
      exact Bool.false_ne_true
    · obtain ⟨hearly, hstays⟩ := (hk.sleeps_iff ht).mpr hsleeps
      exact ⟨t, ht, hk.afterTurns_of_not_due hcalled ht hearly, hstays⟩

end

theorem Orderly.ticked (hk : k.Orderly) (now : Nat) (s : σ) : Ticked w now k s where
  due := fun t => mem_dueThreads.trans (and_congr_right fun ht => hk.isDue_iff ht)
  ascending := hk.dueThreads_ascending now
  order := ⟨(hk.perform (.tick now) s).ascending, ((Operation.tick now).does hk s).nextId⟩
  turns := by
    let k' : Scheduler β := { k with now }
    have hfind : ∀ t ∈ k.dueThreads now, k'.find? t.id = some t := fun t ht =>
      find?_thread (k := k') hk.nodup (mem_dueThreads.mp ht).1
    have hnodup : ((k.dueThreads now).map (·.id)).Nodup :=
      (hk.dueThreads_ascending now).imp fun h => Nat.ne_of_lt h
    -- one hand-back for each due thread, in their order
    obtain ⟨backs, hin, hturns⟩ := resumeAll_inTurn (w := w) hnodup hfind s
    have hall : (Operation.tick now).turns w k s = turnsOf (k.dueThreads now) backs := hturns
    have hcalled : (turnsOf (k.dueThreads now) backs).map (·.thread) = k.due now := by
      rw [← hall]
      exact ((Operation.tick now).does hk s).thread
    refine ⟨backs, hin, fun t' => Iff.trans ?_ (hk.stays_iff hcalled)⟩
    -- who is registered afterwards is read off what every operation does
    have hperform : t' ∈ ((Operation.tick now).perform w k s).1.threads ↔ _ :=
      Operation.mem_perform hk
    rw [hall] at hperform
    simpa [Operation.perform, Operation.newcomer, Operation.sweeps, Operation.time] using hperform

/-- In every scheduler that comes about a tick resumes the due threads, each once and in order, and
    disturbs no other, whatever the threads do. -/
theorem tick_effect (w : World σ β α) (start : Nat) (s : σ) (ops : List (Operation σ β α))
    (now : Nat) : Ticked w now (performAll w ops { now := start } s).1
      (performAll w ops { now := start } s).2 :=
  ((orderly_empty start).performAll ops s).ticked now _

end OscHost.Scheduler
