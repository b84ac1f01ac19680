import OscHost.Proofs.Script.Coroutines
/-!
  How a coroutine that yields is left, and how a run ends.

  When a coroutine yields or ends, whoever has resumed it is handed the values.  When nobody has but the
  host, the run ends with them.  So a run that ends with values yielded is one in which the coroutine
  that the host has resumed, and no other, yields them.
-/

namespace OscHost.Script

namespace Machine

variable {m m' : Machine} {f : Focus} {h h' : Heap} {o : Outcome} {c : Context} {vs : List Value}
  {invoke : Value → List Value → Lib (List Value)}

/-- A coroutine hands over its end to the host only when nobody waits for it. -/
theorem leave_ended {r : Except Value (List Value)} {standing : Standing}
    (he : leave m r standing h = .ended o m' h') : m.resumers = [] ∧ o = outcomeOf r standing := by
  unfold leave at he
  extract_lets m₁ at he
  have hsame : m₁.resumers = m.resumers := resumers_stand _ _
  split at he
  · cases he
  · rename_i hr
    cases he
    exact ⟨hsame ▸ hr, rfl⟩

/-- Whoever waits for a coroutine is handed its end. -/
theorem leave_next {r : Except Value (List Value)} {standing : Standing} {waiting : Resumer}
    {rest : List Resumer} (hr : m.resumers = waiting :: rest) : ∃ m', leave m r standing h =
      .next m' (.library (waiting.k r h) waiting.context) := by
  unfold leave
  extract_lets m₁
  have hsame : m₁.resumers = waiting :: rest := (resumers_stand _ _).trans hr
  rw [hsame]
  exact ⟨_, rfl⟩

/-- Unless it is within a call that it cannot leave, a coroutine that yields is left. -/
theorem yieldStep_loose {id : Nat} (hid : m.thread = some id) (hl : loose m.frames)
    (k : List Value → Heap → Action) : ∃ m₁ : Machine, m₁.resumers = m.resumers ∧
      yieldStep m c vs h k = leave m₁ (.ok vs) .suspended h := by
  unfold yieldStep
  rw [hid]
  dsimp only
  rw [if_neg (by simpa using hl)]
  refine ⟨_, ?_, rfl⟩
  rfl

theorem outcomeOf_error (v : Value) (standing : Standing) :
    outcomeOf (.error v) standing = .failed v := by
  cases standing <;> rfl

theorem yieldStep_ended {k : List Value → Heap → Action}
    (he : yieldStep m c vs h k = .ended o m' h') :
    o = .yielded vs ∧ m.chain = [m.thread] ∧ m.thread.isSome ∧ loose m.frames := by
  unfold yieldStep at he
  split at he
  · cases he
  · rename_i id hid
    split at he
    · cases he
    · rename_i hl
      obtain ⟨hr, ho⟩ := leave_ended he
      refine ⟨ho, ?_, by rw [hid]; rfl, by simpa using hl⟩
      unfold chain
      rw [show m.resumers = [] from hr]
      rfl

/-- What an error comes to that nobody catches. -/
theorem uncaught_ended {v : Value} (he : uncaught m v h = .ended o m' h') : o = .failed v := by
  unfold uncaught at he
  extract_lets openValues at he
  split at he
  · exact (leave_ended he).2.trans (outcomeOf_error v _)
  · split at he
    · exact (leave_ended he).2.trans (outcomeOf_error v _)
    · cases he

theorem giveBack_ended (he : giveBack m vs h = .ended o m' h') : o = .finished vs := by
  unfold giveBack at he
  split at he
  · exact (leave_ended he).2
  · cases he
  · split at he <;> cases he

theorem resumeStep_ended {thread : Nat} {args : List Value}
    {k : Except Value (List Value) → Heap → Action}
    (he : resumeStep invoke m c thread args h k = .ended o m' h') : False := by
  unfold resumeStep at he
  extract_lets refused resumer base m₁ at he
  split at he
  · cases he
  · cases he
  · cases he
  · split at he <;> cases he

/-- A run ends with values yielded when what the host has begun, and nobody else, yields them. -/
theorem step_yielded (he : step invoke m f = .ended (.yielded vs) m' h') :
    ∃ h k c, f = .library (.yield vs h k) c ∧ m.chain = [m.thread] ∧ m.thread.isSome ∧
      loose m.frames := by
  cases f with
  | script a h =>
    unfold step at he
    dsimp only at he
    split at he
    · cases he
    · cases he
    · split at he <;> cases he
    · cases he
    · cases he
  | library x c =>
    cases x with
    -- the one step that ends so; all others go on or end otherwise
    | yield values h k =>
      obtain ⟨ho, hrest⟩ := yieldStep_ended he
      cases ho
      exact ⟨h, k, c, rfl, hrest⟩
    | resume thread args h k => exact (resumeStep_ended he).elim
    | _ => cases he
  | values vs h => cases giveBack_ended he
  | error v h =>
    unfold step at he
    dsimp only at he
    split at he <;> cases he
  | unwind v h =>
    unfold step at he
    dsimp only at he
    split at he
    · cases uncaught_ended he
    · cases he

end Machine
end OscHost.Script
