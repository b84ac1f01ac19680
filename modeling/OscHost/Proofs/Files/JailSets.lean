import Mathlib.Data.List.Nodup
import OscHost.Proofs.Files.Containment
/-!
  Jail sets.

  A set tries its members in order and takes the first answer, so what it answers is told by the
  list of its members alone (`resolve_eq_ok_iff`).  Inserting only ever puts a jail behind that list
  (`jails_insertAll`).  So an answer that is there stays, whatever comes after it.  A relative
  request means another place below each root, and which place is meant depends on the order; whether
  some place is meant depends on who is a member, and that does not (`mem_insertAll`).
-/

namespace OscHost.Files.JailSet

variable {t : Tree} {around : Surroundings} {requested : String} {l : Location}
variable {s : JailSet} {j : Jail} {js js' more : List Jail}

/-- Adds jails one after the other. -/
def insertAll (s : JailSet) (js : List Jail) : JailSet := js.foldl insert s

/-! ## The first that accepts -/

theorem firstResolved_eq_ok_iff {last : Refusal} :
    firstResolved t around requested last js = .ok l ↔
      ∃ before j after, js = before ++ j :: after ∧ j.resolve t around requested = .ok l ∧
        ∀ b ∈ before, ∀ k, b.resolve t around requested ≠ .ok k := by
  induction js generalizing last with
  | nil =>
    refine ⟨nofun, fun ⟨before, j, after, hsplit, _⟩ => ?_⟩
    cases before <;> cases hsplit
  | cons j rest ih =>
    rw [firstResolved]
    rcases hj : j.resolve t around requested with e | k
    · -- a refusal is passed by
      rw [ih]
      constructor
      · rintro ⟨before, i, after, rfl, hi, hbefore⟩
        refine ⟨j :: before, i, after, rfl, hi, ?_⟩
        rintro b (_ | ⟨_, hb⟩) m hm
        · cases hj.symm.trans hm
        · exact hbefore b hb m hm
      · rintro ⟨before, i, after, hsplit, hi, hbefore⟩
        cases before with
        | nil =>
          cases hsplit
          cases hj.symm.trans hi
        | cons b before =>
          cases hsplit
          exact ⟨before, i, after, rfl, hi, fun b hb => hbefore b (.tail _ hb)⟩
    · constructor
      · intro h
        cases h
        exact ⟨[], j, rest, rfl, hj, nofun⟩
      · rintro ⟨before, i, after, hsplit, hi, hbefore⟩
        cases before with
        | nil =>
          cases hsplit
          exact hj.symm.trans hi
        | cons b before =>
          cases hsplit
          exact absurd hj (hbefore j List.mem_cons_self k)

/-- Where some member accepts, some member is the first that does. -/
theorem exists_firstResolved {last : Refusal} (hj : j ∈ js)
    (h : j.resolve t around requested = .ok l) :
    ∃ k, firstResolved t around requested last js = .ok k := by
  induction js generalizing last with
  | nil => cases hj
  | cons b rest ih =>
    rw [firstResolved]
    rcases hb : b.resolve t around requested with e | k
    · cases hj with
      | head => cases hb.symm.trans h
      | tail _ hj => exact ih hj
    · exact ⟨k, rfl⟩

/-- The answer of a set is that of the first member that has one. -/
theorem resolve_eq_ok_iff :
    s.resolve t around requested = .ok l ↔
      ∃ before j after, s.jails = before ++ j :: after ∧ j.resolve t around requested = .ok l ∧
        ∀ b ∈ before, ∀ k, b.resolve t around requested ≠ .ok k :=
  firstResolved_eq_ok_iff

/-- A set has an answer when one of its members has one. -/
theorem exists_resolve_iff :
    (∃ l, s.resolve t around requested = .ok l) ↔
      ∃ j ∈ s.jails, ∃ l, j.resolve t around requested = .ok l := by
  constructor
  · rintro ⟨l, h⟩
    obtain ⟨before, j, after, hs, hj, -⟩ := resolve_eq_ok_iff.mp h
    exact ⟨j, hs ▸ List.mem_append_right _ List.mem_cons_self, l, hj⟩
  · rintro ⟨j, hj, l, h⟩
    exact exists_firstResolved hj h

/-! ## Inserting -/

theorem insert_eq : s.insert j = if j ∈ s.jails then s else ⟨s.jails ++ [j]⟩ := by
  simp only [insert, List.contains_iff_mem]

/-- A history of insertions adds, in order, what was not a member, each once. -/
theorem jails_insertAll :
    (s.insertAll js).jails = s.jails ++ (js.filter (· ∉ s.jails)).eraseDups := by
  induction js generalizing s with
  | nil => exact (List.append_nil _).symm
  | cons j rest ih =>
    show ((s.insert j).insertAll rest).jails = _
    rw [ih, insert_eq]
    by_cases hj : j ∈ s.jails
    · rw [if_pos hj, List.filter_cons_of_neg (by simpa using hj)]
    · rw [if_neg hj, List.filter_cons_of_pos (by simpa using hj), List.eraseDups_cons,
        List.filter_filter, List.append_assoc]
      have hsame : (rest.filter fun a => a ∉ s.jails ++ [j]) =
          rest.filter fun a => !(a == j) && decide (a ∉ s.jails) :=
        List.filter_congr fun a _ => by grind
      rw [hsame]
      rfl

theorem mem_insertAll : j ∈ (s.insertAll js).jails ↔ j ∈ s.jails ∨ j ∈ js := by
  rw [jails_insertAll, List.mem_append, List.mem_eraseDups, List.mem_filter]
  by_cases hj : j ∈ s.jails <;> simp [hj]

/-- Inserting members adds nothing. -/
theorem insertAll_eq_self (h : ∀ j ∈ js, j ∈ s.jails) : s.insertAll js = s := by
  induction js with
  | nil => rfl
  | cons j rest ih =>
    show (s.insert j).insertAll rest = s
    rw [insert_eq, if_pos (h j List.mem_cons_self)]
    exact ih fun i hi => h i (.tail _ hi)

theorem nodup_insert (h : s.jails.Nodup) : (s.insert j).jails.Nodup := by
  rw [insert_eq]
  split
  · exact h
  · next hj => exact List.nodup_append.mpr ⟨h, List.nodup_singleton j, by grind⟩

theorem nodup_insertAll (h : s.jails.Nodup) : (s.insertAll js).jails.Nodup := by
  induction js generalizing s with
  | nil => exact h
  | cons j rest ih => exact ih (nodup_insert h)

/-- Nothing is a member of the empty set, so a history of it adds each jail, once. -/
theorem nodup_eraseDups (js : List Jail) : js.eraseDups.Nodup := by
  have hjails : (insertAll {} js).jails = js.eraseDups := by
    rw [jails_insertAll, List.filter_eq_self.mpr fun j _ => decide_eq_true List.not_mem_nil]
    rfl
  exact hjails ▸ nodup_insertAll List.nodup_nil

/-- What a set answers it answers when it has grown. -/
theorem resolve_insertAll (h : s.resolve t around requested = .ok l) :
    (s.insertAll more).resolve t around requested = .ok l := by
  obtain ⟨before, j, after, hs, hj, hbefore⟩ := resolve_eq_ok_iff.mp h
  obtain ⟨added, hadded⟩ : ∃ added, (s.insertAll more).jails = s.jails ++ added :=
    ⟨_, jails_insertAll⟩
  rw [hs, List.append_assoc, List.cons_append] at hadded
  exact resolve_eq_ok_iff.mpr ⟨before, j, _, hadded, hj, hbefore⟩

/-! ## Histories -/

/-- What a set that started with some jails makes of a history of insertions.

    Its members are those that it started with and, in the order of insertion, the others.  It
    answers a request exactly when some member does, with the answer of the first that does.  What
    it answers stays when it grows on.  Two histories that insert the same jails, in whatever order
    and however often, end in sets that answer the same requests.  And a set that starts with
    nothing holds no root twice. -/
theorem extends_conservatively (t : Tree) (around : Surroundings) (initial js : List Jail) :
    let s := insertAll ⟨initial⟩ js
    s.jails = initial ++ (js.filter (· ∉ initial)).eraseDups ∧
    (∀ requested l, s.resolve t around requested = .ok l ↔
      ∃ before j after, s.jails = before ++ j :: after ∧ j.resolve t around requested = .ok l ∧
        ∀ b ∈ before, ∀ k, b.resolve t around requested ≠ .ok k) ∧
    (∀ requested, (∃ l, s.resolve t around requested = .ok l) ↔
      ∃ j ∈ s.jails, ∃ l, j.resolve t around requested = .ok l) ∧
    (∀ more requested l, s.resolve t around requested = .ok l →
      (s.insertAll more).resolve t around requested = .ok l) ∧
    (∀ js', (∀ j, j ∈ js' ↔ j ∈ js) → ∀ requested,
      ((∃ l, (insertAll ⟨initial⟩ js').resolve t around requested = .ok l) ↔
        ∃ l, s.resolve t around requested = .ok l)) ∧
    ((insertAll {} js).jails.map Jail.root).Nodup := by
  intro s
  refine ⟨jails_insertAll, fun requested l => resolve_eq_ok_iff,
    fun requested => exists_resolve_iff, fun more requested l => resolve_insertAll,
    fun js' hsame requested => ?_, ?_⟩
  · -- acceptance only asks who the members are, and these do not depend on the order
    have hmem : ∀ j, j ∈ (insertAll ⟨initial⟩ js').jails ↔ j ∈ s.jails := by
      intro j
      rw [mem_insertAll, mem_insertAll, hsame]
    rw [exists_resolve_iff, exists_resolve_iff]
    simp only [hmem]
  · -- a jail is nothing but its root
    have hdistinct : (insertAll {} js).jails.Nodup := nodup_insertAll List.nodup_nil
    refine hdistinct.map ?_
    rintro ⟨root⟩ ⟨root'⟩ rfl
    rfl

/-- The yard takes the request for its link, with a street beside it or before it. -/
theorem yard_extends_conservatively :
    let yard := Jail.make Jail.yard Jail.visitor "yard"
    (insertAll {} [yard]).resolve Jail.yard Jail.visitor "new" = .ok ["yard", "new"] ∧
    ((insertAll {} [yard]).insertAll [⟨["street"]⟩, yard]).resolve Jail.yard Jail.visitor "new" =
      .ok ["yard", "new"] ∧
    (∀ j, j ∈ [⟨["street"]⟩, yard] ↔ j ∈ [yard, ⟨["street"]⟩]) ∧
    ∃ l, (insertAll {} [⟨["street"]⟩, yard]).resolve Jail.yard Jail.visitor "new" = .ok l := by
  intro yard
  have hone := extends_conservatively Jail.yard Jail.visitor [] [yard]
  have htwo := extends_conservatively Jail.yard Jail.visitor [] [yard, ⟨["street"]⟩]
  have hnew : (insertAll {} [yard]).resolve Jail.yard Jail.visitor "new" = .ok ["yard", "new"] :=
    (hone.2.1 _ _).mpr ⟨[], yard, [], rfl, Jail.yard_resolve, nofun⟩
  have hswap : ∀ j, j ∈ [⟨["street"]⟩, yard] ↔ j ∈ [yard, ⟨["street"]⟩] :=
    fun j => (List.Perm.swap _ _ []).mem_iff
  refine ⟨hnew, hone.2.2.2.1 _ _ _ hnew, hswap, ?_⟩
  refine (htwo.2.2.2.2.1 _ hswap "new").mpr ((htwo.2.2.1 "new").mpr ?_)
  exact ⟨yard, mem_insertAll.mpr (.inr List.mem_cons_self), _, Jail.yard_resolve⟩

end OscHost.Files.JailSet
