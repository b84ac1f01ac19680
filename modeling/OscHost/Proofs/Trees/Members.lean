import Mathlib.Data.List.Nodup
import Mathlib.Data.List.Perm.Subperm
import OscHost.Script.Trees
/-!
  Which members are kept.

  The members of an object come in the order of a traversal, and a later one replaces an earlier one of
  the same name.  They are sorted by name first, in such a way that those of one name stay in their
  order (`Trees.filter_sorted`), and of each run of one name the last one is kept
  (`Trees.mem_lastMembers`).  So an object has one member for each name, in ascending order
  (`Trees.lastMembers_ascending`).
-/

namespace OscHost.Script.Trees

variable {members members' : List (String × Json)} {m : String × Json} {name : String}

/-! ## Sorting -/

/-- Whether one member may stand before another one. -/
abbrev before (a b : String × Json) : Bool := decide (a.1 ≤ b.1)

theorem before_trans (a b c : String × Json) (hab : before a b = true) (hbc : before b c = true) :
    before a c = true :=
  decide_eq_true (String.le_trans (of_decide_eq_true hab) (of_decide_eq_true hbc))

theorem before_total (a b : String × Json) : (before a b || before b a) = true := by
  rw [Bool.or_eq_true]
  exact (String.le_total a.1 b.1).imp decide_eq_true decide_eq_true

theorem sorted_pairwise (members : List (String × Json)) :
    (members.mergeSort before).Pairwise fun a b => a.1 ≤ b.1 :=
  (List.pairwise_mergeSort before_trans before_total members).imp of_decide_eq_true

/-- Members of one name stay in their order. -/
theorem filter_sorted (members : List (String × Json)) (name : String) :
    (members.mergeSort before).filter (·.1 == name) = members.filter (·.1 == name) := by
  have hsame : (members.filter (·.1 == name)).Pairwise fun a b => before a b = true := by
    refine List.pairwise_of_forall_mem_list fun a ha b hb => decide_eq_true ?_
    have hname := (eq_of_beq (List.mem_filter.mp ha).2).trans (eq_of_beq (List.mem_filter.mp hb).2).symm
    exact hname ▸ String.le_refl a.1
  have hsub : (members.filter (·.1 == name)).Sublist (members.mergeSort before) :=
    List.sublist_mergeSort before_trans before_total hsame List.filter_sublist
  have hfiltered := hsub.filter (·.1 == name)
  rw [List.filter_filter] at hfiltered
  simp only [Bool.and_self] at hfiltered
  exact (hfiltered.eq_of_length
    ((List.mergeSort_perm members before).filter _).length_eq.symm).symm

/-! ## Runs of one name -/

/-- The last member of each run of one name. -/
def lastOfRuns : List (String × Json) → List (String × Json)
  | a :: b :: rest => if a.1 == b.1 then lastOfRuns (b :: rest) else a :: lastOfRuns (b :: rest)
  | [a] => [a]
  | [] => []

theorem go_eq (members acc : List (String × Json)) :
    lastMembers.go members acc = acc.reverse ++ lastOfRuns members := by
  fun_induction lastOfRuns members generalizing acc with
  | case1 a b rest hsame ih => rw [lastMembers.go, if_pos hsame, ih]
  | case2 a b rest hother ih =>
    rw [lastMembers.go, if_neg hother, ih, List.reverse_cons, List.append_assoc]
    rfl
  | case3 a => rw [lastMembers.go, List.reverse_cons]
  | case4 => rw [lastMembers.go, List.append_nil]

theorem lastMembers_eq (members : List (String × Json)) :
    lastMembers members = lastOfRuns (members.mergeSort before) := by
  unfold lastMembers
  dsimp only
  exact go_eq _ []

theorem lastOfRuns_sublist (l : List (String × Json)) : (lastOfRuns l).Sublist l := by
  fun_induction lastOfRuns l with
  | case1 a b rest hsame ih => exact ih.cons a
  | case2 a b rest hother ih => exact ih.cons_cons a
  | case3 a => exact .refl _
  | case4 => exact .refl _

/-- A member whose name ends a run stands before all that follow. -/
theorem lt_of_run_ends {a b : String × Json} {rest : List (String × Json)}
    (hl : (a :: b :: rest).Pairwise fun a b => a.1 ≤ b.1) (hother : ¬ (a.1 == b.1) = true) :
    ∀ c ∈ b :: rest, a.1 < c.1 := by
  obtain ⟨ha, hrest⟩ := List.pairwise_cons.mp hl
  have hab : a.1 < b.1 :=
    Std.lt_of_le_of_ne (ha b List.mem_cons_self) fun h => hother (beq_iff_eq.mpr h)
  intro c hc
  rcases List.mem_cons.mp hc with rfl | hc
  · exact hab
  · exact Std.lt_of_lt_of_le hab ((List.pairwise_cons.mp hrest).1 c hc)

/-- Sorted members keep one of each name. -/
theorem lastOfRuns_ascending {l : List (String × Json)} (hl : l.Pairwise fun a b => a.1 ≤ b.1) :
    ((lastOfRuns l).map (·.1)).Pairwise (· < ·) := by
  fun_induction lastOfRuns l with
  | case1 a b rest hsame ih => exact ih (List.pairwise_cons.mp hl).2
  | case2 a b rest hother ih =>
    rw [List.map_cons, List.pairwise_cons]
    refine ⟨fun name hname => ?_, ih (List.pairwise_cons.mp hl).2⟩
    obtain ⟨c, hc, rfl⟩ := List.mem_map.mp hname
    exact lt_of_run_ends hl hother c ((lastOfRuns_sublist _).subset hc)
  | case3 a => exact List.pairwise_singleton _ _
  | case4 => exact .nil

/-- Of each name the last one is kept. -/
theorem mem_lastOfRuns {l : List (String × Json)} (hl : l.Pairwise fun a b => a.1 ≤ b.1) :
    m ∈ lastOfRuns l ↔ (l.filter (·.1 == m.1)).getLast? = some m := by
  fun_induction lastOfRuns l with
  | case1 a b rest hsame ih =>
    rw [ih (List.pairwise_cons.mp hl).2, List.filter_cons (x := a)]
    by_cases ha : (a.1 == m.1) = true
    · -- the next one has the same name, so this one is not the last
      have hb : (b.1 == m.1) = true := eq_of_beq hsame ▸ ha
      rw [if_pos ha, List.filter_cons (x := b), if_pos hb, List.getLast?_cons_cons]
    · rw [if_neg ha]
  | case2 a b rest hother ih =>
    have hlater := lt_of_run_ends hl hother
    rw [List.mem_cons, ih (List.pairwise_cons.mp hl).2, List.filter_cons (x := a)]
    by_cases ha : a.1 = m.1
    · have hnone : (b :: rest).filter (·.1 == m.1) = [] := by
        refine List.filter_eq_nil_iff.mpr fun c hc hname => ?_
        have hlt := hlater c hc
        rw [eq_of_beq hname, ha] at hlt
        exact String.lt_irrefl _ hlt
      rw [if_pos (beq_iff_eq.mpr ha), hnone]
      simp [eq_comm]
    · rw [if_neg fun h => ha (eq_of_beq h)]
      refine or_iff_right fun h => ha ?_
      rw [h]
  | case3 a =>
    rw [List.mem_singleton, List.filter_cons (x := a)]
    by_cases ha : a.1 = m.1
    · rw [if_pos (beq_iff_eq.mpr ha)]
      simp [eq_comm]
    · rw [if_neg fun h => ha (eq_of_beq h)]
      exact iff_of_false (fun h => ha (by rw [h])) (by simp)
  | case4 => simp

/-! ## The members of an object -/

/-- Of some members the last ones of their names are left, in another order. -/
theorem lastMembers_subperm (members : List (String × Json)) :
    (lastMembers members).Subperm members := by
  rw [lastMembers_eq]
  exact (lastOfRuns_sublist _).subperm.trans (List.mergeSort_perm members _).subperm

theorem lastMembers_ascending (members : List (String × Json)) :
    ((lastMembers members).map (·.1)).Pairwise (· < ·) := by
  rw [lastMembers_eq]
  exact lastOfRuns_ascending (sorted_pairwise members)

/-- Kept is the last member of each name. -/
theorem mem_lastMembers :
    m ∈ lastMembers members ↔ (members.filter (·.1 == m.1)).getLast? = some m := by
  rw [lastMembers_eq, mem_lastOfRuns (sorted_pairwise members), filter_sorted]

/-- Members of different names are all kept. -/
theorem lastMembers_perm (hnames : (members.map (·.1)).Nodup) :
    (lastMembers members).Perm members := by
  have hascending := lastMembers_ascending members
  have hkept : (lastMembers members).Nodup :=
    (List.pairwise_map.mp hascending).imp fun hlt he => by
      rw [he] at hlt
      exact String.lt_irrefl _ hlt
  refine (List.perm_ext_iff_of_nodup hkept (List.Nodup.of_map _ hnames)).mpr fun m => ?_
  rw [mem_lastMembers]
  constructor
  · intro hlast
    exact (List.mem_filter.mp (List.mem_of_getLast? hlast)).1
  · intro hm
    -- no other one has its name
    cases hlast : (members.filter (·.1 == m.1)).getLast? with
    | none =>
      have hmem : m ∈ members.filter (·.1 == m.1) := List.mem_filter.mpr ⟨hm, BEq.rfl⟩
      rw [List.getLast?_eq_none_iff.mp hlast] at hmem
      cases hmem
    | some last =>
      obtain ⟨hin, hname⟩ := List.mem_filter.mp (List.mem_of_getLast? hlast)
      rw [List.inj_on_of_nodup_map hnames hin hm (eq_of_beq hname)]

/-- And they are put in the one ascending order they have. -/
theorem lastMembers_eq_of_ascending (hascending : (members'.map (·.1)).Pairwise (· < ·))
    (hperm : members'.Perm members) : lastMembers members = members' := by
  have hnames : (members.map (·.1)).Nodup :=
    (hperm.map _).nodup_iff.mp (hascending.imp String.ne_of_lt)
  refine ((lastMembers_perm hnames).trans hperm.symm).eq_of_pairwise
    (fun a b _ _ hab hba => ?_) (List.pairwise_map.mp (lastMembers_ascending members))
    (List.pairwise_map.mp hascending)
  exact absurd (String.lt_trans hab hba) (String.lt_irrefl _)

/-- So members that are sorted by different names stay as they are. -/
theorem lastMembers_of_sorted (hs : (members.map (·.1)).Pairwise (· < ·)) :
    lastMembers members = members :=
  lastMembers_eq_of_ascending hs (.refl members)

/-- Members of different names are the same in whatever order they come. -/
theorem lastMembers_eq_of_perm (hnames : (members.map (·.1)).Nodup)
    (hperm : members'.Perm members) : lastMembers members' = lastMembers members :=
  lastMembers_eq_of_ascending (lastMembers_ascending members)
    ((lastMembers_perm hnames).trans hperm.symm)

end OscHost.Script.Trees
