import Mathlib.Data.Fintype.Card
import Mathlib.Data.Set.Finite.Basic
import OscHost.Proofs.Trees.RoundTrip
/-!
  Values that unfold.

  A table holds the tables that are values of its entries, and a value reaches what is held by what
  it reaches.  A heap has finitely many tables, so when no table that a value reaches holds itself,
  however far down, the value unfolds (`Acyclic.exists_unfolds`): the induction goes down the tables
  that are held, which ends because none comes twice on the way.

  Such a value is converted as if there were no guards, unless more tables are met than may be or
  they are nested deeper than may be.  A table with several parents is none of the guards' business:
  it is converted in full under each of them.
-/

namespace OscHost.Script.Trees

/-! ## What a value reaches -/

/-- Whether a table is the value of an entry of another one. -/
def Holds (h : Heap) (id child : Nat) : Prop := ∃ k, (k, .table child) ∈ (h.table id).entries

/-- Whether a table is a value or held by what the value reaches. -/
def Reaches (h : Heap) (v : Value) (id : Nat) : Prop :=
  ∃ top, v = .table top ∧ Relation.ReflTransGen (Holds h) top id

/-- Whether all tables that a value reaches exist and none of them is held by itself, however far
    down. -/
structure Acyclic (h : Heap) (v : Value) : Prop where
  live : ∀ id, Reaches h v id → id < h.tables.size
  apart : ∀ id, Reaches h v id → ¬ Relation.TransGen (Holds h) id id

variable {h : Heap} {v : Value} {id child : Nat}

theorem Reaches.holds (hr : Reaches h v id) (hc : Holds h id child) : Reaches h v child := by
  obtain ⟨top, hv, htop⟩ := hr
  exact ⟨top, hv, htop.tail hc⟩

/-- What is at a place of the array part of a table is the value of an entry, if it is not nil. -/
theorem mem_entries_of_seq {t : Table} {i : Nat} (hi : t.seq.getD i .nil = .table child) :
    ∃ k, (k, .table child) ∈ t.entries := by
  rw [Array.getD] at hi
  split at hi
  · rename_i hlt
    refine ⟨.int (Int64.ofNat (1 + i)), List.mem_append.mpr (.inl (List.mem_filterMap.mpr ?_))⟩
    refine ⟨(.table child, 1 + i), List.mk_add_mem_zipIdx_iff_getElem?.mpr ?_, rfl⟩
    simpa [hlt] using hi
  · cases hi

/-- So is what is at any other place of a table. -/
theorem mem_entries_of_slots {t : Table} {i : Nat}
    (hi : (t.slots.getD i (.int 0, .nil)).2 = .table child) :
    ∃ k, (k, .table child) ∈ t.entries := by
  rw [Array.getD] at hi
  split at hi
  · rename_i hlt
    have hslot : (t.slots[i].1, Value.table child) ∈ t.slots.toList :=
      hi ▸ Array.getElem_mem_toList hlt
    exact ⟨_, List.mem_append.mpr (.inr (List.mem_filter.mpr ⟨hslot, rfl⟩))⟩
  · cases hi

/-- What is read from a table by a number is the value of an entry. -/
theorem mem_entries_of_getInt {t : Table} {n : Int64} (hg : t.getInt n = .table child) :
    ∃ k, (k, .table child) ∈ t.entries := by
  unfold Table.getInt at hg
  split at hg
  · exact mem_entries_of_seq hg
  · split at hg
    · exact mem_entries_of_slots hg
    · cases hg

/-- The tables that are converted when a table is opened are held by it. -/
theorem holds_of_mem_elements {size : Nat} (hc : .table child ∈ elements (h.table id) size) :
    Holds h id child := by
  obtain ⟨i, _, hi⟩ := List.mem_map.mp hc
  exact mem_entries_of_getInt hi

theorem holds_of_mem_named (hc : .table child ∈ (named (h.table id)).map (·.2)) :
    Holds h id child := by
  obtain ⟨m, hm, hchild⟩ := List.mem_map.mp hc
  obtain ⟨e, he, hname⟩ := List.mem_filterMap.mp hm
  obtain ⟨name, _, rfl⟩ := Option.map_eq_some_iff.mp hname
  exact ⟨e.1, hchild ▸ he⟩

/-! ## Unfolding -/

/-- Values that unfold one by one unfold together. -/
theorem exists_unfolds_of_forall {vs : List Value}
    (hvs : ∀ v ∈ vs, ∃ j n d, Unfolds h [v] [j] n d) : ∃ js n d, Unfolds h vs js n d := by
  induction vs with
  | nil => exact ⟨[], 0, 0, .nil⟩
  | cons v vs ih =>
    obtain ⟨j, m, e, hv⟩ := hvs v (.head _)
    obtain ⟨js, n, d, hrest⟩ := ih fun u hu => hvs u (.tail _ hu)
    exact ⟨j :: js, m + n, max e d, hv.cons hrest⟩

/-- What is inside a table unfolds when every table that it holds does. -/
theorem exists_unfolds_inside {vs : List Value}
    (hvs : ∀ child, .table child ∈ vs → Holds h id child)
    (hheld : ∀ child, Holds h id child → ∃ j n d, Unfolds h [.table child] [j] n d) :
    ∃ js n d, Unfolds h vs js n d := by
  refine exists_unfolds_of_forall fun v hv => ?_
  cases htable : v.isTable with
  | false => exact ⟨_, 0, 0, .leaf htable .nil⟩
  | true =>
    cases v with
    | table child => exact hheld child (hvs child hv)
    | _ => cases htable

/-- A table unfolds when it exists and every table that it holds unfolds. -/
theorem exists_unfolds_table (hid : id < h.tables.size)
    (hheld : ∀ child, Holds h id child → ∃ j n d, Unfolds h [.table child] [j] n d) :
    ∃ j n d, Unfolds h [.table id] [j] n d := by
  cases hshape : classify (h.table id) with
  | array size =>
    obtain ⟨js, n, d, hu⟩ := exists_unfolds_inside (fun child => holds_of_mem_elements) hheld
    exact ⟨_, _, _, .array hid hshape hu .nil⟩
  | map =>
    obtain ⟨js, n, d, hu⟩ := exists_unfolds_inside (fun child => holds_of_mem_named) hheld
    exact ⟨_, _, _, .map hid hshape hu .nil⟩

/-- Going from table to table that is held ends, among those that an acyclic value reaches. -/
theorem Acyclic.wellFounded (hv : Acyclic h v) :
    WellFounded fun a b : { id // Reaches h v id } => Relation.TransGen (Holds h) b.1 a.1 := by
  have : Finite { id // Reaches h v id } :=
    ((Set.finite_lt_nat h.tables.size).subset fun id hid => hv.live id hid).to_subtype
  have : IsTrans { id // Reaches h v id } fun a b => Relation.TransGen (Holds h) b.1 a.1 :=
    ⟨fun _ _ _ hab hbc => hbc.trans hab⟩
  have : Std.Irrefl fun a b : { id // Reaches h v id } => Relation.TransGen (Holds h) b.1 a.1 :=
    ⟨fun a => hv.apart a.1 a.2⟩
  exact Finite.wellFounded_of_trans_of_irrefl _

/-- Without cycles a value unfolds. -/
theorem Acyclic.exists_unfolds (hv : Acyclic h v) : ∃ j n d, Unfolds h [v] [j] n d := by
  have htables : ∀ a : { id // Reaches h v id }, ∃ j n d, Unfolds h [.table a.1] [j] n d := by
    intro a
    induction a using hv.wellFounded.induction with
    | h a ih =>
      exact exists_unfolds_table (hv.live a.1 a.2) fun child hc =>
        ih ⟨child, a.2.holds hc⟩ (.single hc)
  cases htable : v.isTable with
  | false => exact ⟨_, 0, 0, .leaf htable .nil⟩
  | true =>
    cases v with
    | table id => exact htables ⟨id, id, rfl, .refl⟩
    | _ => cases htable

/-- An acyclic value unfolds, in one way only, and when no more tables are met than may be, shared
    ones counted as often as they are met, and they are nested less deep than the limit, it is
    converted into just what it unfolds to, and nothing is told of a guard. -/
theorem ofValue_of_acyclic (h : Heap) (v : Value) (hv : Acyclic h v) :
    ∃ j n d, Unfolds h [v] [j] n d ∧
      (∀ j' n' d', Unfolds h [v] [j'] n' d' → j' = j ∧ n' = n ∧ d' = d) ∧
      (n ≤ maxNodes → d < maxDepth → (ofValue h v).value = j ∧
        ∀ r ∈ (ofValue h v).log, ∃ kind, r = keyWarning kind) := by
  obtain ⟨j, n, d, hu⟩ := hv.exists_unfolds
  refine ⟨j, n, d, hu, fun j' n' d' hu' => ?_, fun hn hd => ?_⟩
  · obtain ⟨hj, hn, hd⟩ := hu'.unique hu
    exact ⟨(List.cons.inj hj).1, hn, hd⟩
  · have hlevels : d ≤ maxDepth - 1 := Nat.le_sub_one_of_lt hd
    exact ⟨ofValue_of_unfolds hu hlevels hn, fun r => log_ofValue_of_unfolds hu hlevels hn⟩

/-! ## A table with two parents -/

/-- A table with one number, and one that holds it twice. -/
def shared : Heap := { tables := #[{ seq := #[.int 1] }, { seq := #[.table 0, .table 0] }] }

theorem holds_shared (hc : Holds shared id child) : id = 1 ∧ child = 0 := by
  obtain ⟨k, hk⟩ := hc
  match id with
  | 0 => simp [shared, Heap.table, Table.entries, Value.isNil] at hk
  | 1 =>
    have hplaces : (k = .int 1 ∧ child = 0) ∨ (k = .int 2 ∧ child = 0) := by
      simpa [shared, Heap.table, Table.entries, Value.isNil] using hk
    exact ⟨rfl, hplaces.elim And.right And.right⟩
  | _ + 2 => simp [shared, Heap.table, Table.entries] at hk

theorem shared_acyclic : Acyclic shared (.table 1) where
  live := by
    rintro id ⟨top, hv, htop⟩
    cases hv
    cases htop with
    | refl => decide
    | tail _ hlast => rw [(holds_shared hlast).2]; decide
  apart := by
    intro id _ hcycle
    obtain ⟨next, hfirst, _⟩ := Relation.TransGen.head'_iff.mp hcycle
    obtain ⟨last, _, hlast⟩ := Relation.TransGen.tail'_iff.mp hcycle
    have hone := (holds_shared hfirst).1
    have hzero := (holds_shared hlast).2
    omega

theorem shared_unfolds : Unfolds shared [.table 1]
    [.array [.array [.int 1], .array [.int 1]]] 3 2 := by
  have houter : Table.AllSome [.table 0, .table 0] := by decide
  have hinnermost : Table.AllSome [.int 1] := by decide
  have hinner {vs js n d} (rest : Unfolds shared vs js n d) :
      Unfolds shared (.table 0 :: vs) (.array [.int 1] :: js) (0 + 1 + n) (max (0 + 1) d) :=
    .seq (by decide) rfl hinnermost (by decide) (.leaf rfl .nil) rest
  exact .seq (m := 2) (e := 1) (n := 0) (d := 0) (by decide) rfl houter (by decide)
    (hinner (hinner .nil)) .nil

/-- The number comes under both parents. -/
theorem ofValue_of_acyclic_shared : Acyclic shared (.table 1) ∧
    (ofValue shared (.table 1)).value = .array [.array [.int 1], .array [.int 1]] := by
  obtain ⟨j, n, d, _, honly, hconverted⟩ := ofValue_of_acyclic shared (.table 1) shared_acyclic
  obtain ⟨rfl, rfl, rfl⟩ := honly _ _ _ shared_unfolds
  exact ⟨shared_acyclic, (hconverted (by decide) (by decide)).1⟩

end OscHost.Script.Trees
