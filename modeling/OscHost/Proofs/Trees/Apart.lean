import Mathlib.Algebra.BigOperators.Group.List.Basic
import Mathlib.Algebra.GroupWithZero.Nat
import OscHost.Proofs.Trees.Bounds
/-!
  Values side by side.

  What a value is converted into depends on how many tables were counted before it, but only where it
  is cut for their number.  So as long as the limit is not passed, values side by side become what each
  becomes by itself (`Mirrors.eq_apart`), and the tables of all are counted together.
-/

namespace OscHost.Script.Trees

variable {h : Heap} {room n n' m m' : Nat} {path : List Nat} {v : Value} {vs : List Value}
  {js js' : List Json} {w w' : Walk} {log : List LogRecord}

/-- What the guards tell. -/
def guardWarnings : List LogRecord := [depthWarning, countWarning, cycleWarning]

theorem Makes.mirrors_guards (hm : Makes h room path w vs js w') :
    Mirrors h guardWarnings room path w.nodes vs js w'.nodes := by
  have hdeep : depthWarning ∈ guardWarnings := .head _
  have hmany : countWarning ∈ guardWarnings := .tail _ (.head _)
  have hagain : cycleWarning ∈ guardWarnings := .tail _ (.tail _ (.head _))
  induction hm with
  | done => exact .nil
  | leaf hv _ ih => exact .leaf hv ih
  | passed _ _ ih => exact ih
  | deep _ ih => exact .deep hdeep ih
  | many hn _ ih => exact .many hmany hn (by rwa [Walk.overCount_nodes] at ih)
  | again hn hid _ ih => exact .again hagain hn hid ih
  | array hn hid shape _ _ ihInside ih => exact .array hn hid shape ihInside ih
  | map hn hid shape _ _ ihInside ih => exact .map hn hid shape ihInside ih

namespace Mirrors

theorem le (hm : Mirrors h log room path n vs js n') : n ≤ n' := by
  induction hm with
  | nil => exact Nat.le_refl _
  | leaf _ _ ih | deep _ _ ih => exact ih
  | many _ _ _ ih | again _ _ _ _ ih => exact Nat.le_of_succ_le ih
  | array _ _ _ _ _ ihInside ih | map _ _ _ _ _ ihInside ih =>
    exact Nat.le_trans (Nat.le_of_succ_le ihInside) ih

/-- Values mirror in one way only. -/
theorem unique (hm : Mirrors h log room path n vs js n') (hm' : Mirrors h log room path n vs js' m') :
    js = js' ∧ n' = m' := by
  -- the count, the path and the shape leave one way for each value
  induction hm generalizing js' m' with
  | nil =>
    cases hm'
    exact ⟨rfl, rfl⟩
  | leaf hv _ ih =>
    cases hm' with
    | leaf _ rest =>
      obtain ⟨rfl, rfl⟩ := ih rest
      exact ⟨rfl, rfl⟩
    | deep | many | again | array | map => cases hv
  | deep _ _ ih =>
    cases hm' with
    | leaf hv => cases hv
    | deep _ rest =>
      obtain ⟨rfl, rfl⟩ := ih rest
      exact ⟨rfl, rfl⟩
  | many _ hn _ ih =>
    cases hm' with
    | leaf hv => cases hv
    | many _ _ rest =>
      obtain ⟨rfl, rfl⟩ := ih rest
      exact ⟨rfl, rfl⟩
    | again _ hn' | array hn' | map hn' => exact absurd hn' (Nat.not_le.mpr hn)
  | again _ hn hid _ ih =>
    cases hm' with
    | leaf hv => cases hv
    | many _ hn' => exact absurd hn (Nat.not_le.mpr hn')
    | again _ _ _ rest =>
      obtain ⟨rfl, rfl⟩ := ih rest
      exact ⟨rfl, rfl⟩
    | array _ hid' | map _ hid' => exact absurd hid hid'
  | array hn hid shape _ _ ihInside ih =>
    cases hm' with
    | leaf hv => cases hv
    | many _ hn' => exact absurd hn (Nat.not_le.mpr hn')
    | again _ _ hid' => exact absurd hid' hid
    | array _ _ shape' inside rest =>
      cases shape.symm.trans shape'
      obtain ⟨rfl, rfl⟩ := ihInside inside
      obtain ⟨rfl, rfl⟩ := ih rest
      exact ⟨rfl, rfl⟩
    | map _ _ shape' => cases shape.symm.trans shape'
  | map hn hid shape _ _ ihInside ih =>
    cases hm' with
    | leaf hv => cases hv
    | many _ hn' => exact absurd hn (Nat.not_le.mpr hn')
    | again _ _ hid' => exact absurd hid' hid
    | array _ _ shape' => cases shape.symm.trans shape'
    | map _ _ _ inside rest =>
      obtain ⟨rfl, rfl⟩ := ihInside inside
      obtain ⟨rfl, rfl⟩ := ih rest
      exact ⟨rfl, rfl⟩

/-- Within the limit it does not matter how many tables were counted before. -/
theorem shift (hm : Mirrors h log room path n vs js n') (hn : n' ≤ maxNodes) (m m' : Nat)
    (hcount : m' + n = m + n') (hm' : m' ≤ maxNodes) : Mirrors h log room path m vs js m' := by
  induction hm generalizing m m' with
  | nil =>
    obtain rfl : m' = m := by omega
    exact .nil
  | leaf hv _ ih => exact .leaf hv (ih hn _ _ hcount hm')
  | deep told _ ih => exact .deep told (ih hn _ _ hcount hm')
  | many _ hover rest =>
    -- here the count would have passed the limit
    have := rest.le
    omega
  | again told _ hid rest ih =>
    have hle := rest.le
    exact .again told (by omega) hid (ih hn _ _ (by omega) hm')
  | array _ hid shape inside rest ihInside ih =>
    obtain ⟨inner, hinner⟩ := Nat.exists_eq_add_of_le inside.le
    have hle := rest.le
    have hinside := ihInside (by omega) (m + 1) (m + 1 + inner) (by omega) (by omega)
    exact .array (by omega) hid shape hinside (ih hn _ _ (by omega) hm')
  | map _ hid shape inside rest ihInside ih =>
    obtain ⟨inner, hinner⟩ := Nat.exists_eq_add_of_le inside.le
    have hle := rest.le
    have hinside := ihInside (by omega) (m + 1) (m + 1 + inner) (by omega) (by omega)
    exact .map (by omega) hid shape hinside (ih hn _ _ (by omega) hm')

/-- In front of other values one mirrors by itself. -/
theorem uncons (hm : Mirrors h log room path n (v :: vs) js n') :
    ∃ j js' n₁, js = j :: js' ∧ Mirrors h log room path n [v] [j] n₁ ∧
      Mirrors h log room path n₁ vs js' n' := by
  cases hm with
  | leaf hv rest => exact ⟨_, _, _, rfl, .leaf hv .nil, rest⟩
  | deep told rest => exact ⟨_, _, _, rfl, .deep told .nil, rest⟩
  | many told hn rest => exact ⟨_, _, _, rfl, .many told hn .nil, rest⟩
  | again told hn hid rest => exact ⟨_, _, _, rfl, .again told hn hid .nil, rest⟩
  | array hn hid shape inside rest => exact ⟨_, _, _, rfl, .array hn hid shape inside .nil, rest⟩
  | map hn hid shape inside rest => exact ⟨_, _, _, rfl, .map hn hid shape inside .nil, rest⟩

theorem cons {j : Json} {n₁ : Nat} (hv : Mirrors h log room path n [v] [j] n₁)
    (hm : Mirrors h log room path n₁ vs js n') :
    Mirrors h log room path n (v :: vs) (j :: js) n' := by
  cases hv with
  | leaf hv rest =>
    cases rest
    exact .leaf hv hm
  | deep told rest =>
    cases rest
    exact .deep told hm
  | many told hn rest =>
    cases rest
    exact .many told hn hm
  | again told hn hid rest =>
    cases rest
    exact .again told hn hid hm
  | array hn hid shape inside rest =>
    cases rest
    exact .array hn hid shape inside hm
  | map hn hid shape inside rest =>
    cases rest
    exact .map hn hid shape inside hm

end Mirrors

/-! ## Values by themselves -/

/-- What a value is converted into by itself, where `room` more levels may be nested and the tables of
    `path` are being converted. -/
def apart (h : Heap) (room : Nat) (path : List Nat) (v : Value) : Json := (ofChild h room path v {}).1

/-- How many tables are counted then. -/
def tables (h : Heap) (room : Nat) (path : List Nat) (v : Value) : Nat :=
  (ofChild h room path v {}).2.nodes

theorem tables_of_isTable (hv : v.isTable = false) : tables h room path v = 0 := by
  cases v with
  | table id => cases hv
  | _ => rfl

theorem mirrors_apart (h : Heap) (room : Nat) (path : List Nat) (v : Value) :
    Mirrors h guardWarnings room path 0 [v] [apart h room path v] (tables h room path v) :=
  (makes_ofChild h room path v {}).mirrors_guards

/-- Values side by side whose tables are not too many become what each becomes by itself. -/
theorem mirrors_map_apart (h : Heap) (room : Nat) (path : List Nat) (n : Nat) (vs : List Value)
    (hn : n + (vs.map (tables h room path)).sum ≤ maxNodes) :
    Mirrors h guardWarnings room path n vs (vs.map (apart h room path))
      (n + (vs.map (tables h room path)).sum) := by
  induction vs generalizing n with
  | nil => exact .nil
  | cons v vs ih =>
    rw [List.map_cons, List.sum_cons, ← Nat.add_assoc] at hn
    rw [List.map_cons, List.map_cons, List.sum_cons, ← Nat.add_assoc]
    have hv := (mirrors_apart h room path v).shift (by omega) n (n + tables h room path v)
      (by omega) (by omega)
    exact hv.cons (ih _ hn)

/-- And if what they become was counted within the limit, so is each of them. -/
theorem Mirrors.eq_apart (hm : Mirrors h guardWarnings room path n vs js n') (hn : n' ≤ maxNodes) :
    js = vs.map (apart h room path) ∧ n' = n + (vs.map (tables h room path)).sum := by
  induction vs generalizing n js with
  | nil =>
    cases hm
    exact ⟨rfl, rfl⟩
  | cons v vs ih =>
    obtain ⟨j, js', n₁, rfl, hv, hrest⟩ := hm.uncons
    obtain ⟨inner, rfl⟩ := Nat.exists_eq_add_of_le hv.le
    have hle := hrest.le
    obtain ⟨rfl, rfl⟩ := ih hrest
    -- the first value is counted from zero, as it is by itself
    have hshift := hv.shift (by omega) 0 inner (by omega) (by omega)
    obtain ⟨hj, rfl⟩ := hshift.unique (mirrors_apart h room path v)
    rw [List.map_cons, List.map_cons, List.sum_cons, (List.cons.inj hj).1]
    exact ⟨rfl, Nat.add_assoc _ _ _⟩

end OscHost.Script.Trees
