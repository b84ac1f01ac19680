import OscHost.Proofs.Trees.Conversion
/-!
  What values unfold to.

  Three guards bound the conversion of a value into a tree.  `Unfolds` says what comes of it without
  them: a table that is met twice is unfolded twice, and what refers to itself has no unfolding.
  The relation is about all values on one level, so that a table and what stands beside it are taken
  in one induction, and it counts the tables that are met and how deep they are nested.

  As long as both numbers keep within the limits the guards are not felt (`Makes.eq_of_unfolds`):
  nesting and count by themselves, and the guard against cycles because more tables are met in
  unfolding a table than in unfolding what is in it, while every value has one unfolding only
  (`Unfolds.unique`).
-/

namespace OscHost.Script

namespace Trees

/-- The trees that some values unfold to, how many tables are met on the way, and how deep they are
    nested. -/
inductive Unfolds (h : Heap) : List Value → List Json → Nat → Nat → Prop
  | nil : Unfolds h [] [] 0 0
  | leaf {v vs js n d} (hv : v.isTable = false) (rest : Unfolds h vs js n d) :
      Unfolds h (v :: vs) (leaf v :: js) n d
  | array {id size items m e vs js n d} (hid : id < h.tables.size)
      (shape : classify (h.table id) = .array size)
      (inside : Unfolds h (elements (h.table id) size) items m e) (rest : Unfolds h vs js n d) :
      Unfolds h (.table id :: vs) (.array items :: js) (m + 1 + n) (max (e + 1) d)
  | map {id trees m e vs js n d} (hid : id < h.tables.size) (shape : classify (h.table id) = .map)
      (inside : Unfolds h ((named (h.table id)).map (·.2)) trees m e)
      (rest : Unfolds h vs js n d) :
      Unfolds h (.table id :: vs)
        (.object (lastMembers (((named (h.table id)).map (·.1)).zip trees)) :: js)
        (m + 1 + n) (max (e + 1) d)

namespace Unfolds

variable {h : Heap} {v : Value} {vs : List Value} {j : Json} {js js' : List Json} {n n' d d' : Nat}

theorem length (hu : Unfolds h vs js n d) : js.length = vs.length := by
  induction hu with
  | nil => rfl
  | leaf _ _ ih => exact congrArg (· + 1) ih
  | array _ _ _ _ _ ih => exact congrArg (· + 1) ih
  | map _ _ _ _ _ ih => exact congrArg (· + 1) ih

/-- A value has one unfolding at most. -/
theorem unique (hu : Unfolds h vs js n d) (hu' : Unfolds h vs js' n' d') :
    js = js' ∧ n = n' ∧ d = d' := by
  induction hu generalizing js' n' d' with
  | nil => cases hu'; exact ⟨rfl, rfl, rfl⟩
  | leaf hv _ ih =>
    cases hu' with
    | leaf _ rest =>
      obtain ⟨rfl, rfl, rfl⟩ := ih rest
      exact ⟨rfl, rfl, rfl⟩
    | array => cases hv
    | map => cases hv
  -- a table has one shape, so both unfoldings look at the same values inside
  | array _ shape _ _ ihInside ih =>
    cases hu' with
    | leaf hv => cases hv
    | array _ shape' inside rest =>
      cases shape.symm.trans shape'
      obtain ⟨rfl, rfl, rfl⟩ := ihInside inside
      obtain ⟨rfl, rfl, rfl⟩ := ih rest
      exact ⟨rfl, rfl, rfl⟩
    | map _ shape' => cases shape.symm.trans shape'
  | map _ shape _ _ ihInside ih =>
    cases hu' with
    | leaf hv => cases hv
    | array _ shape' => cases shape.symm.trans shape'
    | map _ _ inside rest =>
      obtain ⟨rfl, rfl, rfl⟩ := ihInside inside
      obtain ⟨rfl, rfl, rfl⟩ := ih rest
      exact ⟨rfl, rfl, rfl⟩

/-- The unfolding of a value beside that of others. -/
theorem cons {m e : Nat} (hv : Unfolds h [v] [j] m e) (hu : Unfolds h vs js n d) :
    Unfolds h (v :: vs) (j :: js) (m + n) (max e d) := by
  cases hv with
  | leaf hv rest =>
    cases rest
    rw [Nat.zero_add, Nat.zero_max]
    exact .leaf hv hu
  | array hid shape inside rest =>
    cases rest
    exact .array hid shape inside hu
  | map hid shape inside rest =>
    cases rest
    exact .map hid shape inside hu

/-- In front of other values stands one that unfolds by itself. -/
theorem split (hu : Unfolds h (v :: vs) js n d) : ∃ j js' m e n' d', js = j :: js' ∧
    Unfolds h [v] [j] m e ∧ Unfolds h vs js' n' d' ∧ n = m + n' ∧ d = max e d' := by
  cases hu with
  | leaf hv rest => exact ⟨_, _, 0, 0, _, _, rfl, .leaf hv .nil, rest, by simp, by simp⟩
  | array hid shape inside rest =>
    exact ⟨_, _, _, _, _, _, rfl, .array hid shape inside .nil, rest, by simp, by simp⟩
  | map hid shape inside rest =>
    exact ⟨_, _, _, _, _, _, rfl, .map hid shape inside .nil, rest, by simp, by simp⟩

variable {id size : Nat}

/-- An array in front of other values unfolds by itself, to one table more than what is in it. -/
theorem of_array (shape : classify (h.table id) = .array size)
    (hu : Unfolds h (.table id :: vs) js n d) :
    ∃ items m e js' n' d', js = .array items :: js' ∧
      Unfolds h [.table id] [.array items] (m + 1) (e + 1) ∧
      Unfolds h (elements (h.table id) size) items m e ∧ Unfolds h vs js' n' d' ∧
      n = m + 1 + n' ∧ d = max (e + 1) d' := by
  cases hu with
  | leaf hv => cases hv
  | map _ shape' => cases shape.symm.trans shape'
  | array hid shape' inside rest =>
    cases shape.symm.trans shape'
    exact ⟨_, _, _, _, _, _, rfl, .array hid shape inside .nil, inside, rest, rfl, rfl⟩

/-- So does any other table. -/
theorem of_map (shape : classify (h.table id) = .map) (hu : Unfolds h (.table id :: vs) js n d) :
    ∃ trees m e js' n' d',
      js = .object (lastMembers (((named (h.table id)).map (·.1)).zip trees)) :: js' ∧
      Unfolds h [.table id] [.object (lastMembers (((named (h.table id)).map (·.1)).zip trees))]
        (m + 1) (e + 1) ∧
      Unfolds h ((named (h.table id)).map (·.2)) trees m e ∧ Unfolds h vs js' n' d' ∧
      n = m + 1 + n' ∧ d = max (e + 1) d' := by
  cases hu with
  | leaf hv => cases hv
  | array _ shape' => cases shape.symm.trans shape'
  | map hid shape' inside rest =>
    exact ⟨_, _, _, _, _, _, rfl, .map hid shape inside .nil, inside, rest, rfl, rfl⟩

/-- A table of either shape counts, and is nested once at least. -/
theorem of_table (hu : Unfolds h (.table id :: vs) js n d) :
    ∃ j m e js' n' d', js = j :: js' ∧ Unfolds h [.table id] [j] (m + 1) (e + 1) ∧
      Unfolds h vs js' n' d' ∧ n = m + 1 + n' ∧ d = max (e + 1) d' := by
  cases shape : classify (h.table id) with
  | array size =>
    obtain ⟨_, _, _, _, _, _, hjs, htable, _, rest, hn, hd⟩ := hu.of_array shape
    exact ⟨_, _, _, _, _, _, hjs, htable, rest, hn, hd⟩
  | map =>
    obtain ⟨_, _, _, _, _, _, hjs, htable, _, rest, hn, hd⟩ := hu.of_map shape
    exact ⟨_, _, _, _, _, _, hjs, htable, rest, hn, hd⟩

end Unfolds

/-! ## Conversion within the limits -/

/-- Whether more tables are met in unfolding each of some tables than a bound says. -/
def Above (h : Heap) (path : List Nat) (bound : Nat) : Prop :=
  ∀ id ∈ path, ∃ j n d, Unfolds h [.table id] [j] n d ∧ bound ≤ n

/-- The guard against cycles: a table that is being converted has a larger unfolding than what is in
    it. -/
theorem Above.not_mem {h : Heap} {path : List Nat} {bound id n d : Nat} {j : Json}
    (hp : Above h path bound) (hu : Unfolds h [.table id] [j] n d) (hn : n < bound) :
    id ∉ path := by
  intro hid
  obtain ⟨j', n', d', hu', hle⟩ := hp id hid
  have heq := (hu.unique hu').2.1
  omega

theorem Above.cons {h : Heap} {path : List Nat} {bound id n d : Nat} {j : Json}
    (hp : Above h path bound) (hu : Unfolds h [.table id] [j] n d) (hn : n < bound) :
    Above h (id :: path) n := by
  refine List.forall_mem_cons.mpr ⟨⟨j, n, d, hu, Nat.le_refl n⟩, fun a ha => ?_⟩
  obtain ⟨j', n', d', hu', hle⟩ := hp a ha
  exact ⟨j', n', d', hu', by omega⟩

/-- Whether nothing was told on a way but of entries whose keys cannot be written. -/
def Walk.Quiet (w w' : Walk) : Prop :=
  ∀ r ∈ w'.warnings, r ∈ w.warnings ∨ ∃ kind, r = keyWarning kind

theorem Walk.Quiet.refl (w : Walk) : w.Quiet w := fun _ => .inl

theorem Walk.Quiet.trans {w w₁ w' : Walk} (hq : w.Quiet w₁) (hq' : w₁.Quiet w') : w.Quiet w' :=
  fun r hr => (hq' r hr).elim (hq r) .inr

theorem Walk.quiet_tell (w : Walk) (kind : String) : w.Quiet (w.tell (keyWarning kind)) :=
  fun _ hr => (Walk.mem_tell.mp hr).elim (fun h => .inr ⟨kind, h⟩) .inl

/-- Within the limits no guard is felt: what is made is what the values unfold to, every table that
    is met is counted once, and nothing is told of a guard. -/
theorem Makes.eq_of_unfolds {h : Heap} {room : Nat} {path : List Nat} {w w' : Walk}
    {vs : List Value} {js : List Json} (hm : Makes h room path w vs js w') {js' : List Json}
    {n d bound : Nat} (hp : Above h path bound) (hu : Unfolds h vs js' n d) (hd : d ≤ room)
    (hb : n < bound) (hn : w.nodes + n ≤ maxNodes) :
    js = js' ∧ w'.nodes = w.nodes + n ∧ w.Quiet w' := by
  induction hm generalizing js' n d bound with
  | done =>
    cases hu
    exact ⟨rfl, rfl, .refl _⟩
  | leaf hv _ ih =>
    cases hu with
    | leaf _ hu =>
      obtain ⟨rfl, hnodes, hquiet⟩ := ih hp hu hd hb hn
      exact ⟨rfl, hnodes, hquiet⟩
    | array => cases hv
    | map => cases hv
  | passed kind _ ih =>
    obtain ⟨hjs, hnodes, hquiet⟩ := ih hp hu hd hb hn
    exact ⟨hjs, hnodes, (Walk.quiet_tell _ kind).trans hquiet⟩
  -- each guard stands for a bound that the unfolding keeps: levels, count, and a larger count for
  -- every table on the path
  | deep =>
    obtain ⟨_, _, _, _, _, _, _, _, _, _, rfl⟩ := hu.of_table
    omega
  | many hover =>
    obtain ⟨_, _, _, _, _, _, _, _, _, rfl, _⟩ := hu.of_table
    omega
  | again _ hid =>
    obtain ⟨_, _, _, _, _, _, _, htable, _, rfl, _⟩ := hu.of_table
    exact absurd hid (hp.not_mem htable (by omega))
  -- inside there is one level less, and the table itself has been counted
  | array _ _ shape _ _ ihInside ih =>
    obtain ⟨_, _, _, _, _, _, rfl, htable, inside, rest, rfl, rfl⟩ := hu.of_array shape
    obtain ⟨rfl, hcount, hquiet⟩ := ihInside (hp.cons htable (by omega)) inside (by omega)
      (Nat.lt_succ_self _) (by rw [Walk.count_nodes]; omega)
    rw [Walk.count_nodes] at hcount
    obtain ⟨rfl, hnodes, hquiet'⟩ := ih hp rest (by omega) (by omega) (by omega)
    exact ⟨rfl, by omega, hquiet.trans hquiet'⟩
  | map _ _ shape _ _ ihInside ih =>
    obtain ⟨_, _, _, _, _, _, rfl, htable, inside, rest, rfl, rfl⟩ := hu.of_map shape
    obtain ⟨rfl, hcount, hquiet⟩ := ihInside (hp.cons htable (by omega)) inside (by omega)
      (Nat.lt_succ_self _) (by rw [Walk.count_nodes]; omega)
    rw [Walk.count_nodes] at hcount
    obtain ⟨rfl, hnodes, hquiet'⟩ := ih hp rest (by omega) (by omega) (by omega)
    exact ⟨rfl, by omega, hquiet.trans hquiet'⟩

/-- Converted by itself, a value that keeps within the limits becomes what it unfolds to. -/
theorem ofChild_of_unfolds {h : Heap} {room : Nat} {v : Value} {j : Json} {n d : Nat}
    (hu : Unfolds h [v] [j] n d) (hd : d ≤ room) (hn : n ≤ maxNodes) :
    (ofChild h room [] v {}).1 = j ∧ Walk.Quiet {} (ofChild h room [] v {}).2 := by
  obtain ⟨hmade, _, hquiet⟩ := (makes_ofChild h room [] v {}).eq_of_unfolds (List.forall_mem_nil _)
    hu hd (Nat.lt_succ_self n) (by simpa using hn)
  exact ⟨(List.cons.inj hmade).1, hquiet⟩

/-- A value stands in its own conversion as in that of a table around it. -/
theorem ofValue_eq (h : Heap) (v : Value) :
    ofValue h v = finish (ofChild h (maxDepth - 1) [] v {}) := by
  cases v <;> rfl

/-- A value that keeps within the limits is converted into what it unfolds to. -/
theorem ofValue_of_unfolds {h : Heap} {v : Value} {j : Json} {n d : Nat}
    (hu : Unfolds h [v] [j] n d) (hd : d ≤ maxDepth - 1) (hn : n ≤ maxNodes) :
    (ofValue h v).value = j := by
  rw [ofValue_eq]
  exact (ofChild_of_unfolds hu hd hn).1

/-- All that is told of it is told of keys. -/
theorem log_ofValue_of_unfolds {h : Heap} {v : Value} {j : Json} {n d : Nat}
    (hu : Unfolds h [v] [j] n d) (hd : d ≤ maxDepth - 1) (hn : n ≤ maxNodes) {r : LogRecord}
    (hr : r ∈ (ofValue h v).log) : ∃ kind, r = keyWarning kind := by
  rw [ofValue_eq, finish, List.mem_reverse] at hr
  exact ((ofChild_of_unfolds hu hd hn).2 r hr).resolve_left List.not_mem_nil

end Trees

end OscHost.Script
