import OscHost.Proofs.Trees.Gaps
import OscHost.Proofs.Trees.Members
/-!
  Two guards of one limit.

  Making a value of a tree and making a tree of a value both stop at a depth, and both give the same
  number for it, but they do not count alike.  On the way to a value every tree counts, a text as
  much as an array, and the outermost one counts as none: a tree is accepted when its `Json.height`
  is within the limit (`toValueFrom_settles`).  On the way back only tables count, and the outermost
  one counts as one: a table is cut when the tables around it with itself reach the limit.

  So it depends on how deep arrays and objects are nested in a tree.  An accepted tree unfolds with
  as many tables, nested as deep, as it has arrays and objects (`toValueFrom_unfolds`), gaps or not,
  and the warning about depth is given exactly when that is deeper than the room there is
  (`Makes.depthWarning_mem_iff`).  Below the limit nothing is cut.  At the limit, where the innermost
  array or object is empty, the tree is still accepted and the innermost table is cut.
-/

namespace OscHost

namespace Json

/-! ## How high trees are -/

mutual

/-- How many trees are inside one another, the innermost included whatever it is. -/
def height : Json → Nat
  | .array items => heightOfItems items + 1
  | .object members => heightOfMembers members + 1
  | _ => 1

/-- The height of the highest of some trees. -/
def heightOfItems : List Json → Nat
  | [] => 0
  | j :: js => max j.height (heightOfItems js)

/-- The height of the highest of the values of some members. -/
def heightOfMembers : List (String × Json) → Nat
  | [] => 0
  | (_, j) :: members => max j.height (heightOfMembers members)

end

theorem heightOfMembers_eq (members : List (String × Json)) :
    heightOfMembers members = heightOfItems (members.map (·.2)) := by
  induction members with
  | nil => rfl
  | cons m members ih => rw [heightOfMembers, ih]; rfl

theorem height_of_isLeaf {j : Json} (hleaf : j.isLeaf) : j.height = 1 := by
  cases j with
  | array | object => cases hleaf
  | _ => rfl

theorem height_pos (j : Json) : 0 < j.height := by
  cases j <;> simp [height]

/-- The innermost tree may be one that does not count as nested. -/
theorem heightOfItems_bounds (js : List Json) :
    nestingOfItems js ≤ heightOfItems js ∧ heightOfItems js ≤ nestingOfItems js + 1 := by
  induction js using forest_induction with
  | nil => exact ⟨Nat.le_refl _, Nat.zero_le _⟩
  | leaf j js hleaf ih =>
    rw [nestingOfItems, heightOfItems, nesting_of_isLeaf hleaf, height_of_isLeaf hleaf]
    omega
  | array items js ihItems ih =>
    rw [nestingOfItems, heightOfItems, nesting, height]
    omega
  | object members js ihMembers ih =>
    rw [nestingOfItems, heightOfItems, nesting, height, nestingOfMembers_eq, heightOfMembers_eq]
    omega

theorem height_bounds (j : Json) : j.nesting ≤ j.height ∧ j.height ≤ j.nesting + 1 := by
  have hone := heightOfItems_bounds [j]
  rwa [nestingOfItems, nestingOfItems, heightOfItems, heightOfItems, Nat.max_zero,
    Nat.max_zero] at hone

theorem nesting_le_height (j : Json) : j.nesting ≤ j.height := j.height_bounds.1

theorem height_le (j : Json) : j.height ≤ j.nesting + 1 := j.height_bounds.2

theorem nestingOfItems_le {js : List Json} {n : Nat} (h : ∀ j ∈ js, j.nesting ≤ n) :
    nestingOfItems js ≤ n := by
  induction js with
  | nil => exact Nat.zero_le _
  | cons j js ih =>
    obtain ⟨hj, hjs⟩ := List.forall_mem_cons.mp h
    exact Nat.max_le.mpr ⟨hj, ih hjs⟩

theorem nesting_le_of_mem {js : List Json} {j : Json} (hj : j ∈ js) :
    j.nesting ≤ nestingOfItems js := by
  induction hj with
  | head js => exact Nat.le_max_left _ _
  | tail _ _ ih => exact Nat.le_trans ih (Nat.le_max_right _ _)

end Json

namespace Script.Trees

/-! ## Which trees are accepted -/

/-- Either a tree is within the room and made into a value, or it is not and refused. -/
def Settles (room height : Nat) {α : Type} (r : Except String α) : Prop :=
  (height ≤ room ∧ ∃ a, r = .ok a) ∨ (room < height ∧ r = .error tooDeep)

theorem mapHeap_settles {room : Nat}
    (hone : ∀ j h, Settles room j.height (toValueFrom room j h)) (js : List Json)
    (acc : List Value) (h : Heap) :
    Settles room (Json.heightOfItems js) (mapHeap (toValueFrom room) js acc h) := by
  induction js generalizing acc h with
  | nil => exact .inl ⟨Nat.zero_le _, _, rfl⟩
  | cons j js ih =>
    rw [mapHeap, Json.heightOfItems]
    obtain ⟨hle, ⟨v, h'⟩, hv⟩ | ⟨hlt, hv⟩ := hone j h
    · rw [hv]
      obtain ⟨hles, r, hr⟩ | ⟨hlts, hr⟩ := ih (v :: acc) h'
      · exact .inl ⟨Nat.max_le.mpr ⟨hle, hles⟩, r, hr⟩
      · exact .inr ⟨by omega, hr⟩
    · rw [hv]
      exact .inr ⟨by omega, rfl⟩

/-- A tree is accepted exactly when there is room for its height, on every heap. -/
theorem toValueFrom_settles (room : Nat) (j : Json) (h : Heap) :
    Settles room j.height (toValueFrom room j h) := by
  induction room generalizing j h with
  | zero => exact .inr ⟨j.height_pos, rfl⟩
  | succ room ih =>
    cases j with
    -- the items have room for one level less, and so do the members of an object
    | array items =>
      rw [toValueFrom, Json.height]
      obtain ⟨hle, r, hr⟩ | ⟨hlt, hr⟩ := mapHeap_settles ih items [] h
      · rw [hr]
        exact .inl ⟨Nat.succ_le_succ hle, _, rfl⟩
      · rw [hr]
        exact .inr ⟨Nat.succ_lt_succ hlt, rfl⟩
    | object members =>
      rw [toValueFrom, Json.height, mapHeap_map, Json.heightOfMembers_eq]
      obtain ⟨hle, r, hr⟩ | ⟨hlt, hr⟩ := mapHeap_settles ih (members.map (·.2)) [] h
      · rw [hr]
        exact .inl ⟨Nat.succ_le_succ hle, _, rfl⟩
      · rw [hr]
        exact .inr ⟨Nat.succ_lt_succ hlt, rfl⟩
    | _ => exact .inl ⟨Nat.succ_le_succ (Nat.zero_le _), _, rfl⟩

/-! ## What accepted trees unfold to -/

/-- Whether a tree, when it is accepted, is made into a value that unfolds with a table for each array
    and object, nested like them. -/
def Opens (room : Nat) (j : Json) : Prop :=
  ∀ h v h', toValueFrom room j h = .ok (v, h') →
    h'.Extends h ∧ ∃ t, Unfolds h' [v] [t] j.nodes j.nesting

theorem mapHeap_opens {room : Nat} (hone : ∀ j, j.Each Json.Stored → Opens room j)
    {js : List Json} (hstored : Json.EachItem Json.Stored js) {acc values : List Value}
    {h h' : Heap} (hr : mapHeap (toValueFrom room) js acc h = .ok (values, h')) :
    ∃ made, values = acc.reverse ++ made ∧ made.length = js.length ∧ h'.Extends h ∧
      ∃ ts, Unfolds h' made ts (Json.nodesOfItems js) (Json.nestingOfItems js) := by
  induction js generalizing acc h with
  | nil =>
    cases hr
    exact ⟨[], (List.append_nil _).symm, rfl, .refl _, [], .nil⟩
  | cons j js ih =>
    rw [mapHeap] at hr
    rcases hv : toValueFrom room j h with e | ⟨v, h₁⟩
    · rw [hv] at hr
      cases hr
    · rw [hv] at hr
      obtain ⟨hx, t, hu⟩ := hone j hstored.1 h v h₁ hv
      obtain ⟨made, rfl, hlength, hxs, ts, hus⟩ := ih hstored.2 hr
      refine ⟨v :: made, by simp, congrArg (· + 1) hlength, hxs.trans hx, t :: ts, ?_⟩
      exact (hu.extend hxs).cons hus

/-- A tree that holds no others is a value that is no table. -/
theorem opens_leaf {room : Nat} {j : Json} (hleaf : j.isLeaf) : Opens (room + 1) j := by
  intro h v h' hv
  suffices hsolo : h' = h ∧ v.isTable = false by
    obtain ⟨rfl, htable⟩ := hsolo
    rw [Json.nodes_of_isLeaf hleaf, Json.nesting_of_isLeaf hleaf]
    exact ⟨.refl _, _, .leaf htable .nil⟩
  cases j with
  | array | object => cases hleaf
  | int n =>
    rw [toValueFrom] at hv
    cases hv
    exact ⟨rfl, by split <;> rfl⟩
  | float x =>
    rw [toValueFrom, Value.ofFloat] at hv
    cases hv
    exact ⟨rfl, by split <;> rfl⟩
  | _ =>
    cases hv
    exact ⟨rfl, rfl⟩

/-- The induction is on the room, as the way to values goes.  Nulls are leaves, so gaps take nothing
    away. -/
theorem toValueFrom_unfolds (room : Nat) (j : Json) (hstored : j.Each Json.Stored) :
    Opens room j := by
  induction room generalizing j with
  | zero =>
    intro h v h' hv
    cases hv
  | succ room ih =>
    cases j with
    | array items =>
      intro h v h' hv
      obtain ⟨hlength, hitems⟩ := hstored
      rw [toValueFrom] at hv
      rcases hmap : mapHeap (toValueFrom room) items [] h with e | ⟨values, h₁⟩
      · rw [hmap] at hv
        cases hv
      · rw [hmap] at hv
        cases hv
        obtain ⟨made, rfl, hmade, hx, ts, hu⟩ := mapHeap_opens ih hitems hmap
        have hfits : values.length < 0x8000000000000000 := hmade ▸ hlength
        exact ⟨(Heap.Extends.newTable h₁ _).trans hx, hu.newTable (.ofList hfits)⟩
    | object members =>
      intro h v h' hv
      obtain ⟨hsorted, hmembers⟩ := hstored
      rw [toValueFrom, mapHeap_map] at hv
      rcases hmap : mapHeap (toValueFrom room) (members.map (·.2)) [] h with e | ⟨values, h₁⟩
      · rw [hmap] at hv
        cases hv
      · rw [hmap] at hv
        cases hv
        obtain ⟨made, rfl, hmade, hx, ts, hu⟩ :=
          mapHeap_opens ih ((Json.eachMember_iff _).mp hmembers) hmap
        refine ⟨(Heap.Extends.newTable h₁ _).trans hx, ?_⟩
        rw [Json.nodes, Json.nesting, Json.nodesOfMembers_eq, Json.nestingOfMembers_eq]
        refine hu.newTable ?_
        -- the fields of the table are the names with the values
        rw [List.length_map] at hmade
        have hnames : ((members.map (·.1)).zip values).map (·.1) = members.map (·.1) :=
          List.map_fst_zip (by simp [hmade])
        have hsecond : ((members.map (·.1)).zip values).map (·.2) = values :=
          List.map_snd_zip (by simp [hmade])
        have hordered : (((members.map (·.1)).zip values).map (·.1)).Pairwise (· < ·) := by
          rw [hnames]
          exact hsorted
        have hfields := Within.ofFields (keys_distinct (hordered.imp String.ne_of_lt))
        rw [hsecond, Table.ofFields, List.zip_map_left, List.foldl_map] at hfields
        exact hfields
    | _ => exact opens_leaf rfl

/-! ## When the way back cuts -/

/-- The other warnings are other ones. -/
theorem depthWarning_ne_keyWarning (kind : String) : depthWarning ≠ keyWarning kind := by
  intro h
  have hfirst := congrArg (fun r : LogRecord => r.text.toList.head?) h
  simp [depthWarning, keyWarning, LogRecord.warn, LogRecord.host] at hfirst

/-- As long as the other guards are not felt, the warning is given exactly when some value unfolds
    deeper than the room that is left. -/
theorem Makes.depthWarning_mem_iff {h : Heap} {room : Nat} {path : List Nat} {w w' : Walk}
    {vs : List Value} {js : List Json} (hm : Makes h room path w vs js w') {js' : List Json}
    {n d bound : Nat} (hp : Above h path bound) (hu : Unfolds h vs js' n d) (hb : n < bound)
    (hn : w.nodes + n ≤ maxNodes) :
    w'.nodes ≤ w.nodes + n ∧
      (depthWarning ∈ w'.warnings ↔ depthWarning ∈ w.warnings ∨ room < d) := by
  induction hm generalizing js' n d bound with
  | done =>
    cases hu
    exact ⟨Nat.le_refl _, by simp⟩
  | leaf hv _ ih =>
    cases hu with
    | leaf _ hu => exact ih hp hu hb hn
    | array => cases hv
    | map => cases hv
  | passed kind _ ih =>
    obtain ⟨hnodes, hwarned⟩ := ih hp hu hb hn
    refine ⟨hnodes, hwarned.trans ?_⟩
    rw [Walk.mem_tell, or_iff_right (depthWarning_ne_keyWarning kind)]
  -- here the warning is given, and the table is one level more than there is room for
  | deep _ ih =>
    obtain ⟨_, _, _, _, _, _, _, _, rest, rfl, rfl⟩ := hu.of_table
    obtain ⟨hnodes, hwarned⟩ := ih hp rest (by omega) (by rw [Walk.tell_nodes]; omega)
    rw [Walk.tell_nodes] at hnodes
    have htold : depthWarning ∈ _ := hwarned.mpr (.inl (Walk.mem_tell.mpr (.inl rfl)))
    exact ⟨by omega, iff_of_true htold (.inr (by omega))⟩
  -- too many tables were ruled out, and a table on the path would unfold without end
  | many hover =>
    obtain ⟨_, _, _, _, _, _, _, _, _, rfl, _⟩ := hu.of_table
    omega
  | again _ hid =>
    obtain ⟨_, _, _, _, _, _, _, htable, _, rfl, _⟩ := hu.of_table
    exact absurd hid (hp.not_mem htable (by omega))
  -- the warning comes from inside or from the rest, as the greater depth does
  | @array room _ _ _ _ _ _ _ _ _ _ _ shape _ _ ihInside ih =>
    obtain ⟨_, m, e, _, n, d, rfl, htable, inside, rest, rfl, rfl⟩ := hu.of_array shape
    obtain ⟨hcount, hinside⟩ := ihInside (hp.cons htable (by omega)) inside (Nat.lt_succ_self _)
      (by rw [Walk.count_nodes]; omega)
    rw [Walk.count_nodes] at hcount
    obtain ⟨hnodes, hwarned⟩ := ih hp rest (by omega) (by omega)
    have hdeep : room + 1 < max (e + 1) d ↔ room < e ∨ room + 1 < d := by omega
    exact ⟨by omega, by rw [hwarned, hinside, hdeep, or_assoc]; rfl⟩
  | @map room _ _ _ _ _ _ _ _ _ _ shape _ _ ihInside ih =>
    obtain ⟨_, m, e, _, n, d, rfl, htable, inside, rest, rfl, rfl⟩ := hu.of_map shape
    obtain ⟨hcount, hinside⟩ := ihInside (hp.cons htable (by omega)) inside (Nat.lt_succ_self _)
      (by rw [Walk.count_nodes]; omega)
    rw [Walk.count_nodes] at hcount
    obtain ⟨hnodes, hwarned⟩ := ih hp rest (by omega) (by omega)
    have hdeep : room + 1 < max (e + 1) d ↔ room < e ∨ room + 1 < d := by omega
    exact ⟨by omega, by rw [hwarned, hinside, hdeep, or_assoc]; rfl⟩

/-- Converted by itself, a value is cut for its depth exactly when it unfolds deeper than the
    room. -/
theorem depthWarning_ofChild {h : Heap} {room : Nat} {v : Value} {j : Json} {n d : Nat}
    (hu : Unfolds h [v] [j] n d) (hn : n ≤ maxNodes) :
    depthWarning ∈ (finish (ofChild h room [] v {})).log ↔ room < d := by
  have hmade := (makes_ofChild h room [] v {}).depthWarning_mem_iff (List.forall_mem_nil _) hu
    (Nat.lt_succ_self n) (by simpa using hn)
  rw [finish, List.mem_reverse, hmade.2, or_iff_right List.not_mem_nil]

/-- A value is cut for its depth exactly when its tables are nested up to the limit. -/
theorem depthWarning_ofValue {h : Heap} {v : Value} {j : Json} {n d : Nat}
    (hu : Unfolds h [v] [j] n d) (hn : n ≤ maxNodes) :
    depthWarning ∈ (ofValue h v).log ↔ maxDepth ≤ d := by
  rw [ofValue_eq, depthWarning_ofChild hu hn]
  exact Nat.lt_iff_add_one_le

/-- Counting from the table itself, one level more is converted, and nothing is cut up to there. -/
theorem ofRoot_of_unfolds {h : Heap} {id : Nat} {j : Json} {n d : Nat}
    (hu : Unfolds h [.table id] [j] n d) (hd : d ≤ maxDepth) (hn : n ≤ maxNodes) :
    (ofRoot h id).value = j ∧ depthWarning ∉ (ofRoot h id).log := by
  refine ⟨(ofChild_of_unfolds hu hd hn).1, fun hwarned => ?_⟩
  exact absurd ((depthWarning_ofChild hu hn).mp hwarned) (Nat.not_lt.mpr hd)

/-! ## How deep a result is nested -/

/-- A value that is no table is made into a tree that holds no others. -/
theorem isLeaf_leaf (v : Value) : (leaf v).isLeaf := by
  unfold leaf
  split
  · rfl
  · rfl
  · split <;> rfl
  · rfl
  · rfl

/-- However deep tables are nested, what is made is not nested deeper than there was room. -/
theorem Makes.nesting_le {h : Heap} {room : Nat} {path : List Nat} {w w' : Walk} {vs : List Value}
    {js : List Json} (hm : Makes h room path w vs js w') : Json.nestingOfItems js ≤ room := by
  induction hm with
  | done => exact Nat.zero_le _
  | leaf _ _ ih =>
    rw [Json.nestingOfItems, Json.nesting_of_isLeaf (isLeaf_leaf _)]
    exact Nat.max_le.mpr ⟨Nat.zero_le _, ih⟩
  | passed _ _ ih => exact ih
  | deep _ ih | many _ _ ih | again _ _ _ ih => exact Nat.max_le.mpr ⟨Nat.zero_le _, ih⟩
  | array _ _ _ _ _ ihInside ih =>
    exact Nat.max_le.mpr ⟨Nat.succ_le_succ ihInside, ih⟩
  | map _ _ _ _ _ ihInside ih =>
    refine Nat.max_le.mpr ⟨?_, ih⟩
    rw [Json.nesting, Json.nestingOfMembers_eq]
    refine Nat.succ_le_succ (Nat.le_trans (Json.nestingOfItems_le fun j hj => ?_) ihInside)
    obtain ⟨m, hmem, rfl⟩ := List.mem_map.mp hj
    exact Json.nesting_le_of_mem (List.of_mem_zip ((lastMembers_subperm _).subset hmem)).2

theorem nesting_ofChild_le (h : Heap) (room : Nat) (path : List Nat) (v : Value) (w : Walk) :
    (ofChild h room path v w).1.nesting ≤ room := by
  have hmade := (makes_ofChild h room path v w).nesting_le
  rwa [Json.nestingOfItems, Json.nestingOfItems, Nat.max_zero] at hmade

/-- So a value never comes back with as many levels as a tree may have. -/
theorem nesting_ofValue_lt (h : Heap) (v : Value) : (ofValue h v).value.nesting < maxDepth := by
  rw [ofValue_eq]
  exact Nat.lt_succ_of_le (nesting_ofChild_le h _ [] v {})

/-! ## Where the guards disagree -/

/-- A tree that keeps to the count of arrays and objects and is accepted has 64 levels at most.  With
    fewer its value is converted back to all that it unfolds to; with exactly 64 the value is cut,
    and what comes back has fewer levels.  Counting from the table itself cuts nothing. -/
theorem guards_agree_below_limit (j : Json) (h : Heap) {v : Value} {h' : Heap}
    (hstored : j.Each Json.Stored) (hnodes : j.nodes ≤ maxNodes)
    (haccepted : toValue j h = .ok (v, h')) :
    j.nesting ≤ maxDepth ∧
      (depthWarning ∈ (ofValue h' v).log ↔ j.nesting = maxDepth) ∧
      (j.nesting = maxDepth → (ofValue h' v).value.nesting < j.nesting) ∧
      ∃ t, Unfolds h' [v] [t] j.nodes j.nesting ∧
        (j.nesting < maxDepth → (ofValue h' v).value = t) ∧
        ∀ id, v = .table id → (ofRoot h' id).value = t ∧ depthWarning ∉ (ofRoot h' id).log := by
  obtain ⟨hx, t, hu⟩ := toValueFrom_unfolds maxDepth j hstored h v h' haccepted
  -- an accepted tree has room for its height, which is its nesting or one more
  have hlimit : j.nesting ≤ maxDepth := by
    obtain ⟨hheight, _⟩ | ⟨_, hrefused⟩ := toValueFrom_settles maxDepth j h
    · exact Nat.le_trans j.nesting_le_height hheight
    · rw [toValue, hrefused] at haccepted
      cases haccepted
  refine ⟨hlimit, ?_, fun hdeep => hdeep ▸ nesting_ofValue_lt h' v, t, hu, fun hless => ?_,
    fun id hid => ?_⟩
  · rw [depthWarning_ofValue hu hnodes]
    omega
  · exact ofValue_of_unfolds hu (by omega) hnodes
  · subst hid
    exact ofRoot_of_unfolds hu hlimit hnodes

/-- Arrays in one another, so many of them around one that is empty. -/
def tower : Nat → Json
  | 0 => .array []
  | n + 1 => .array [tower n]

theorem tower_stored (n : Nat) : (tower n).Each Json.Stored := by
  induction n with
  | zero => decide
  | succ n ih => exact ⟨(by decide : 1 < 0x8000000000000000), ih, trivial⟩

/-- A tower counts as high as it is deep, because nothing is in the innermost array. -/
theorem tower_measures (n : Nat) :
    (tower n).nodes = n + 1 ∧ (tower n).nesting = n + 1 ∧ (tower n).height = n + 1 := by
  induction n with
  | zero => exact ⟨rfl, rfl, rfl⟩
  | succ n ih =>
    obtain ⟨hnodes, hnesting, hheight⟩ := ih
    simp only [tower, Json.nodes, Json.nodesOfItems, Json.nesting, Json.nestingOfItems, Json.height,
      Json.heightOfItems]
    omega

theorem tower_nodes_le : (tower 63).nodes ≤ maxNodes := by
  rw [(tower_measures 63).1]
  decide

/-- The highest tower that is accepted is as deep as the limit. -/
theorem tower_accepted : ∃ v h', toValue (tower 63) {} = .ok (v, h') := by
  obtain ⟨_, ⟨v, h'⟩, hv⟩ | ⟨hlt, _⟩ := toValueFrom_settles maxDepth (tower 63) {}
  · exact ⟨v, h', hv⟩
  · rw [(tower_measures 63).2.2] at hlt
    exact absurd hlt (by decide)

theorem guards_agree_below_limit_tower : ∃ v h', toValue (tower 63) {} = .ok (v, h') ∧
    depthWarning ∈ (ofValue h' v).log ∧ (ofValue h' v).value.nesting < (tower 63).nesting := by
  obtain ⟨v, h', hv⟩ := tower_accepted
  have hdeep : (tower 63).nesting = maxDepth := (tower_measures 63).2.1
  obtain ⟨_, hwarned, hcut, _⟩ :=
    guards_agree_below_limit (tower 63) {} (tower_stored 63) tower_nodes_le hv
  exact ⟨v, h', hv, hwarned.mpr hdeep, hcut hdeep⟩

/-- Not every accepted tree comes back uncut. -/
theorem not_forall_uncut : ¬ ∀ (j : Json) (h h' : Heap) (v : Value), j.Each Json.Stored →
    j.nodes ≤ maxNodes → toValue j h = .ok (v, h') → depthWarning ∉ (ofValue h' v).log := by
  intro hall
  obtain ⟨v, h', hv⟩ := tower_accepted
  obtain ⟨_, t, hu⟩ := toValueFrom_unfolds maxDepth (tower 63) (tower_stored 63) {} v h' hv
  have hwarned : depthWarning ∈ (ofValue h' v).log :=
    (depthWarning_ofValue hu tower_nodes_le).mpr (Nat.le_of_eq (tower_measures 63).2.1.symm)
  exact hall (tower 63) {} h' v (tower_stored 63) tower_nodes_le hv hwarned

end Script.Trees

end OscHost
