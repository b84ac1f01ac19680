import OscHost.Proofs.Trees.Depth
/-!
  Conversions of any heap.

  Tables may hold themselves and one another in any way, and still a conversion ends: it goes down
  the room that is left, and what comes back is small.  All tables share one count, which only grows,
  and every array or object of the result was counted when there was room for it in the count.  So
  the budget for what stands side by side is the difference of two counts (`Makes.nodes_le`).

  What comes back also mirrors what went in (`Mirrors`).  Null stands for a table only where one of
  the three guards cut it, and a cut is told; everywhere else a table is converted with itself added
  to those on the way.  A table that is met on the way from itself is therefore always null
  (`Mirrors.eq_null_of_mem`).

  The result is flat enough to be made into a value again, because the one tree more that counts on
  the way back, the innermost, is made up for by the table that counts on the way here.
-/

namespace OscHost

namespace Json

/-! ## How large trees are -/

/-- Fewer members have no more arrays and objects. -/
theorem nodesOfMembers_le_of_sublist {members members' : List (String × Json)}
    (hsub : members.Sublist members') : nodesOfMembers members ≤ nodesOfMembers members' := by
  induction hsub with
  | slnil => exact Nat.le_refl _
  | cons m _ ih => exact Nat.le_trans ih (Nat.le_add_left _ _)
  | cons_cons m _ ih => exact Nat.add_le_add_left ih _

/-- Their order does not matter. -/
theorem nodesOfMembers_eq_of_perm {members members' : List (String × Json)}
    (hperm : members.Perm members') : nodesOfMembers members = nodesOfMembers members' := by
  induction hperm with
  | nil => rfl
  | cons m _ ih => rw [nodesOfMembers, nodesOfMembers, ih]
  | swap m n _ => exact Nat.add_left_comm _ _ _
  | trans _ _ ih ih' => exact ih.trans ih'

theorem nodesOfMembers_le_of_subperm {members members' : List (String × Json)}
    (hsub : members.Subperm members') : nodesOfMembers members ≤ nodesOfMembers members' := by
  obtain ⟨l, hperm, hsub⟩ := hsub
  exact nodesOfMembers_eq_of_perm hperm ▸ nodesOfMembers_le_of_sublist hsub

end Json

namespace Script.Trees

/-! ## How large a result is -/

theorem Walk.overCount_nodes (w : Walk) : w.overCount.nodes = w.nodes + 1 := by
  unfold overCount
  split <;> rfl

/-- The members of an object are not larger than what is made of the entries. -/
theorem nodes_object_le {entries : List (String × Value)} {trees : List Json}
    (hlength : trees.length = (entries.map (·.2)).length) :
    (Json.object (lastMembers ((entries.map (·.1)).zip trees))).nodes ≤
      Json.nodesOfItems trees + 1 := by
  have hnames : trees.length ≤ (entries.map (·.1)).length :=
    Nat.le_of_eq (by rw [hlength, List.length_map, List.length_map])
  have hkept := Json.nodesOfMembers_le_of_subperm
    (lastMembers_subperm ((entries.map (·.1)).zip trees))
  rw [Json.nodesOfMembers_eq (List.zip _ _), List.map_snd_zip hnames] at hkept
  exact Nat.succ_le_succ hkept

/-- What is made has no more arrays and objects than tables were counted, up to the limit. -/
theorem Makes.nodes_le {h : Heap} {room : Nat} {path : List Nat} {w w' : Walk} {vs : List Value}
    {js : List Json} (hm : Makes h room path w vs js w') :
    Json.nodesOfItems js + min w.nodes maxNodes ≤ min w'.nodes maxNodes := by
  induction hm with
  | done => exact Nat.le_of_eq (Nat.zero_add _)
  | leaf _ _ ih =>
    rw [Json.nodesOfItems, Json.nodes_of_isLeaf (isLeaf_leaf _)]
    omega
  | passed _ _ ih => exact ih
  -- a cut leaves null, which is no array and no object
  | deep _ ih =>
    rw [Walk.tell_nodes] at ih
    rw [Json.nodesOfItems, Json.nodes_of_isLeaf (j := .null) rfl]
    omega
  | many _ _ ih =>
    rw [Walk.overCount_nodes] at ih
    rw [Json.nodesOfItems, Json.nodes_of_isLeaf (j := .null) rfl]
    omega
  | again _ _ _ ih =>
    rw [Walk.tell_nodes, Walk.count_nodes] at ih
    rw [Json.nodesOfItems, Json.nodes_of_isLeaf (j := .null) rfl]
    omega
  -- one more is made and one more was counted
  | array _ _ _ _ _ ihInside ih =>
    rw [Walk.count_nodes] at ihInside
    rw [Json.nodesOfItems, Json.nodes]
    omega
  | map _ _ _ inside _ ihInside ih =>
    rw [Walk.count_nodes] at ihInside
    have hobject := nodes_object_le inside.length
    rw [Json.nodesOfItems]
    omega

/-! ## What a result is made of -/

/-- Which trees stand for some values when tables nested deeper than `room` are cut, those of `path`
    are cut, and all are cut once as many were met as may be, from one count of them to another.
    Each cut is told in the log. -/
inductive Mirrors (h : Heap) (log : List LogRecord) :
    Nat → List Nat → Nat → List Value → List Json → Nat → Prop
  | nil {room path n} : Mirrors h log room path n [] [] n
  | leaf {room path n v vs js n'} (hv : v.isTable = false)
      (rest : Mirrors h log room path n vs js n') :
      Mirrors h log room path n (v :: vs) (leaf v :: js) n'
  | deep {path n id vs js n'} (told : depthWarning ∈ log)
      (rest : Mirrors h log 0 path n vs js n') :
      Mirrors h log 0 path n (.table id :: vs) (.null :: js) n'
  | many {room path n id vs js n'} (told : countWarning ∈ log) (hn : maxNodes < n + 1)
      (rest : Mirrors h log (room + 1) path (n + 1) vs js n') :
      Mirrors h log (room + 1) path n (.table id :: vs) (.null :: js) n'
  | again {room path n id vs js n'} (told : cycleWarning ∈ log) (hn : n + 1 ≤ maxNodes)
      (hid : id ∈ path) (rest : Mirrors h log (room + 1) path (n + 1) vs js n') :
      Mirrors h log (room + 1) path n (.table id :: vs) (.null :: js) n'
  | array {room path n id size items n₁ vs js n'} (hn : n + 1 ≤ maxNodes) (hid : id ∉ path)
      (shape : classify (h.table id) = .array size)
      (inside : Mirrors h log room (id :: path) (n + 1) (elements (h.table id) size) items n₁)
      (rest : Mirrors h log (room + 1) path n₁ vs js n') :
      Mirrors h log (room + 1) path n (.table id :: vs) (.array items :: js) n'
  | map {room path n id trees n₁ vs js n'} (hn : n + 1 ≤ maxNodes) (hid : id ∉ path)
      (shape : classify (h.table id) = .map)
      (inside : Mirrors h log room (id :: path) (n + 1) ((named (h.table id)).map (·.2)) trees n₁)
      (rest : Mirrors h log (room + 1) path n₁ vs js n') :
      Mirrors h log (room + 1) path n (.table id :: vs)
        (.object (lastMembers (((named (h.table id)).map (·.1)).zip trees)) :: js) n'

/-- A table that is being converted is null. -/
theorem Mirrors.eq_null_of_mem {h : Heap} {log : List LogRecord} {room n n' id : Nat}
    {path : List Nat} {vs : List Value} {j : Json} {js : List Json} (hid : id ∈ path)
    (hm : Mirrors h log room path n (.table id :: vs) (j :: js) n') : j = .null := by
  cases hm with
  | leaf | deep | many | again => rfl
  | array _ hnot | map _ hnot => exact absurd hid hnot

/-- Whether the log says that there are too many tables, once they are cut for it. -/
def Walk.Told (w : Walk) : Prop := w.exhausted = true → countWarning ∈ w.warnings

theorem Walk.Told.tell {w : Walk} (hw : w.Told) (r : LogRecord) : (w.tell r).Told :=
  fun he => Walk.mem_tell.mpr (.inr (hw he))

theorem Walk.Told.mem_overCount {w : Walk} (hw : w.Told) : countWarning ∈ w.overCount.warnings := by
  unfold overCount
  split
  · rename_i he
    exact hw he
  · exact .head _

theorem Walk.Told.overCount {w : Walk} (hw : w.Told) : w.overCount.Told :=
  fun _ => hw.mem_overCount

theorem Walk.subset_overCount (w : Walk) : w.warnings ⊆ w.overCount.warnings := by
  unfold overCount
  split
  · exact fun _ => id
  · exact fun _ => .tail _

/-- Whatever was told stays told. -/
theorem Makes.told {h : Heap} {room : Nat} {path : List Nat} {w w' : Walk} {vs : List Value}
    {js : List Json} (hm : Makes h room path w vs js w') (hw : w.Told) :
    w.warnings ⊆ w'.warnings ∧ w'.Told := by
  induction hm with
  | done => exact ⟨fun _ => id, hw⟩
  | leaf _ _ ih => exact ih hw
  | passed _ _ ih | deep _ ih | again _ _ _ ih =>
    obtain ⟨hsub, hw'⟩ := ih (Walk.Told.tell hw _)
    exact ⟨fun r hr => hsub (.tail _ hr), hw'⟩
  | @many _ _ w _ _ _ _ _ _ ih =>
    obtain ⟨hsub, hw'⟩ := ih hw.overCount
    exact ⟨fun r hr => hsub (w.subset_overCount hr), hw'⟩
  | array _ _ _ _ _ ihInside ih | map _ _ _ _ _ ihInside ih =>
    obtain ⟨hsub, hw₁⟩ := ihInside hw
    obtain ⟨hsub', hw'⟩ := ih hw₁
    exact ⟨fun r hr => hsub' (hsub hr), hw'⟩

/-- Every cut is told, in the log as it is in the end. -/
theorem Makes.mirrors {h : Heap} {room : Nat} {path : List Nat} {w w' : Walk} {vs : List Value}
    {js : List Json} (hm : Makes h room path w vs js w') (hw : w.Told) {log : List LogRecord}
    (hlog : w'.warnings ⊆ log) : Mirrors h log room path w.nodes vs js w'.nodes := by
  induction hm with
  | done => exact .nil
  | leaf hv _ ih => exact .leaf hv (ih hw hlog)
  | passed _ _ ih => exact ih (Walk.Told.tell hw _) hlog
  | deep rest ih =>
    have htold := Walk.Told.tell hw depthWarning
    exact .deep (hlog ((rest.told htold).1 (.head _))) (ih htold hlog)
  | many hn rest ih =>
    have hrest := ih hw.overCount hlog
    rw [Walk.overCount_nodes] at hrest
    exact .many (hlog ((rest.told hw.overCount).1 hw.mem_overCount)) hn hrest
  | again hn hid rest ih =>
    have htold := Walk.Told.tell hw cycleWarning
    exact .again (hlog ((rest.told htold).1 (.head _))) hn hid (ih htold hlog)
  -- what is told inside is still told after the rest
  | array hn hid shape inside rest ihInside ih =>
    have htold := (inside.told hw).2
    have hinside := List.Subset.trans (rest.told htold).1 hlog
    exact .array hn hid shape (ihInside hw hinside) (ih htold hlog)
  | map hn hid shape inside rest ihInside ih =>
    have htold := (inside.told hw).2
    have hinside := List.Subset.trans (rest.told htold).1 hlog
    exact .map hn hid shape (ihInside hw hinside) (ih htold hlog)

/-! ## The bounds -/

/-- Whether a result is no larger than it may be, is nested no deeper than there was room, and has
    nothing cut but where the guards say so. -/
structure Bounded (h : Heap) (room : Nat) (v : Value) (r : Logged Json) : Prop where
  nodes : r.value.nodes ≤ maxNodes
  nesting : r.value.nesting ≤ room
  mirrors : ∃ n, Mirrors h r.log room [] 0 [v] [r.value] n

theorem bounded_ofChild (h : Heap) (room : Nat) (v : Value) :
    Bounded h room v (finish (ofChild h room [] v {})) where
  nodes := by
    have hmade := (makes_ofChild h room [] v {}).nodes_le
    rw [Json.nodesOfItems, Json.nodesOfItems] at hmade
    exact Nat.le_trans (Nat.le_add_right _ _) (Nat.le_trans hmade (Nat.min_le_right _ _))
  nesting := nesting_ofChild_le h room [] v {}
  mirrors :=
    ⟨_, (makes_ofChild h room [] v {}).mirrors nofun fun _ => List.mem_reverse.mpr⟩

/-- What is nested less deep than the limit is accepted. -/
theorem toValue_of_nesting_lt {j : Json} (hj : j.nesting < maxDepth) (h : Heap) :
    ∃ v h', toValue j h = .ok (v, h') := by
  have hheight : j.height ≤ maxDepth := Nat.le_trans j.height_le hj
  obtain ⟨_, ⟨v, h'⟩, hv⟩ | ⟨hlt, _⟩ := toValueFrom_settles maxDepth j h
  · exact ⟨v, h', hv⟩
  · exact absurd hheight (Nat.not_le.mpr hlt)

/-- Of any heap at all every value is converted within the bounds, and so is every table counted
    from itself, with one level more.  What a value is converted into can be made into a value
    again, on any heap. -/
theorem conversion_bounded (h : Heap) (v : Value) :
    Bounded h (maxDepth - 1) v (ofValue h v) ∧
      (∀ id, Bounded h maxDepth (.table id) (ofRoot h id)) ∧
      ∀ h', ∃ v' h'', toValue (ofValue h v).value h' = .ok (v', h'') := by
  refine ⟨?_, fun id => bounded_ofChild h maxDepth (.table id), fun h' => ?_⟩
  · rw [ofValue_eq]
    exact bounded_ofChild h _ v
  · exact toValue_of_nesting_lt (nesting_ofValue_lt h v) h'

end Script.Trees

end OscHost
