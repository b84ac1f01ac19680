import OscHost.Proofs.Menus.Grammar
import OscHost.Proofs.Trees.Members
/-!
  Menus that come back as they went.

  What is written of a menu is read as that menu again, whatever the names are: a separator is written
  as a text and an entry never is, so an entry named like the mark of separators stays one.  A member
  that is left out stands for its default.  Nothing depends on the order of members, so the tree may
  have been stored in between (`Json.canonical`), with its members sorted by name.
-/

namespace OscHost.Json

variable {members : List (String × Json)} {name : String}

/-! ## Stored trees -/

theorem lastOfEach_eq (members : List (String × Json)) :
    lastOfEach members = Script.Trees.lastOfRuns members := by
  fun_induction lastOfEach members with
  | case1 => rfl
  | case2 m => rfl
  | case3 m n rest hsame ih => rw [Script.Trees.lastOfRuns, if_pos (beq_iff_eq.mpr hsame), ih]
  | case4 m n rest hother ih =>
    rw [Script.Trees.lastOfRuns, if_neg fun h => hother (eq_of_beq h), ih]

theorem sortMembers_nodup (members : List (String × Json)) :
    ((sortMembers members).map (·.1)).Nodup := by
  rw [sortMembers, lastOfEach_eq]
  exact (Script.Trees.lastOfRuns_ascending (Script.Trees.sorted_pairwise members)).imp String.ne_of_lt

/-- A member that is followed by one of its name does not count. -/
theorem lookup_lastOfEach (members : List (String × Json)) (name : String) :
    lookup (lastOfEach members) name = lookup members name := by
  fun_induction lastOfEach members with
  | case1 => rfl
  | case2 m => rfl
  | case3 m n rest hsame ih =>
    rw [ih, lookup_cons m]
    by_cases hname : m.1 = name
    · have hlater : (lookup (n :: rest) name).isSome := by
        rw [lookup_cons, if_pos (hsame ▸ hname)]
        cases lookup rest name <;> rfl
      obtain ⟨value, hvalue⟩ := Option.isSome_iff_exists.mp hlater
      rw [hvalue, Option.some_or]
    · rw [if_neg hname, Option.or_none]
  | case4 m n rest hother ih => rw [lookup_cons, ih, ← lookup_cons]

/-- Only the members of a name count. -/
theorem lookup_filter (members : List (String × Json)) (name : String) :
    lookup (members.filter (·.1 == name)) name = lookup members name := by
  induction members with
  | nil => rfl
  | cons m rest ih =>
    by_cases hname : m.1 = name
    · rw [List.filter_cons_of_pos (by simpa using hname), lookup_cons, ih, ← lookup_cons]
    · rw [List.filter_cons_of_neg (by simpa using hname), ih, lookup_cons, if_neg hname,
        Option.or_none]

/-- Sorting keeps the member that counts. -/
theorem lookup_sortMembers (members : List (String × Json)) (name : String) :
    lookup (sortMembers members) name = lookup members name := by
  rw [sortMembers, lookup_lastOfEach, ← lookup_filter, Script.Trees.filter_sorted, lookup_filter]

theorem mem_of_mem_sortMembers {m : String × Json} (h : m ∈ sortMembers members) : m ∈ members := by
  rw [sortMembers, lastOfEach_eq] at h
  exact (List.mergeSort_perm members Script.Trees.before).mem_iff.mp
    ((Script.Trees.lastOfRuns_sublist _).subset h)

theorem canonicalItems_eq (items : List Json) : canonicalItems items = items.map canonical := by
  induction items with
  | nil => rfl
  | cons j items ih => rw [canonicalItems, ih, List.map_cons]

theorem canonicalMembers_eq (members : List (String × Json)) :
    canonicalMembers members = members.map fun m => (m.1, m.2.canonical) := by
  induction members with
  | nil => rfl
  | cons m rest ih => rw [canonicalMembers, ih, List.map_cons]

/-- A stored object holds the stored form of the member that counts. -/
theorem lookup_canonical (members : List (String × Json)) (name : String) :
    lookup (sortMembers (canonicalMembers members)) name = (lookup members name).map canonical := by
  rw [lookup_sortMembers]
  induction members with
  | nil => rfl
  | cons m rest ih =>
    rw [canonicalMembers, lookup_cons, lookup_cons, ih]
    dsimp only
    split <;> cases lookup rest name <;> rfl

/-- Stored trees have members of different names. -/
theorem canonical_unambiguous (j : Json) : j.canonical.Each Unambiguous := by
  -- over trees side by side, as the writer goes
  suffices h : ∀ js : List Json, ∀ j ∈ js, j.canonical.Each Unambiguous from
    h [j] j (List.mem_singleton_self j)
  intro js
  induction js using forest_induction with
  | nil => exact List.forall_mem_nil _
  | leaf j js hleaf ih =>
    refine List.forall_mem_cons.mpr ⟨?_, ih⟩
    cases j with
    | array | object => cases hleaf
    | _ => exact trivial
  | array items js ihItems ih =>
    refine List.forall_mem_cons.mpr ⟨⟨trivial, eachItem_iff.mpr ?_⟩, ih⟩
    rw [canonicalItems_eq]
    exact List.forall_mem_map.mpr ihItems
  | object members js ihMembers ih =>
    refine List.forall_mem_cons.mpr
      ⟨⟨sortMembers_nodup _, (eachMember_iff _).mpr (eachItem_iff.mpr ?_)⟩, ih⟩
    -- sorting only drops members, and what is left was stored with its value
    intro value hvalue
    obtain ⟨m, hm, rfl⟩ := List.mem_map.mp hvalue
    have hmember := mem_of_mem_sortMembers hm
    rw [canonicalMembers_eq] at hmember
    obtain ⟨n, hn, rfl⟩ := List.mem_map.mp hmember
    exact ihMembers n.2 (List.mem_map_of_mem hn)

end OscHost.Json

namespace OscHost.MenuItem

open Json (lookup)

/-! ## Written items -/

mutual

/-- An item is read from its tree. -/
theorem ofJson?_toJson : ∀ item : MenuItem, ofJson? item.toJson = some item
  | .separator => by rw [toJson, ofJson?, if_pos rfl]
  | .entry name disabled children => by
    have hchildren := itemsOf?_itemsToJson children
    unfold toJson
    refine ofJson?_object.mpr ⟨⟨some name, disabled, children⟩, name, ?_, rfl, rfl⟩
    cases children with
    | nil => cases disabled <;> simp [fieldsOf?]
    | cons item rest =>
      rw [itemsToJson] at hchildren
      cases disabled <;> simp [fieldsOf?, hchildren]

/-- Items are read from their trees. -/
theorem itemsOf?_itemsToJson : ∀ items : List MenuItem, itemsOf? (itemsToJson items) = some items
  | [] => rfl
  | item :: rest => by
    rw [itemsToJson, itemsOf?, ofJson?_toJson item]
    dsimp only
    rw [itemsOf?_itemsToJson rest, Option.map_some]

end

mutual

/-- The tree of an item has no member twice. -/
theorem toJson_unambiguous : ∀ item : MenuItem, item.toJson.Each Json.Unambiguous
  | .separator => trivial
  | .entry name disabled children => by
    have hchildren := itemsToJson_unambiguous children
    unfold toJson
    cases children with
    | nil => cases disabled <;> simp [Json.Each, Json.EachMember, Json.Unambiguous]
    | cons item rest =>
      rw [itemsToJson] at hchildren
      cases disabled <;> simp [Json.Each, Json.EachMember, Json.Unambiguous, hchildren]

/-- Nor do those of some items. -/
theorem itemsToJson_unambiguous :
    ∀ items : List MenuItem, Json.EachItem Json.Unambiguous (itemsToJson items)
  | [] => trivial
  | item :: rest => ⟨toJson_unambiguous item, itemsToJson_unambiguous rest⟩

end

/-! ## Spelling as stored -/

theorem Flagged.canonical {members : List (String × Json)} {disabled : Bool}
    (h : Flagged members disabled) :
    Flagged (Json.sortMembers (Json.canonicalMembers members)) disabled := by
  unfold Flagged
  rw [Json.lookup_canonical]
  obtain h | ⟨h, hdisabled⟩ := h <;> rw [h]
  · exact .inl rfl
  · exact .inr ⟨rfl, hdisabled⟩

/-- What a tree spells it spells as stored as well. -/
theorem Spells.canonical {tree : Json} {item : MenuItem} (h : Spells tree item) :
    Spells tree.canonical item := by
  induction tree using Json.item_induction generalizing item with
  | step j ih =>
    cases h with
    | separator => exact .separator
    | label hs => exact .label hs
    | leaf hname hflagged hvalue =>
      exact .leaf (by rw [Json.lookup_canonical, hname]; rfl) hflagged.canonical
        (by rw [Json.lookup_canonical, hvalue]; rfl)
    | @branch members name disabled items children hname hflagged hvalue hspelled =>
      have hmem := Json.mem_of_lookup hvalue
      have hstored : List.Forall₂ Spells (Json.canonicalItems items) children := by
        rw [Json.canonicalItems_eq, List.forall₂_map_left_iff]
        refine ((List.forall₂_and_left _ _).mpr ⟨fun k hk => hk, hspelled⟩).imp fun k item hk => ?_
        exact ih _ _ _ k rfl hmem hk.1 hk.2
      exact .branch (by rw [Json.lookup_canonical, hname]; rfl) hflagged.canonical
        (by rw [Json.lookup_canonical, hvalue]; rfl) hstored

end OscHost.MenuItem

namespace OscHost.Menu

variable {tree : Json} {menu : List MenuItem}

/-- A menu is read from its tree. -/
theorem parse_written (menu : List MenuItem) : parse (toJson menu) = .ok menu := by
  rw [toJson, parse, MenuItem.itemsOf?_itemsToJson]

/-- So its tree spells it. -/
theorem spells_toJson (menu : List MenuItem) : Spells (toJson menu) menu := by
  have htree : (toJson menu).Each Json.Unambiguous :=
    ⟨trivial, MenuItem.itemsToJson_unambiguous menu⟩
  exact (parse_eq_ok htree).mp (parse_written menu)

theorem Spells.canonical (h : Spells tree menu) : Spells tree.canonical menu := by
  obtain ⟨items, rfl, hspelled⟩ := h
  refine ⟨_, rfl, ?_⟩
  rw [Json.canonicalItems_eq, List.forall₂_map_left_iff]
  exact hspelled.imp fun _ _ => MenuItem.Spells.canonical

/-- Every menu is read from its tree, as it is written and as it is stored.  So what is read of any
    tree can be written and is read as the same menu again. -/
theorem parse_toJson (menu : List MenuItem) (tree : Json) :
    parse (toJson menu) = .ok menu ∧ parse (toJson menu).canonical = .ok menu ∧
      (parse tree >>= fun read => parse (toJson read)) = parse tree := by
  refine ⟨parse_written menu, ?_, ?_⟩
  · exact (parse_eq_ok (Json.canonical_unambiguous _)).mpr (spells_toJson menu).canonical
  · cases parse tree with
    | error e => rfl
    | ok read => exact parse_written read

end OscHost.Menu
