import Mathlib.Data.List.Forall2
import OscHost.Menu
import OscHost.Proofs.Trees.Forest
/-!
  The grammar of menus.

  A tree spells an item (`MenuItem.Spells`), and a list of trees a menu, tree by tree.  Reading finds
  the item that a tree spells and fails where there is none, so what it accepts is the grammar and
  nothing else.  What keeps a list from being a menu is one tree, at whatever depth, that is no item
  by itself (`MenuItem.IsItem`): a flag or a list of children of a wrong type is such a fault, and is
  not passed over like a member without a meaning.

  What is below an item is in an array that one of its members holds (`Json.item_induction`).
-/

namespace OscHost.Json

variable {members : List (String × Json)} {name : String} {value : Json} {P : Json → Prop}

/-! ## Members of different names -/

/-- Whether the members of an object have different names, as they have in every tree that the
    program holds. -/
def Unambiguous : Json → Prop
  | .object members => (members.map (·.1)).Nodup
  | .null | .bool _ | .int _ | .float _ | .string _ | .array _ => True

instance : DecidablePred Unambiguous
  | .object members => inferInstanceAs (Decidable (members.map (·.1)).Nodup)
  | .null | .bool _ | .int _ | .float _ | .string _ | .array _ => instDecidableTrue

theorem foldl_lookup (members : List (String × Json)) (name : String) (found : Option Json) :
    members.foldl (fun found m => if m.1 = name then some m.2 else found) found =
      (lookup members name).or found := by
  induction members generalizing found with
  | nil => rfl
  | cons m rest ih =>
    rw [lookup, List.foldl_cons, List.foldl_cons, ih, ih (if m.1 = name then _ else none)]
    split
    · cases lookup rest name <;> rfl
    · cases lookup rest name <;> rfl

/-- A member counts unless a later one has its name. -/
theorem lookup_cons (m : String × Json) (rest : List (String × Json)) (name : String) :
    lookup (m :: rest) name = (lookup rest name).or (if m.1 = name then some m.2 else none) := by
  rw [lookup, List.foldl_cons, foldl_lookup]

theorem mem_of_lookup (h : lookup members name = some value) : (name, value) ∈ members := by
  induction members with
  | nil => cases h
  | cons m rest ih =>
    rw [lookup_cons] at h
    cases hrest : lookup rest name with
    | some found =>
      rw [hrest] at h
      cases h
      exact .tail _ (ih hrest)
    | none =>
      rw [hrest, Option.none_or] at h
      split at h
      · cases h
        subst name
        exact .head _
      · cases h

theorem lookup_eq_none (h : name ∉ members.map (·.1)) : lookup members name = none := by
  cases hfound : lookup members name with
  | none => rfl
  | some value => exact absurd (List.mem_map_of_mem (mem_of_lookup hfound)) h

theorem lookup_cons_self (h : name ∉ members.map (·.1)) (value : Json) :
    lookup ((name, value) :: members) name = some value := by
  rw [lookup_cons, lookup_eq_none h, if_pos rfl, Option.none_or]

theorem lookup_cons_of_ne {other : String} (h : other ≠ name) (value : Json) :
    lookup ((other, value) :: members) name = lookup members name := by
  rw [lookup_cons, if_neg h, Option.or_none]

/-! ## Trees below a tree -/

theorem eachItem_iff {js : List Json} : EachItem P js ↔ ∀ j ∈ js, j.Each P := by
  induction js with
  | nil => exact iff_of_true trivial (List.forall_mem_nil _)
  | cons j js ih => rw [EachItem, ih, List.forall_mem_cons]

theorem Each.self {j : Json} (h : j.Each P) : P j := by
  cases j with
  | array _ | object _ => exact h.1
  | _ => exact h

/-- What holds of all trees in an object holds of the items of an array that a member holds. -/
theorem Each.below {items : List Json} {k : Json} (h : (Json.object members).Each P)
    (hm : (name, .array items) ∈ members) (hk : k ∈ items) : k.Each P := by
  have hvalues := eachItem_iff.mp ((eachMember_iff members).mp h.2)
  have hitems : (Json.array items).Each P := hvalues _ (List.mem_map.mpr ⟨_, hm, rfl⟩)
  exact eachItem_iff.mp hitems.2 k hk

/-- Induction on what is below a tree: the items of the arrays that members of an object hold. -/
theorem item_induction
    (step : ∀ j, (∀ members name items k, j = .object members → (name, .array items) ∈ members →
      k ∈ items → P k) → P j) (j : Json) : P j := by
  refine step j fun members name items k hj hm hk => ?_
  have hsmaller : sizeOf k < sizeOf j := by
    have hmember := List.sizeOf_lt_of_mem hm
    have hitem := List.sizeOf_lt_of_mem hk
    rw [hj, Json.object.sizeOf_spec]
    rw [Prod.mk.sizeOf_spec, Json.array.sizeOf_spec] at hmember
    omega
  exact item_induction step k
termination_by sizeOf j

end OscHost.Json

namespace OscHost.MenuItem

open Json (lookup)

variable {members : List (String × Json)} {items : List Json} {tree : Json} {menu : List MenuItem}

/-! ## The grammar -/

/-- Whether the members of an object disable an item; without a flag it is enabled. -/
def Flagged (members : List (String × Json)) (disabled : Bool) : Prop :=
  lookup members "disabled" = some (.bool disabled) ∨
    lookup members "disabled" = none ∧ disabled = false

/-- The item that a tree spells. -/
inductive Spells : Json → MenuItem → Prop
  | separator : Spells (.string separatorMark) .separator
  | label {s : String} (h : s ≠ separatorMark) : Spells (.string s) (.entry s false [])
  | leaf {members : List (String × Json)} {name : String} {disabled : Bool}
      (named : lookup members "name" = some (.string name)) (flagged : Flagged members disabled)
      (childless : lookup members "children" = none) :
      Spells (.object members) (.entry name disabled [])
  | branch {members : List (String × Json)} {name : String} {disabled : Bool} {items : List Json}
      {children : List MenuItem} (named : lookup members "name" = some (.string name))
      (flagged : Flagged members disabled)
      (holds : lookup members "children" = some (.array items))
      (spelled : List.Forall₂ Spells items children) :
      Spells (.object members) (.entry name disabled children)

/-- Whether a tree is an item, whatever its children are. -/
inductive IsItem : Json → Prop
  | label (s : String) : IsItem (.string s)
  | node {members : List (String × Json)} {name : String}
      (named : lookup members "name" = some (.string name))
      (flag : ∀ value, lookup members "disabled" = some value → ∃ b, value = .bool b)
      (children : ∀ value, lookup members "children" = some value → ∃ items, value = .array items) :
      IsItem (.object members)

/-- Whether a tree is in the place of an item: one of some trees, or at any depth among their
    children. -/
inductive Among (j : Json) : List Json → Prop
  | here {items : List Json} (h : j ∈ items) : Among j items
  | child {items inner : List Json} {members : List (String × Json)} (h : .object members ∈ items)
      (holds : lookup members "children" = some (.array inner)) (among : Among j inner) :
      Among j items

/-! ## Reading -/

/-- What an optional member of an object is read as: its default if it is missing. -/
inductive ReadAs {α : Type} (R : Json → α → Prop) (default : α) : Option Json → α → Prop
  | missing : ReadAs R default none default
  | present {value : Json} {a : α} (h : R value a) : ReadAs R default (some value) a

section

variable {α : Type} {R : Json → α → Prop} {default a : α} {value : Json}

@[simp] theorem readAs_none : ReadAs R default none a ↔ a = default :=
  ⟨fun h => by cases h; rfl, fun h => h ▸ .missing⟩

@[simp] theorem readAs_some : ReadAs R default (some value) a ↔ R value a :=
  ⟨fun h => by cases h; assumption, .present⟩

end

/-- Members of different names are read in any order. -/
theorem fieldsOf?_eq_some (hnames : (members.map (·.1)).Nodup) {fields fields' : Fields} :
    fieldsOf? fields members = some fields' ↔
      ReadAs (fun value name => ∃ s, value = .string s ∧ name = some s) fields.name
        (lookup members "name") fields'.name ∧
      ReadAs (fun value b => value = .bool b) fields.disabled (lookup members "disabled")
        fields'.disabled ∧
      ReadAs (fun value children => ∃ items, value = .array items ∧ itemsOf? items = some children)
        fields.children (lookup members "children") fields'.children := by
  -- over the members in order; `fields` is what those before have set. A name that comes now does
  -- not come again, so the rest reads nothing for it.
  induction members generalizing fields with
  | nil =>
    simp only [fieldsOf?, lookup, List.foldl_nil, readAs_none, Option.some.injEq]
    constructor
    · rintro rfl
      exact ⟨rfl, rfl, rfl⟩
    · intro h
      cases fields
      cases fields'
      simp_all
  | cons m rest ih =>
    obtain ⟨name, value⟩ := m
    obtain ⟨hnew, hrest⟩ := List.nodup_cons.mp hnames
    replace ih := @ih hrest
    by_cases hname : name = "name"
    · subst hname
      rw [Json.lookup_cons_self hnew, Json.lookup_cons_of_ne (by decide),
        Json.lookup_cons_of_ne (by decide)]
      cases value with
      | string s => simp [fieldsOf?, ih, Json.lookup_eq_none hnew]
      | _ => simp [fieldsOf?]
    by_cases hflag : name = "disabled"
    · subst hflag
      rw [Json.lookup_cons_self hnew, Json.lookup_cons_of_ne (by decide),
        Json.lookup_cons_of_ne (by decide)]
      cases value with
      | bool b => simp [fieldsOf?, ih, Json.lookup_eq_none hnew, eq_comm]
      | _ => simp [fieldsOf?]
    by_cases hchildren : name = "children"
    · subst hchildren
      rw [Json.lookup_cons_self hnew, Json.lookup_cons_of_ne (by decide),
        Json.lookup_cons_of_ne (by decide)]
      cases value with
      | array items =>
        cases hitems : itemsOf? items with
        | some children => simp [fieldsOf?, ih, Json.lookup_eq_none hnew, hitems, eq_comm]
        | none => simp [fieldsOf?, hitems]
      | _ => simp [fieldsOf?]
    · rw [Json.lookup_cons_of_ne hname, Json.lookup_cons_of_ne hflag,
        Json.lookup_cons_of_ne hchildren, ← ih]
      simp [fieldsOf?, hname, hflag, hchildren]

/-- Relations that agree on the items of a list agree on the list. -/
theorem forall₂_congr {R S : Json → MenuItem → Prop} (h : ∀ j ∈ items, ∀ item, R j item ↔ S j item) :
    List.Forall₂ R items menu ↔ List.Forall₂ S items menu := by
  induction items generalizing menu with
  | nil => rw [List.forall₂_nil_left_iff, List.forall₂_nil_left_iff]
  | cons j items ih =>
    obtain ⟨hj, hitems⟩ := List.forall_mem_cons.mp h
    simp only [List.forall₂_cons_left_iff, hj, ih hitems]

/-- A list of trees is read tree by tree. -/
theorem itemsOf?_eq_some :
    itemsOf? items = some menu ↔ List.Forall₂ (fun j item => ofJson? j = some item) items menu := by
  induction items generalizing menu with
  | nil => simp [itemsOf?, eq_comm]
  | cons j items ih =>
    rw [itemsOf?, List.forall₂_cons_left_iff]
    cases hj : ofJson? j with
    | none => simp
    | some item =>
      simp only [Option.map_eq_some_iff, Option.some.injEq, ih]
      constructor
      · rintro ⟨rest, hrest, rfl⟩
        exact ⟨item, rest, rfl, hrest, rfl⟩
      · rintro ⟨_, rest, rfl, hrest, rfl⟩
        exact ⟨rest, hrest, rfl⟩

theorem ofJson?_object {item : MenuItem} :
    ofJson? (.object members) = some item ↔ ∃ fields name, fieldsOf? {} members = some fields ∧
      fields.name = some name ∧ .entry name fields.disabled fields.children = item := by
  rw [ofJson?]
  simp only [Option.bind_eq_bind, Option.bind_eq_some_iff, Option.some.injEq]
  constructor
  · rintro ⟨fields, hfields, name, hname, h⟩
    exact ⟨fields, name, hfields, hname, h⟩
  · rintro ⟨fields, name, hfields, hname, h⟩
    exact ⟨fields, hfields, name, hname, h⟩

theorem readAs_name {name : String} :
    ReadAs (fun value name => ∃ s, value = .string s ∧ name = some s) none (lookup members "name")
      (some name) ↔ lookup members "name" = some (.string name) := by
  cases lookup members "name" <;> simp

theorem readAs_flag {disabled : Bool} :
    ReadAs (fun value b => value = .bool b) false (lookup members "disabled") disabled ↔
      Flagged members disabled := by
  rw [Flagged]
  cases lookup members "disabled" <;> simp

/-- Reading a tree finds the item that it spells, and nothing if it spells none. -/
theorem ofJson?_eq_some (htree : tree.Each Json.Unambiguous) {item : MenuItem} :
    ofJson? tree = some item ↔ Spells tree item := by
  induction tree using Json.item_induction generalizing item with
  | step j ih =>
    cases j with
    | string s =>
      by_cases hs : s = separatorMark
      · subst hs
        rw [ofJson?, if_pos rfl, Option.some.injEq]
        constructor
        · rintro rfl
          exact .separator
        · intro hspells
          cases hspells with
          | separator => rfl
          | label hs => exact absurd rfl hs
      · rw [ofJson?, if_neg hs, Option.some.injEq]
        constructor
        · rintro rfl
          exact .label hs
        · intro hspells
          cases hspells with
          | separator => exact absurd rfl hs
          | label => rfl
    | object members =>
      have hnames : (members.map (·.1)).Nodup := htree.self
      -- the hypothesis of the induction is about the items of any member, here those of `children`
      have hchildren : ∀ items children, lookup members "children" = some (.array items) →
          (itemsOf? items = some children ↔ List.Forall₂ Spells items children) := by
        intro items children hitems
        have hmem := Json.mem_of_lookup hitems
        rw [itemsOf?_eq_some]
        exact forall₂_congr fun k hk item => ih _ _ _ k rfl hmem hk (htree.below hmem hk)
      rw [ofJson?_object]
      constructor
      · rintro ⟨⟨_, disabled, children⟩, name, hfields, rfl, rfl⟩
        obtain ⟨hname, hflag, hread⟩ := (fieldsOf?_eq_some hnames).mp hfields
        replace hname := readAs_name.mp hname
        replace hflag := readAs_flag.mp hflag
        generalize hvalue : lookup members "children" = value at hread
        cases hread with
        | missing => exact .leaf hname hflag hvalue
        | present h =>
          obtain ⟨items, rfl, hitems⟩ := h
          exact .branch hname hflag hvalue ((hchildren _ _ hvalue).mp hitems)
      · intro hspells
        cases hspells with
        | @leaf _ name disabled hname hflag hvalue =>
          refine ⟨⟨some name, disabled, []⟩, name, (fieldsOf?_eq_some hnames).mpr
            ⟨readAs_name.mpr hname, readAs_flag.mpr hflag, ?_⟩, rfl, rfl⟩
          rw [hvalue]
          exact .missing
        | @branch _ name disabled items children hname hflag hvalue hspelled =>
          refine ⟨⟨some name, disabled, children⟩, name, (fieldsOf?_eq_some hnames).mpr
            ⟨readAs_name.mpr hname, readAs_flag.mpr hflag, ?_⟩, rfl, rfl⟩
          rw [hvalue]
          exact .present ⟨items, rfl, (hchildren _ _ hvalue).mpr hspelled⟩
    | null | bool _ | int _ | float _ | array _ =>
      exact iff_of_false (by simp [ofJson?]) fun hspells => by cases hspells

/-! ## Trees that spell something -/

theorem Spells.isItem {item : MenuItem} (h : Spells tree item) : IsItem tree := by
  have hflag {members : List (String × Json)} {disabled : Bool} (h : Flagged members disabled) :
      ∀ value, lookup members "disabled" = some value → ∃ b, value = .bool b := by
    intro value hvalue
    obtain h | ⟨h, -⟩ := h <;> rw [h] at hvalue <;> cases hvalue
    exact ⟨_, rfl⟩
  cases h with
  | separator | label _ => exact .label _
  | leaf hname hflagged hvalue =>
    exact .node hname (hflag hflagged) fun value h => by rw [hvalue] at h; cases h
  | branch hname hflagged hvalue _ =>
    exact .node hname (hflag hflagged) fun value h => by rw [hvalue] at h; cases h; exact ⟨_, rfl⟩

theorem exists_of_forall₂ {R : Json → MenuItem → Prop} {j : Json}
    (h : List.Forall₂ R items menu) (hj : j ∈ items) : ∃ item, R j item := by
  induction h with
  | nil => cases hj
  | cons hr _ ih =>
    rcases List.mem_cons.mp hj with rfl | hj
    · exact ⟨_, hr⟩
    · exact ih hj

theorem exists_forall₂ {R : Json → MenuItem → Prop} (h : ∀ j ∈ items, ∃ item, R j item) :
    ∃ menu, List.Forall₂ R items menu := by
  induction items with
  | nil => exact ⟨[], .nil⟩
  | cons j items ih =>
    obtain ⟨⟨item, hj⟩, hitems⟩ := List.forall_mem_cons.mp h
    obtain ⟨menu, hmenu⟩ := ih hitems
    exact ⟨item :: menu, .cons hj hmenu⟩

/-- Where a menu is spelled, every place of an item holds one. -/
theorem isItem_of_among {j : Json} (h : List.Forall₂ Spells items menu) (hj : Among j items) :
    IsItem j := by
  induction hj generalizing menu with
  | here hj =>
    obtain ⟨item, hspells⟩ := exists_of_forall₂ h hj
    exact hspells.isItem
  | child hmem holds _ ih =>
    obtain ⟨item, hspells⟩ := exists_of_forall₂ h hmem
    cases hspells with
    | leaf _ _ hvalue => rw [hvalue] at holds; cases holds
    | branch _ _ hvalue hspelled =>
      rw [hvalue] at holds
      cases holds
      exact ih hspelled

/-- A tree spells an item if every place of an item in it holds one. -/
theorem exists_spells (h : ∀ j, Among j [tree] → IsItem j) : ∃ item, Spells tree item := by
  induction tree using Json.item_induction with
  | step j ih =>
    cases h j (.here (List.mem_singleton_self j)) with
    | label s =>
      by_cases hs : s = separatorMark
      · subst hs
        exact ⟨_, .separator⟩
      · exact ⟨_, .label hs⟩
    | @node members name hname hflag hchildren =>
      -- no flag is read as false
      have hflagged : ∃ disabled, Flagged members disabled := by
        cases hvalue : lookup members "disabled" with
        | none => exact ⟨false, .inr ⟨hvalue, rfl⟩⟩
        | some value =>
          obtain ⟨b, rfl⟩ := hflag value hvalue
          exact ⟨b, .inl hvalue⟩
      obtain ⟨disabled, hflagged⟩ := hflagged
      cases hvalue : lookup members "children" with
      | none => exact ⟨_, .leaf hname hflagged hvalue⟩
      | some value =>
        obtain ⟨items, rfl⟩ := hchildren value hvalue
        have hitems : ∀ k ∈ items, ∃ item, Spells k item := fun k hk =>
          -- a place below an item of the children is a place below the whole
          ih _ _ _ k rfl (Json.mem_of_lookup hvalue) hk fun j hj => by
            refine h j (.child (List.mem_singleton_self _) hvalue ?_)
            cases hj with
            | here hj => exact .here (List.mem_singleton.mp hj ▸ hk)
            | child hmem holds among => exact .child (List.mem_singleton.mp hmem ▸ hk) holds among
        obtain ⟨children, hspelled⟩ := exists_forall₂ hitems
        exact ⟨_, .branch hname hflagged hvalue hspelled⟩

end OscHost.MenuItem

namespace OscHost.Menu

variable {tree : Json} {menu : List MenuItem}

/-- Whether a tree is a menu: a list in which every place of an item, at any depth, holds one. -/
def IsMenu (tree : Json) : Prop :=
  ∃ items, tree = .array items ∧ ∀ j, MenuItem.Among j items → MenuItem.IsItem j

/-- The menu that a tree spells, item by item. -/
def Spells (tree : Json) (menu : List MenuItem) : Prop :=
  ∃ items, tree = .array items ∧ List.Forall₂ MenuItem.Spells items menu

theorem isMenu_iff : IsMenu tree ↔ ∃ menu, Spells tree menu := by
  constructor
  · rintro ⟨items, rfl, hitems⟩
    have hspelled : ∀ j ∈ items, ∃ item, MenuItem.Spells j item := fun j hj =>
      MenuItem.exists_spells fun k hk => hitems k <| by
        cases hk with
        | here hk => exact .here (List.mem_singleton.mp hk ▸ hj)
        | child hmem holds among => exact .child (List.mem_singleton.mp hmem ▸ hj) holds among
    obtain ⟨menu, hmenu⟩ := MenuItem.exists_forall₂ hspelled
    exact ⟨menu, items, rfl, hmenu⟩
  · rintro ⟨menu, items, rfl, hmenu⟩
    exact ⟨items, rfl, fun j hj => MenuItem.isItem_of_among hmenu hj⟩

/-- Reading finds the menu that a tree spells. -/
theorem parse_eq_ok (htree : tree.Each Json.Unambiguous) : parse tree = .ok menu ↔ Spells tree menu := by
  cases tree with
  | array items =>
    have hspelled : MenuItem.itemsOf? items = some menu ↔
        List.Forall₂ MenuItem.Spells items menu := by
      rw [MenuItem.itemsOf?_eq_some]
      exact MenuItem.forall₂_congr fun j hj item =>
        MenuItem.ofJson?_eq_some (Json.eachItem_iff.mp htree.2 j hj)
    have hparse : parse (.array items) = .ok menu ↔ MenuItem.itemsOf? items = some menu := by
      rw [parse]
      cases MenuItem.itemsOf? items <;> simp
    rw [hparse, hspelled]
    constructor
    · exact fun h => ⟨items, rfl, h⟩
    · rintro ⟨_, h, hmenu⟩
      cases h
      exact hmenu
  | _ => exact iff_of_false (by simp [parse]) fun ⟨_, hitems, _⟩ => by cases hitems

/-- Whatever is refused is refused with a complaint about the configuration. -/
theorem parse_cases (tree : Json) :
    (∃ menu, parse tree = .ok menu) ∨ ∃ text, parse tree = .error (.configLoad text) := by
  unfold parse
  split
  · split
    · exact .inl ⟨_, rfl⟩
    · exact .inr ⟨_, rfl⟩
  · exact .inr ⟨_, rfl⟩
  · exact .inr ⟨_, rfl⟩

/-- Menus are accepted and nothing else is.  What is read of one is the menu that it spells, and one
    tree in the place of an item that is none, at any depth, has the whole refused. -/
theorem parse_follows_grammar (htree : tree.Each Json.Unambiguous) :
    ((∃ menu, parse tree = .ok menu) ↔ IsMenu tree) ∧
      (∀ menu, parse tree = .ok menu ↔ Spells tree menu) ∧
      (¬ IsMenu tree → ∃ text, parse tree = .error (.configLoad text)) := by
  have haccepted : (∃ menu, parse tree = .ok menu) ↔ IsMenu tree := by
    rw [isMenu_iff]
    exact exists_congr fun menu => parse_eq_ok htree
  exact ⟨haccepted, fun menu => parse_eq_ok htree, fun h =>
    (parse_cases tree).resolve_left fun hok => h (haccepted.mp hok)⟩

/-- A menu with a separator on each level, an entry that is named like one, and a member without a
    meaning. -/
def sampleTree (flag : Json) : Json := .array [.string "Refresh", .string "-", .object
  [("children", .array [.string "-", .object [("disabled", flag), ("name", .string "-")]]),
    ("colour", .int 3), ("name", .string "Outfits")]]

/-- The menu is read level by level, unless the flag inside is no truth value. -/
theorem sampleTree_follows_grammar :
    (sampleTree (.bool true)).Each Json.Unambiguous ∧ (sampleTree .null).Each Json.Unambiguous ∧
    parse (sampleTree (.bool true)) = .ok [.entry "Refresh" false [], .separator,
      .entry "Outfits" false [.separator, .entry "-" true []]] ∧
    ∃ text, parse (sampleTree .null) = .error (.configLoad text) := by
  refine ⟨by decide, by decide, ((parse_follows_grammar (by decide)).2.1 _).mpr ⟨_, rfl, ?_⟩,
    (parse_follows_grammar (by decide)).2.2 ?_⟩
  · have hinner : MenuItem.Spells (.object [("disabled", .bool true), ("name", .string "-")])
        (.entry "-" true []) := .leaf rfl (.inl rfl) rfl
    exact .cons (.label (by decide)) (.cons .separator (.cons
      (.branch rfl (.inr ⟨rfl, rfl⟩) rfl (.cons .separator (.cons hinner .nil))) .nil))
  · rintro ⟨items, hitems, hall⟩
    cases hitems
    -- the inner entry is a place of an item, and its flag is null
    have hplace : MenuItem.Among (.object [("disabled", .null), ("name", .string "-")])
        [.string "Refresh", .string "-", .object
          [("children", .array [.string "-", .object [("disabled", .null), ("name", .string "-")]]),
            ("colour", .int 3), ("name", .string "Outfits")]] :=
      .child (.tail _ (.tail _ (.head _))) rfl (.here (.tail _ (.head _)))
    cases hall _ hplace with
    | node _ hflag _ =>
      obtain ⟨b, hb⟩ := hflag .null rfl
      cases hb

end OscHost.Menu
