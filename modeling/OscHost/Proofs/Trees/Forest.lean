import OscHost.Json.Value
/-!
  Trees side by side.

  An array holds trees side by side, and so does an object, the names of its members aside.  How
  many arrays and objects there are in a tree (`Json.nodes`), how deep they are nested
  (`Json.nesting`) and whether something holds of all trees in it (`Json.Each`) is said of both
  alike, and `Json.forest_induction` takes what is in a tree and what stands beside it in one step.

  `Json.Stored` says what trees there are at all, `Json.Kept` which of them lose nothing as values
  of scripts.
-/

namespace OscHost.Json

/-! ## Trees side by side -/

mutual

/-- How many arrays and objects there are in a tree. -/
def nodes : Json → Nat
  | .array items => nodesOfItems items + 1
  | .object members => nodesOfMembers members + 1
  | _ => 0

/-- How many there are in some trees. -/
def nodesOfItems : List Json → Nat
  | [] => 0
  | j :: js => j.nodes + nodesOfItems js

/-- How many there are in the values of some members. -/
def nodesOfMembers : List (String × Json) → Nat
  | [] => 0
  | (_, j) :: members => j.nodes + nodesOfMembers members

end

mutual

/-- How deep arrays and objects are nested in a tree; one that holds none counts once. -/
def nesting : Json → Nat
  | .array items => nestingOfItems items + 1
  | .object members => nestingOfMembers members + 1
  | _ => 0

/-- How deep they are nested in some trees. -/
def nestingOfItems : List Json → Nat
  | [] => 0
  | j :: js => max j.nesting (nestingOfItems js)

/-- How deep they are nested in the values of some members. -/
def nestingOfMembers : List (String × Json) → Nat
  | [] => 0
  | (_, j) :: members => max j.nesting (nestingOfMembers members)

end

mutual

/-- Whether something holds of a tree and all trees in it. -/
def Each (P : Json → Prop) : Json → Prop
  | .array items => P (.array items) ∧ EachItem P items
  | .object members => P (.object members) ∧ EachMember P members
  | j => P j

/-- Whether it holds of some trees and all in them. -/
def EachItem (P : Json → Prop) : List Json → Prop
  | [] => True
  | j :: js => j.Each P ∧ EachItem P js

/-- Whether it holds of the values of some members and all in them. -/
def EachMember (P : Json → Prop) : List (String × Json) → Prop
  | [] => True
  | (_, j) :: members => j.Each P ∧ EachMember P members

end

mutual

/-- Whether something that can be decided of a tree holds of all trees in it is decided. -/
instance decideEach (P : Json → Prop) [DecidablePred P] : (j : Json) → Decidable (j.Each P)
  | .array items => @instDecidableAnd _ _ _ (decideItems P items)
  | .object members => @instDecidableAnd _ _ _ (decideMembers P members)
  | .null | .bool _ | .int _ | .float _ | .string _ => inferInstanceAs (Decidable (P _))

/-- So it is of some trees. -/
def decideItems (P : Json → Prop) [DecidablePred P] : (js : List Json) → Decidable (EachItem P js)
  | [] => instDecidableTrue
  | j :: js => @instDecidableAnd _ _ (decideEach P j) (decideItems P js)

/-- So it is of the values of some members. -/
def decideMembers (P : Json → Prop) [DecidablePred P] :
    (members : List (String × Json)) → Decidable (EachMember P members)
  | [] => instDecidableTrue
  | (_, j) :: members => @instDecidableAnd _ _ (decideEach P j) (decideMembers P members)

end

theorem nodesOfMembers_eq (members : List (String × Json)) :
    nodesOfMembers members = nodesOfItems (members.map (·.2)) := by
  induction members with
  | nil => rfl
  | cons m members ih => rw [nodesOfMembers, ih]; rfl

theorem nestingOfMembers_eq (members : List (String × Json)) :
    nestingOfMembers members = nestingOfItems (members.map (·.2)) := by
  induction members with
  | nil => rfl
  | cons m members ih => rw [nestingOfMembers, ih]; rfl

theorem eachMember_iff {P : Json → Prop} (members : List (String × Json)) :
    EachMember P members ↔ EachItem P (members.map (·.2)) := by
  induction members with
  | nil => exact .rfl
  | cons m members ih => rw [EachMember, ih]; rfl

/-- Whether a tree holds no others. -/
def isLeaf : Json → Bool
  | .array _ | .object _ => false
  | _ => true

theorem nodes_of_isLeaf {j : Json} (hleaf : j.isLeaf) : j.nodes = 0 := by
  cases j with
  | array | object => cases hleaf
  | _ => rfl

theorem nesting_of_isLeaf {j : Json} (hleaf : j.isLeaf) : j.nesting = 0 := by
  cases j with
  | array | object => cases hleaf
  | _ => rfl

theorem sizeOf_values_le (members : List (String × Json)) :
    sizeOf (members.map (·.2)) ≤ sizeOf members := by
  induction members with
  | nil => exact Nat.le_refl _
  | cons m members ih =>
    obtain ⟨name, j⟩ := m
    simp only [List.map_cons, List.cons.sizeOf_spec, Prod.mk.sizeOf_spec]
    omega

/-- Induction on trees side by side. -/
theorem forest_induction {P : List Json → Prop} (nil : P [])
    (leaf : ∀ j js, j.isLeaf → P js → P (j :: js))
    (array : ∀ items js, P items → P js → P (.array items :: js))
    (object : ∀ members js, P (members.map (·.2)) → P js → P (.object members :: js)) :
    ∀ js, P js
  | [] => nil
  | .array items :: js =>
    array items js (forest_induction nil leaf array object items)
      (forest_induction nil leaf array object js)
  | .object members :: js =>
    object members js (forest_induction nil leaf array object (members.map (·.2)))
      (forest_induction nil leaf array object js)
  | .null :: js => leaf _ _ rfl (forest_induction nil leaf array object js)
  | .bool _ :: js => leaf _ _ rfl (forest_induction nil leaf array object js)
  | .int _ :: js => leaf _ _ rfl (forest_induction nil leaf array object js)
  | .float _ :: js => leaf _ _ rfl (forest_induction nil leaf array object js)
  | .string _ :: js => leaf _ _ rfl (forest_induction nil leaf array object js)
termination_by js => sizeOf js
decreasing_by
  all_goals simp only [List.cons.sizeOf_spec, Json.array.sizeOf_spec, Json.object.sizeOf_spec]
  all_goals have := sizeOf_values_le
  all_goals grind

/-- Whether a tree is null. -/
def isNull : Json → Bool
  | .null => true
  | _ => false

/-- Whether the program can hold a tree: a number is finite, an array has no more items than fit the
    memory of a machine of 64 bits, and the members of an object have different names and are sorted
    by them. -/
def Stored : Json → Prop
  | .float x => x.isFinite
  | .array items => items.length < 0x8000000000000000
  | .object members => (members.map (·.1)).Pairwise (· < ·)
  | _ => True

/-- Whether nothing about a tree is lost in a value, the trees in it aside. -/
def Kept : Json → Prop
  | .int n => fitsWord n
  | .array items => ∀ j ∈ items, j.isNull = false
  | .object members => members ≠ [] ∧ ∀ m ∈ members, m.2.isNull = false
  | _ => True

instance : DecidablePred Stored
  | .float x => inferInstanceAs (Decidable (x.isFinite = true))
  | .array items => inferInstanceAs (Decidable (items.length < 0x8000000000000000))
  | .object members => inferInstanceAs (Decidable ((members.map (·.1)).Pairwise (· < ·)))
  | .null | .bool _ | .int _ | .string _ => instDecidableTrue

instance : DecidablePred Kept
  | .int n => inferInstanceAs (Decidable (fitsWord n = true))
  | .array items => inferInstanceAs (Decidable (∀ j ∈ items, j.isNull = false))
  | .object [] => isFalse fun h => h.1 rfl
  | .object (m :: members) =>
    decidable_of_iff (∀ n ∈ m :: members, n.2.isNull = false) ⟨fun h => ⟨List.cons_ne_nil _ _, h⟩,
      And.right⟩
  | .null | .bool _ | .float _ | .string _ => instDecidableTrue

end OscHost.Json
