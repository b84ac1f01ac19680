import Mathlib.Data.List.Forall2
import OscHost.Proofs.Trees.Gaps
/-!
  The same value on different heaps.

  A tree that is made into a value on one heap and on another one yields the same value but for the
  numbers of its tables.  `SameValue` says so by a relation between the tables of both heaps: it goes
  one to one, the values are alike under it, and so are any two tables that it relates, entry by
  entry and up to how they are laid out.

  Making a value adds its tables to the heap one after another, so the relation is known beforehand:
  it shifts the numbers by the difference of the sizes at the start (`Shift`).  While it lasts both
  heaps are `InStep`, and each step keeps them so because what a table is made of depends on its
  values only in which of them are nil (`Table.Alike.ofList` and `Table.Alike.setSlot`).
-/

namespace OscHost.Script

/-! ## Alike up to tables -/

/-- Whether two values are the same, up to the tables that they refer to. -/
inductive Value.Alike (R : Nat → Nat → Prop) : Value → Value → Prop
  | table {a b : Nat} (related : R a b) : Value.Alike R (.table a) (.table b)
  | plain {v : Value} (hv : v.isTable = false) : Value.Alike R v v

/-- Whether two entries have one key and values that are alike. -/
def EntryAlike (R : Nat → Nat → Prop) (e e' : Key × Value) : Prop := e.1 = e'.1 ∧ e.2.Alike R e'.2

/-- Whether two tables without metatables are laid out alike, with values that are alike. -/
structure Table.Alike (R : Nat → Nat → Prop) (t t' : Table) : Prop where
  seq : List.Forall₂ (Value.Alike R) t.seq.toList t'.seq.toList
  slots : List.Forall₂ (EntryAlike R) t.slots.toList t'.slots.toList
  index : t.index = t'.index
  removed : t.removed = t'.removed
  plain : t.metatable = none ∧ t'.metatable = none

/-- Whether a value on a heap is the same as another one on another heap, up to the identity of
    tables. -/
def SameValue (h : Heap) (v : Value) (h' : Heap) (v' : Value) : Prop :=
  ∃ R : Nat → Nat → Prop, (∀ a b c, R a b → R a c → b = c) ∧ (∀ a b c, R a c → R b c → a = b) ∧
    v.Alike R v' ∧ ∀ a b, R a b → (h.table a).Alike R (h'.table b)

variable {R : Nat → Nat → Prop} {v v' : Value} {t t' : Table}

theorem Value.Alike.isNil_eq (hv : v.Alike R v') : v.isNil = v'.isNil := by
  cases hv <;> rfl

theorem EntryAlike.isNil_eq {e e' : Key × Value} (he : EntryAlike R e e') :
    e.2.isNil = e'.2.isNil := he.2.isNil_eq

namespace Table

/-! ## Entries side by side -/

theorem forall₂_set {α : Type} {P : α → α → Prop} {l l' : List α} (hl : List.Forall₂ P l l')
    {a a' : α} (ha : P a a') (i : Nat) : List.Forall₂ P (l.set i a) (l'.set i a') := by
  induction hl generalizing i with
  | nil => exact .nil
  | cons hb hl ih =>
    cases i with
    | zero => exact .cons ha hl
    | succ i => exact .cons hb (ih i)

theorem forall₂_getD {α : Type} {P : α → α → Prop} {l l' : List α} (hl : List.Forall₂ P l l')
    {a a' : α} (ha : P a a') (i : Nat) : P (l.getD i a) (l'.getD i a') := by
  induction hl generalizing i with
  | nil => exact ha
  | cons hb hl ih =>
    cases i with
    | zero => exact hb
    | succ i => exact ih i

namespace Alike

theorem empty : ({} : Table).Alike R {} := ⟨.nil, .nil, rfl, rfl, rfl, rfl⟩

theorem size_eq (ht : t.Alike R t') : t.slots.size = t'.slots.size := ht.slots.length_eq

/-- A place is free in one table when it is in the other. -/
theorem isNil_slot (ht : t.Alike R t') (i : Nat) (k : Key) :
    (t.slots.getD i (k, .nil)).2.isNil = (t'.slots.getD i (k, .nil)).2.isNil := by
  have hentry : EntryAlike R (t.slots.toList.getD i (k, .nil)) (t'.slots.toList.getD i (k, .nil)) :=
    forall₂_getD ht.slots ⟨rfl, .plain rfl⟩ i
  simpa [Array.getD_eq_getD_getElem?, List.getD_eq_getElem?_getD] using hentry.isNil_eq

/-- Which places are given up, and which ones the others get, depends on the keys and on what is
    nil. -/
theorem compacted (ht : t.Alike R t') : t.compacted.Alike R t'.compacted := by
  have hslots : List.Forall₂ (EntryAlike R) (t.slots.filter fun e => ¬ e.2.isNil).toList
      (t'.slots.filter fun e => ¬ e.2.isNil).toList := by
    rw [Array.toList_filter, Array.toList_filter]
    refine List.rel_filter (fun e e' he => ?_) ht.slots
    show decide (¬ e.2.isNil) = true ↔ decide (¬ e'.2.isNil) = true
    rw [he.isNil_eq]
  refine ⟨ht.seq, hslots, ?_, rfl, ht.plain⟩
  unfold Table.compacted
  dsimp only
  rw [← Array.foldl_toList, ← Array.foldl_toList]
  generalize ((∅ : Std.HashMap Key Nat), 0) = start
  generalize (t.slots.filter fun e => ¬ e.2.isNil).toList = l at hslots ⊢
  generalize (t'.slots.filter fun e => ¬ e.2.isNil).toList = l' at hslots ⊢
  induction hslots generalizing start with
  | nil => rfl
  | cons he _ ih =>
    rw [List.foldl_cons, List.foldl_cons, he.1]
    exact ih _

theorem roomy (ht : t.Alike R t') : t.roomy.Alike R t'.roomy := by
  unfold Table.roomy
  rw [← ht.size_eq, ← ht.removed]
  split
  · exact ht.compacted
  · exact ht

theorem setSlot (ht : t.Alike R t') (k : Key) (hv : v.Alike R v') :
    (t.setSlot k v).Alike R (t'.setSlot k v') := by
  have hentry : EntryAlike R (k, v) (k, v') := ⟨rfl, hv⟩
  cases hk : t.index[k]? with
  | some i =>
    have hk' : t'.index[k]? = some i := by rw [← ht.index, hk]
    have hset := forall₂_set ht.slots hentry i
    rw [← Array.toList_setIfInBounds, ← Array.toList_setIfInBounds] at hset
    cases hnil : v.isNil with
    | true =>
      -- nil is like nothing but nil
      have hvalue : v = .nil ∧ v' = .nil := by
        cases hv with
        | table => cases hnil
        | @plain v _ => cases v with
          | nil => exact ⟨rfl, rfl⟩
          | _ => cases hnil
      obtain ⟨rfl, rfl⟩ := hvalue
      rw [setSlot_nil_of_some hk, setSlot_nil_of_some hk', ht.isNil_slot]
      split
      · exact ht
      · exact ⟨ht.seq, hset, ht.index, congrArg (· + 1) ht.removed, ht.plain⟩
    | false =>
      have hnil' : v'.isNil = false := hv.isNil_eq ▸ hnil
      rw [setSlot_of_some hk hnil, setSlot_of_some hk' hnil', ht.isNil_slot]
      refine ⟨ht.seq, hset, ht.index, ?_, ht.plain⟩
      dsimp only
      rw [ht.removed]
  | none =>
    have hk' : t'.index[k]? = none := by rw [← ht.index, hk]
    cases hnil : v.isNil with
    | true =>
      rw [setSlot_nil_of_none hnil hk, setSlot_nil_of_none (hv.isNil_eq ▸ hnil) hk']
      exact ht
    | false =>
      rw [setSlot_of_none hk hnil, setSlot_of_none hk' (hv.isNil_eq ▸ hnil)]
      -- making room drops the same entries on both sides, so the new one gets the same number
      have hroomy := ht.roomy
      refine ⟨hroomy.seq, ?_, ?_, hroomy.removed, hroomy.plain⟩
      · rw [Array.toList_push, Array.toList_push]
        exact List.rel_append hroomy.slots (.cons hentry .nil)
      · dsimp only
        rw [hroomy.index, hroomy.size_eq]

theorem setSlots (ht : t.Alike R t') {l l' : List (Key × Value)}
    (hl : List.Forall₂ (EntryAlike R) l l') :
    (l.foldl (fun t e => t.setSlot e.1 e.2) t).Alike R
      (l'.foldl (fun t e => t.setSlot e.1 e.2) t') := by
  induction hl generalizing t t' with
  | nil => exact ht
  | cons he _ ih =>
    obtain ⟨hkey, hvalue⟩ := he
    rw [List.foldl_cons, List.foldl_cons, ← hkey]
    exact ih (ht.setSlot _ hvalue)

end Alike

/-! ## Tables of values -/

section Lists

variable {values values' : List Value}

/-- Where an array may be cut depends only on where its nils are. -/
theorem halve_congr {a a' : Array Value}
    (hnil : ∀ i, (a.getD i .nil).isNil = (a'.getD i .nil).isNil) (low high fuel : Nat) :
    halve a low high fuel = halve a' low high fuel := by
  induction fuel generalizing low high with
  | zero => rfl
  | succ fuel ih =>
    rw [halve, halve]
    dsimp only
    rw [hnil, ih, ih]

theorem border_congr {a a' : Array Value} (hsize : a.size = a'.size)
    (hnil : ∀ i, (a.getD i .nil).isNil = (a'.getD i .nil).isNil) : border a = border a' := by
  unfold border
  rw [hnil, hnil, hsize, halve_congr hnil]

theorem border_of_alike (hv : List.Forall₂ (Value.Alike R) values values') :
    border values.toArray = border values'.toArray := by
  refine border_congr hv.length_eq fun i => ?_
  have hvalue : (values.getD i .nil).Alike R (values'.getD i .nil) :=
    forall₂_getD hv (.plain rfl) i
  simpa [Array.getD_eq_getD_getElem?, List.getD_eq_getElem?_getD] using hvalue.isNil_eq

theorem places_alike (hv : List.Forall₂ (Value.Alike R) values values') (first : Nat) :
    List.Forall₂ (EntryAlike R) ((values.zipIdx first).map place)
      ((values'.zipIdx first).map place) := by
  induction hv generalizing first with
  | nil => exact .nil
  | cons hvalue _ ih => exact .cons ⟨rfl, hvalue⟩ (ih (first + 1))

theorem Alike.ofList (hv : List.Forall₂ (Value.Alike R) values values') :
    (ofList values).Alike R (ofList values') := by
  rw [ofList_eq, ofList_eq, ← border_of_alike hv]
  generalize border values.toArray = b
  have hstart : Alike R { seq := values.toArray.extract 0 b }
      { seq := values'.toArray.extract 0 b } := by
    refine ⟨?_, .nil, rfl, rfl, rfl, rfl⟩
    simpa using List.forall₂_take b hv
  exact hstart.setSlots (places_alike (List.forall₂_drop b hv) _)

theorem Alike.ofNamed (members : List (String × Json))
    (hv : List.Forall₂ (Value.Alike R) values values') :
    ((members.zip values).foldl (fun t m => t.setText m.1.1 m.2) ({} : Table)).Alike R
      ((members.zip values').foldl (fun t m => t.setText m.1.1 m.2) {}) := by
  have hfields : List.Forall₂ (EntryAlike R)
      ((members.zip values).map fun m => (Key.string m.1.1, m.2))
      ((members.zip values').map fun m => (Key.string m.1.1, m.2)) := by
    induction hv generalizing members with
    | nil =>
      rw [List.zip_nil_right]
      exact .nil
    | cons hvalue _ ih =>
      cases members with
      | nil => exact .nil
      | cons m members => exact .cons ⟨rfl, hvalue⟩ (ih _)
  have hset := Alike.empty.setSlots hfields
  rw [List.foldl_map, List.foldl_map] at hset
  exact hset

end Lists

end Table

/-! ## Heaps in step -/

/-- Whether a number of a table lies as far from some place as another number does from another
    place, and not before it. -/
def Shift (s s' a b : Nat) : Prop := s ≤ a ∧ a + s' = b + s

/-- Whether two heaps have grown by as many tables since they had some sizes, by tables that are
    alike. -/
structure InStep (s s' : Nat) (h h' : Heap) : Prop where
  started : s ≤ h.tables.size
  sizes : h.tables.size + s' = h'.tables.size + s
  tables : ∀ a b, Shift s s' a b → (h.table a).Alike (Shift s s') (h'.table b)

theorem InStep.start (h h' : Heap) : InStep h.tables.size h'.tables.size h h' := by
  refine ⟨Nat.le_refl _, Nat.add_comm _ _, fun a b hab => ?_⟩
  -- there is no table yet that the relation is about
  obtain ⟨ha, hb⟩ := hab
  have hnone : ∀ (g : Heap) n, g.tables.size ≤ n → g.table n = {} := by
    intro g n hn
    rw [Heap.table, Array.getD, dif_neg (by omega)]
  rw [hnone h a ha, hnone h' b (by omega)]
  exact .empty

theorem InStep.newTable {s s' : Nat} {h h' : Heap} (hs : InStep s s' h h')
    (ht : t.Alike (Shift s s') t') :
    InStep s s' (h.newTable t).2 (h'.newTable t').2 ∧
      (Value.table h.tables.size).Alike (Shift s s') (.table h'.tables.size) := by
  have hstarted := hs.started
  have hsizes := hs.sizes
  refine ⟨⟨?_, ?_, fun a b hab => ?_⟩, .table ⟨hstarted, hsizes⟩⟩
  · simp [Heap.newTable]
    omega
  · simp [Heap.newTable]
    omega
  · obtain ⟨ha, hb⟩ := hab
    rw [Heap.table_newTable, Heap.table_newTable]
    by_cases hnew : a = h.tables.size
    · rw [if_pos hnew, if_pos (by omega)]
      exact ht
    · rw [if_neg hnew, if_neg (by omega)]
      exact hs.tables a b ⟨ha, hb⟩

theorem InStep.sameValue {h h' : Heap} {s s' : Nat} (hs : InStep s s' h h')
    (hv : v.Alike (Shift s s') v') : SameValue h v h' v' := by
  refine ⟨Shift s s', fun a b c hb hc => ?_, fun a b c ha hb => ?_, hv, hs.tables⟩
  · obtain ⟨_, hb⟩ := hb
    obtain ⟨_, hc⟩ := hc
    omega
  · obtain ⟨_, ha⟩ := ha
    obtain ⟨_, hb⟩ := hb
    omega

namespace Trees

/-! ## Values of trees -/

/-- Whether two computations both fail, of the same cause, or yield results that are related. -/
def Paired {α : Type} (P : α → α → Prop) (r r' : Except String α) : Prop :=
  (∃ a a', r = .ok a ∧ r' = .ok a' ∧ P a a') ∨ ∃ e, r = .error e ∧ r' = .error e

/-- Whether values that are alike are found on heaps in step. -/
def ValueInStep (s s' : Nat) (r r' : Value × Heap) : Prop :=
  r.1.Alike (Shift s s') r'.1 ∧ InStep s s' r.2 r'.2

/-- Whether lists of them are. -/
def ValuesInStep (s s' : Nat) (r r' : List Value × Heap) : Prop :=
  List.Forall₂ (Value.Alike (Shift s s')) r.1 r'.1 ∧ InStep s s' r.2 r'.2

theorem mapHeap_inStep {s s' room : Nat}
    (hone : ∀ j h h', InStep s s' h h' →
      Paired (ValueInStep s s') (toValueFrom room j h) (toValueFrom room j h'))
    (js : List Json) {acc acc' : List Value} {h h' : Heap}
    (hacc : List.Forall₂ (Value.Alike (Shift s s')) acc acc') (hs : InStep s s' h h') :
    Paired (ValuesInStep s s') (mapHeap (toValueFrom room) js acc h)
      (mapHeap (toValueFrom room) js acc' h') := by
  induction js generalizing acc acc' h h' with
  | nil => exact .inl ⟨_, _, rfl, rfl, List.rel_reverse hacc, hs⟩
  | cons j js ih =>
    rw [mapHeap, mapHeap]
    obtain ⟨⟨v, h₁⟩, ⟨v', h₁'⟩, hr, hr', hv, hs₁⟩ | ⟨e, hr, hr'⟩ := hone j h h' hs
    · rw [hr, hr']
      exact ih (.cons hv hacc) hs₁
    · rw [hr, hr']
      exact .inr ⟨e, rfl, rfl⟩

/-- From heaps in step a tree is made into values that are alike, and the heaps stay in step; or it
    is refused on both. -/
theorem toValueFrom_inStep {s s' : Nat} (room : Nat) (j : Json) {h h' : Heap}
    (hs : InStep s s' h h') :
    Paired (ValueInStep s s') (toValueFrom room j h) (toValueFrom room j h') := by
  induction room generalizing j h h' with
  | zero => exact .inr ⟨_, rfl, rfl⟩
  | succ room ih =>
    cases j with
    | array items =>
      rw [toValueFrom, toValueFrom]
      obtain ⟨⟨values, h₁⟩, ⟨values', h₁'⟩, hr, hr', hv, hs₁⟩ | ⟨e, hr, hr'⟩ :=
        mapHeap_inStep (fun j _ _ => ih j) items .nil hs
      · rw [hr, hr']
        obtain ⟨hnew, hid⟩ := hs₁.newTable (Table.Alike.ofList hv)
        exact .inl ⟨_, _, rfl, rfl, hid, hnew⟩
      · rw [hr, hr']
        exact .inr ⟨e, rfl, rfl⟩
    | object members =>
      -- an object is made from the values of its members, as an array is from its items
      have hmembers : ∀ h, mapHeap (fun m => toValueFrom room m.2) members [] h =
          mapHeap (toValueFrom room) (members.map (·.2)) [] h := mapHeap_map _ _ members []
      rw [toValueFrom, toValueFrom, hmembers, hmembers]
      obtain ⟨⟨values, h₁⟩, ⟨values', h₁'⟩, hr, hr', hv, hs₁⟩ | ⟨e, hr, hr'⟩ :=
        mapHeap_inStep (fun j _ _ => ih j) (members.map (·.2)) .nil hs
      · rw [hr, hr']
        obtain ⟨hnew, hid⟩ := hs₁.newTable (Table.Alike.ofNamed members hv)
        exact .inl ⟨_, _, rfl, rfl, hid, hnew⟩
      · rw [hr, hr']
        exact .inr ⟨e, rfl, rfl⟩
    | null => exact .inl ⟨_, _, rfl, rfl, .plain rfl, hs⟩
    | bool b => exact .inl ⟨_, _, rfl, rfl, .plain rfl, hs⟩
    | int n => exact .inl ⟨_, _, rfl, rfl, .plain (by split <;> rfl), hs⟩
    | float x => exact .inl ⟨_, _, rfl, rfl, .plain (by unfold Value.ofFloat; split <;> rfl), hs⟩
    | string s => exact .inl ⟨_, _, rfl, rfl, .plain rfl, hs⟩

/-- So whether a tree is accepted does not depend on the heap, and its values are the same. -/
theorem toValue_same (j : Json) (h h' : Heap) :
    Paired (fun r r' : Value × Heap => SameValue r.2 r.1 r'.2 r'.1) (toValue j h)
      (toValue j h') := by
  obtain ⟨r, r', hr, hr', hv, hs⟩ | hrefused := toValueFrom_inStep maxDepth j (.start h h')
  · exact .inl ⟨r, r', hr, hr', hs.sameValue hv⟩
  · exact .inr hrefused

end Trees

end OscHost.Script
