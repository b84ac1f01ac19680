import Mathlib.Data.List.Basic
import OscHost.Proofs.Script.Entries
/-!
  Tables made of values in order.

  Values in order fill the array part of a table up to a border: a place where there is a value, or
  the start, with nothing after it (`Table.EndsSome`).  What is behind the border is given its places one by one
  (`Table.ofList_eq`).  Values of which none is nil are all in the array part.
-/

namespace OscHost.Script.Table

/-! ## Where the array part ends -/

/-- Whether an array may be cut at a place without a nil at its new end. -/
def EndsSome (a : Array Value) (n : Nat) : Prop := n = 0 ∨ (a.getD (n - 1) .nil).isNil = false

theorem EndsSome.le {a : Array Value} {n : Nat} (hn : EndsSome a n) : n ≤ a.size := by
  rcases hn with rfl | hn
  · exact Nat.zero_le _
  · by_contra hlt
    have hout : a.getD (n - 1) .nil = .nil := by
      rw [Array.getD, dif_neg (by omega)]
    rw [hout] at hn
    cases hn

/-- Halving keeps to places where the array may be cut. -/
theorem endsSome_halve {a : Array Value} {low : Nat} (hlow : EndsSome a low) (high fuel : Nat) :
    EndsSome a (halve a low high fuel) := by
  induction fuel generalizing low high with
  | zero => exact hlow
  | succ fuel ih =>
    rw [halve]
    split
    · exact hlow
    · dsimp only
      split
      · exact ih hlow _
      · rename_i hsome
        have hmiddle : EndsSome a ((low + high) / 2) := .inr (by simpa using hsome)
        exact ih hmiddle _

theorem endsSome_border (a : Array Value) : EndsSome a (border a) := by
  unfold border
  split
  · split
    · exact endsSome_halve (.inl rfl) _ _
    · rename_i hsome
      exact .inr (by simpa [Nat.sub_sub] using hsome)
  · rename_i hsome
    exact .inr (by simpa using hsome)

/-- There is nothing to trim where an array may be cut. -/
theorem trimmed_of_endsSome {a : Array Value} {n : Nat} (hn : EndsSome a n) :
    trimmed (a.extract 0 n) = a.extract 0 n := by
  have hle : n ≤ a.size := hn.le
  rcases hn with rfl | hsome
  · rw [Array.extract_zero]
    unfold trimmed
    rfl
  · unfold trimmed
    split
    · rename_i hlt
      split
      · rename_i hnil
        -- the last one is the one that is known not to be nil
        have hsize : (a.extract 0 n).size = n := by simp [hle]
        rw [Array.getElem_extract] at hnil
        rw [Array.getD, dif_pos (by omega)] at hsome
        simp only [hsize, Nat.zero_add] at hnil
        rw [Array.getInternal_eq_getElem, hnil] at hsome
        cases hsome
      · rfl
    · rfl

/-! ## Tables with their values in order -/

/-- Whether no value is nil. -/
abbrev AllSome (values : List Value) : Prop := ∀ v ∈ values, v.isNil = false

theorem border_of_allSome {values : List Value} (hv : AllSome values) :
    border values.toArray = values.length := by
  unfold border
  rcases values.eq_nil_or_concat with rfl | ⟨before, last, rfl⟩
  · rfl
  · have hlast : last.isNil = false := hv last (by simp)
    simp [hlast]

/-- Without nils there is nothing but the array part. -/
theorem ofList_of_allSome {values : List Value} (hv : AllSome values) :
    ofList values = { seq := values.toArray } := by
  unfold ofList
  dsimp only
  rw [trimmed_of_endsSome (endsSome_border _), border_of_allSome hv]
  simp

/-! ## What is read from them -/

theorem toInt_place {i : Nat} (hi : i < 0x8000000000000000) : (Int64.ofNat i).toInt = i :=
  Int64.toInt_ofNat_of_lt hi

theorem entries_seq {values : List Value} (hv : AllSome values) :
    entries { seq := values.toArray } =
      (values.zipIdx 1).map fun e => (Key.int (Int64.ofNat e.2), e.1) := by
  have hsome : ∀ (n : Nat) (l : List Value), AllSome l →
      ((l.zipIdx n).filterMap fun e : Value × Nat =>
        if e.1.isNil then none else some (Key.int (Int64.ofNat e.2), e.1)) =
      (l.zipIdx n).map fun e => (Key.int (Int64.ofNat e.2), e.1) := by
    intro n l hl
    refine List.filterMap_eq_map_iff_forall_eq_some.mpr fun e he => ?_
    rw [hl e.1 (List.fst_mem_of_mem_zipIdx he)]
    rfl
  unfold entries
  rw [hsome 1 values hv]
  exact List.append_nil _

/-! ## Places -/

/-- The entry of a value at a place. -/
def place (e : Value × Nat) : Key × Value := (.int (Int64.ofNat e.2), e.1)

/-- The entries of an array part, as `entries` picks them out. -/
theorem live_places (l : List (Value × Nat)) :
    (l.filterMap fun e =>
      if e.1.isNil then none else some (Key.int (Int64.ofNat e.2), e.1)) =
      (l.map place).filter fun e => !e.2.isNil := by
  induction l with
  | nil => rfl
  | cons e l ih =>
    rw [List.map_cons]
    cases hnil : e.1.isNil with
    | true =>
      rw [List.filterMap_cons_none (by rw [hnil]; rfl), ih,
        List.filter_cons_of_neg (by simp [place, hnil])]
    | false =>
      rw [List.filterMap_cons_some (b := place e) (by rw [hnil]; rfl), ih,
        List.filter_cons_of_pos (by simp [place, hnil])]

theorem values_places (values : List Value) (first : Nat) :
    ((values.zipIdx first).map place).map (·.2) = values := by
  rw [List.map_map]
  exact List.zipIdx_map_fst first values

theorem places_distinct (values : List Value) (first : Nat)
    (hs : first + values.length ≤ 0x8000000000000000) :
    (((values.zipIdx first).map place).map (·.1)).Pairwise (· ≠ ·) := by
  have hnumbers : ((values.zipIdx first).map place).map (·.1) =
      (List.range' first values.length).map fun n => Key.int (Int64.ofNat n) := by
    rw [← List.zipIdx_map_snd first values, List.map_map, List.map_map]
    rfl
  rw [hnumbers, List.pairwise_map]
  have hnodup : (List.range' first values.length).Nodup := List.nodup_range'
  refine hnodup.imp_of_mem ?_
  intro m n hm hn hne heq
  obtain ⟨i, hi, rfl⟩ := List.mem_range'.mp hm
  obtain ⟨k, hk, rfl⟩ := List.mem_range'.mp hn
  have hplace := congrArg Int64.toInt (Key.int.inj heq)
  rw [toInt_place (by omega), toInt_place (by omega)] at hplace
  omega

/-- A table of values has an array part up to a border; what is behind it is given its places one by
    one. -/
theorem ofList_eq (values : List Value) :
    ofList values =
      (((values.drop (border values.toArray)).zipIdx (border values.toArray + 1)).map place).foldl
        (fun t e => t.setSlot e.1 e.2)
        { seq := values.toArray.extract 0 (border values.toArray) } := by
  have hends : EndsSome values.toArray (border values.toArray) := endsSome_border _
  unfold ofList
  dsimp only
  generalize border values.toArray = b at hends ⊢
  have hbehind : (values.toArray.extract b values.toArray.size).toList = values.drop b := by
    simp [List.take_of_length_le]
  rw [trimmed_of_endsSome hends, hbehind, List.zipIdx_eq_map_add (i := b + 1), List.map_map,
    List.foldl_map]
  rfl

end OscHost.Script.Table
