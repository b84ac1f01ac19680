import OscHost.Proofs.Script.Library.Base
import OscHost.Script.Library.Tables
/-!
  Functions on tables as sequences are safe.

  A sort compares values that are in its array and swaps them, whatever the order says; so the
  rules for it speak of any property that the values share.
-/

namespace OscHost.Script.Library.Tables

open Lib

variable {V : Ward} {a : Actor} {args : Args}

theorem safe_tableLike (ha : CleanAll V args) (n : Nat) (events : List String) :
    (tableLike args n events).Safe V a (Value.Clean V) := by
  have hn := clean_get ha n
  unfold tableLike
  split
  · rename_i id he
    rw [he] at hn
    exact .pure hn
  · refine .then (safe_read fun _ _ => trivial) fun r => ?_
    exact .ite (fun _ => .pure hn) fun _ => safe_badType ..

theorem safe_lengthOf {v : Value} (hv : v.Clean V) : (lengthOf v).Safe V a fun _ => True := by
  refine (safe_length hv).bind fun n _ => ?_
  split
  · exact .pure trivial
  · exact safe_raise _

theorem safe_sequenceArg (ha : CleanAll V args) (n : Nat) (events : List String) :
    (sequenceArg args n events).Safe V a fun r => r.1.Clean V :=
  (safe_tableLike ha n _).bind fun _ ht => (safe_lengthOf ht).then fun _ => .pure ht

/-- A table that can be used directly is the value itself. -/
theorem eq_of_plainTable {h : Heap} {v : Value} {id : Nat} (hp : plainTable? h v = some id) :
    v = .table id := by
  unfold plainTable? at hp
  split at hp
  · split at hp
    · cases hp
      rfl
    · cases hp
  · cases hp

variable {t v : Value}

theorem safe_plainTable (ht : t.Clean V) :
    (read (plainTable? · t)).Safe V a fun r => ∀ id ∈ r, (Value.table id).Clean V :=
  safe_read fun _ _ _ hid => eq_of_plainTable hid ▸ ht

theorem safe_item (ht : t.Clean V) (i : Int) : (item t i).Safe V a (Value.Clean V) :=
  safe_index ht (Value.clean_int _)

theorem safe_setItem (ht : t.Clean V) (i : Int) (hv : v.Clean V) :
    (setItem t i v).Safe V a fun _ => True :=
  safe_setIndex ht (Value.clean_int _) hv

theorem safe_items (ht : t.Clean V) (count : Nat) (i : Int) {acc : List Value}
    (hacc : CleanAll V acc) : (items t count i acc).Safe V a (CleanAll V) := by
  induction count generalizing i acc with
  | zero => exact .pure (cleanAll_reverse.mpr hacc)
  | succ count ih => exact (safe_item ht i).bind fun v hv => ih _ (cleanAll_cons.mpr ⟨hv, hacc⟩)

theorem safe_range (ht : t.Clean V) (first last : Int) :
    (range t first last).Safe V a (CleanAll V) := by
  refine (safe_plainTable ht).bind fun r hr => ?_
  split
  · refine safe_read fun h hg v hv => ?_
    obtain ⟨k, _, rfl⟩ := List.mem_map.mp hv
    exact hg.getInt (hr _ rfl) _
  · exact safe_items ht _ _ cleanAll_nil

theorem safe_setItems (ht : t.Clean V) (i : Int) {vs : List Value} (hv : CleanAll V vs) :
    (setItems t i vs).Safe V a fun _ => True := by
  induction vs generalizing i with
  | nil => exact .pure trivial
  | cons v vs ih =>
    obtain ⟨h, hs⟩ := cleanAll_cons.mp hv
    exact (safe_setItem ht i h).then fun _ => ih _ hs

/-- Setting entries in a row keeps what holds of all entries, and the metatable. -/
theorem setInts_keep {K P : Value → Prop} {table : Table} (h : table.Each K P) (hnil : P .nil)
    (hint : ∀ n, K (.int n)) {vs : List Value} (hv : ∀ v ∈ vs, P v) (first : Int) :
    let r := (vs.foldl (fun (s : Table × Int) v => (s.1.setInt (Int64.ofInt s.2) v, s.2 + 1))
      (table, first)).1
    r.Each K P ∧ r.metatable = table.metatable :=
  List.foldlRecOn (motive := fun s : Table × Int =>
      s.1.Each K P ∧ s.1.metatable = table.metatable) _ _ ⟨h, rfl⟩
    fun _ hs v hm => ⟨hs.1.setInt hnil hint _ (hv v hm), (Table.metatable_setInt ..).trans hs.2⟩

theorem safe_setRange (ht : t.Clean V) (first : Int) {vs : List Value} (hv : CleanAll V vs) :
    (setRange t first vs).Safe V a fun _ => True := by
  refine (safe_plainTable ht).bind fun r hr => ?_
  split
  · rename_i id
    refine safe_modify fun h hg => ?_
    obtain ⟨he, hm⟩ := setInts_keep (hg.tables id) (Value.fits_nil id) (fun _ => trivial)
      (fun v h => (hv v h).fits id) first
    exact hg.modifyTable (hr id rfl) he fun m h => hg.metatables id m (hm ▸ h)
  · exact safe_setItems ht _ hv

theorem safe_textsOf (ht : t.Clean V) (count : Nat) (i : Int) (acc : List Bytes) :
    (textsOf t count i acc).Safe V a fun _ => True := by
  induction count generalizing i acc with
  | zero => exact .pure trivial
  | succ count ih =>
    refine (safe_item ht i).bind fun v _ => ?_
    split
    · exact ih ..
    · exact .pure trivial

theorem safe_tabConcat (ha : CleanAll V args) : (tabConcat args).Safe V a (CleanAll V) := by
  refine (safe_sequenceArg ha 1 _).bind fun (t, size) ht => ?_
  refine (safe_textArg? args 2).then fun sep => (safe_intArgOr args 3 1).then fun first => ?_
  refine (safe_intArgOr args 4 _).then fun last => ?_
  extract_lets last count next
  have hn : ∀ texts, (next texts).Safe V a (CleanAll V) := by
    intro texts
    cases texts with
    | ok texts => exact .pure (by simp)
    | error i => exact safe_raise _
  clear_value next
  refine (safe_plainTable ht).bind fun r _ => ?_
  split
  · exact .then (safe_read fun _ _ => trivial) hn
  · exact (safe_textsOf ht ..).then hn

theorem safe_tabInsert (ha : CleanAll V args) : (tabInsert args).Safe V a (CleanAll V) := by
  refine (safe_sequenceArg ha 1 _).bind fun (t, size) ht => ?_
  dsimp only
  split
  · exact (safe_setItem ht _ (clean_get ha 2)).then fun _ => .pure cleanAll_nil
  · refine (safe_intArg args 2).then fun place => .ite (fun _ => safe_badArgument ..) fun _ => ?_
    refine (safe_range ht _ _).bind fun moved hm => ?_
    exact (safe_setRange ht _ (cleanAll_cons.mpr ⟨clean_get ha 3, hm⟩)).then fun _ =>
      .pure cleanAll_nil
  · exact safe_raise _

theorem safe_tabRemove (ha : CleanAll V args) : (tabRemove args).Safe V a (CleanAll V) := by
  refine (safe_sequenceArg ha 1 _).bind fun (t, size) ht => ?_
  refine (safe_intArgOr args 2 _).then fun place => .ite (fun _ => safe_badArgument ..) fun _ => ?_
  refine (safe_item ht _).bind fun v hv => ?_
  extract_lets next
  have hn : ∀ r, (next r).Safe V a (CleanAll V) := fun r => .pure (by simp [hv])
  refine .ite (fun _ => ?_) fun _ => ?_
  · refine (safe_range ht _ _).bind fun moved hm => (safe_setRange ht _ hm).then fun _ => ?_
    exact (safe_setItem ht _ Value.clean_nil).then hn
  · exact (safe_setItem ht _ Value.clean_nil).then hn

theorem safe_tabMove (ha : CleanAll V args) : (tabMove args).Safe V a (CleanAll V) := by
  refine (safe_intArg args 2).then fun first => (safe_intArg args 3).then fun last => ?_
  refine (safe_intArg args 4).then fun place => (safe_tableLike ha 1 _).bind fun source hs => ?_
  extract_lets next
  have hn : ∀ target, target.Clean V → (next target).Safe V a (CleanAll V) := by
    intro target ht
    refine .ite (fun _ => .pure (by simp [ht])) fun _ => .ite (fun _ => safe_badArgument ..) fun _ =>
      .ite (fun _ => safe_badArgument ..) fun _ => ?_
    refine (safe_range hs _ _).bind fun values hv => (safe_setRange ht _ hv).then fun _ => ?_
    exact .pure (by simp [ht])
  exact .ite (fun _ => (safe_tableLike ha 1 _).bind hn) fun _ => (safe_tableLike ha 5 _).bind hn

theorem safe_tabPack (ha : CleanAll V args) : (tabPack args).Safe V a (CleanAll V) := by
  refine (safe_newTable ?_ ?_).bind fun t ht => .pure (by simp [ht])
  · exact (Table.each_ofList (fun _ => trivial) ha).set trivial (fun _ => trivial) trivial trivial
  · exact (Table.metatable_set ..).trans (Table.metatable_ofList _)

theorem safe_tabUnpack (ha : CleanAll V args) : (tabUnpack args).Safe V a (CleanAll V) := by
  have ht := clean_get ha 1
  refine (safe_intArgOr args 2 1).then fun first => ?_
  extract_lets first next
  have hn : ∀ last, (next last).Safe V a (CleanAll V) := fun last =>
    .ite (fun _ => .pure cleanAll_nil) fun _ => .ite (fun _ => safe_raise _) fun _ =>
      safe_range ht _ _
  clear_value next
  split
  · exact (safe_lengthOf ht).then hn
  · exact ((safe_intArg args 3).map fun _ _ => trivial).then hn

/-! ## Sorting -/

theorem safe_before {order : Value} (ho : order.Clean V) (ht : t.Clean V) (hv : v.Clean V) :
    (before order t v).Safe V a fun _ => True := by
  unfold before
  split
  · exact safe_less ht hv
  · exact (safe_call ho (by simp [ht, hv])).bind fun _ _ => .pure trivial

/-- What holds of the results of computations in some monad. -/
structure Logic (m : Type → Type) [Monad m] where
  Holds : {α : Type} → (α → Prop) → m α → Prop
  pure : ∀ {α : Type} {P : α → Prop} {r : α}, P r → Holds P (Pure.pure r)
  bind : ∀ {α β : Type} {P : α → Prop} {Q : β → Prop} {x : m α} {f : α → m β}, Holds P x →
    (∀ r, P r → Holds Q (f r)) → Holds Q (x >>= f)

/-- The logic of library computations. -/
def safeLogic (V : Ward) (a : Actor) : Logic Lib where
  Holds P x := x.Safe V a P
  pure := .pure
  bind := .bind

/-- The logic of plain results. -/
def plainLogic : Logic Id where
  Holds P x := P x
  pure h := h
  bind hx hf := hf _ hx

/-- Whether all values of an array have a property. -/
def Every (P : Value → Prop) (xs : Array Value) : Prop := ∀ v ∈ xs, P v

theorem Every.swap {P : Value → Prop} {xs : Array Value} (h : Every P xs) (i j : Nat) :
    Every P (xs.swapIfInBounds i j) := by
  unfold Array.swapIfInBounds
  split
  · split
    · exact fun v hv => h v ((Array.swap_perm ..).mem_iff.mp hv)
    · exact h
  · exact h

section

variable {m : Type → Type} [Monad m] (L : Logic m) {P : Value → Prop} {s : Sorter m}
  (hb : ∀ x y, P x → P y → L.Holds (fun _ => True) (s.before x y))
  (hi : L.Holds (fun r => Every P r.1) s.invalid) (hnil : P .nil)
include hb hnil

theorem holds_upward {xs : Array Value} (hx : Every P xs) {pivot : Value} (hp : P pivot)
    (last fuel i : Nat) : L.Holds (fun _ => True) (upward s xs pivot last fuel i) := by
  induction fuel generalizing i with
  | zero => exact L.pure trivial
  | succ fuel ih =>
    refine L.bind (hb _ _ (Table.getD_of_mem hx hnil _) hp) fun r _ => ?_
    split
    · split
      · exact L.pure trivial
      · exact ih _
    · exact L.pure trivial

theorem holds_downward {xs : Array Value} (hx : Every P xs) {pivot : Value} (hp : P pivot)
    (i fuel j : Nat) : L.Holds (fun _ => True) (downward s xs pivot i fuel j) := by
  induction fuel generalizing j with
  | zero => exact L.pure trivial
  | succ fuel ih =>
    refine L.bind (hb _ _ hp (Table.getD_of_mem hx hnil _)) fun r _ => ?_
    split
    · split
      · exact L.pure trivial
      · exact ih _
    · exact L.pure trivial

include hi

theorem holds_partition {pivot : Value} (hp : P pivot) (high fuel : Nat) {xs : Array Value}
    (hx : Every P xs) (i j : Nat) :
    L.Holds (fun r => Every P r.1) (partition s pivot high fuel xs i j) := by
  induction fuel generalizing xs i j with
  | zero => exact hi
  | succ fuel ih =>
    refine L.bind (holds_upward L hb hnil hx hp ..) fun r _ => ?_
    split
    · exact hi
    · refine L.bind (holds_downward L hb hnil hx hp ..) fun r _ => ?_
      split
      · exact hi
      · split
        · exact L.pure (hx.swap _ _)
        · exact ih (hx.swap _ _) _ _

theorem holds_sortBetween (fuel : Nat) {xs : Array Value} (hx : Every P xs) (low high : Nat) :
    L.Holds (Every P) (sortBetween s fuel xs low high) := by
  induction fuel generalizing xs low high with
  | zero => exact L.pure hx
  | succ fuel ih =>
    unfold sortBetween
    split
    · exact L.pure hx
    · extract_lets value p next
      have hv : ∀ {ys : Array Value}, Every P ys → ∀ i, P (value ys i) := fun hy i =>
        Table.getD_of_mem hy hnil i
      refine L.bind (hb _ _ (hv hx _) (hv hx _)) fun r _ => ?_
      extract_lets ys
      have hy : Every P ys := by
        show Every P (if r then _ else _)
        split
        · exact hx.swap _ _
        · exact hx
      clear_value ys
      split
      · exact L.pure hy
      · refine L.bind (hb _ _ (hv hy _) (hv hy _)) fun r _ => ?_
        have hn : ∀ zs, Every P zs → L.Holds (Every P) (next zs) := by
          intro zs hz
          show L.Holds (Every P) (if high - low = 2 then _ else _)
          split
          · exact L.pure hz
          · refine L.bind (holds_partition L hb hi hnil (hv hz _) _ _ (hz.swap _ _) _ _)
              fun (us, p) hu => ?_
            dsimp only
            split
            · exact L.bind (ih hu _ _) fun _ h => ih h _ _
            · exact L.bind (ih hu _ _) fun _ h => ih h _ _
        clear_value next
        split
        · exact L.bind (L.pure (hy.swap _ _)) hn
        · refine L.bind (hb _ _ (hv hy _) (hv hy _)) fun r _ => ?_
          split
          · exact L.bind (L.pure (hy.swap _ _)) hn
          · exact L.bind (L.pure hy) hn

end

theorem safe_tabSort (ha : CleanAll V args) : (tabSort args).Safe V a (CleanAll V) := by
  refine (safe_sequenceArg ha 1 _).bind fun (t, size) ht => ?_
  refine .ite (fun _ => .pure cleanAll_nil) fun _ => .ite (fun _ => safe_badArgument ..) fun _ => ?_
  extract_lets finish plain next
  have hn : ∀ order : Value, order.Clean V → (next order).Safe V a (CleanAll V) := by
    intro order ho
    refine (safe_range ht _ _).bind fun values hv => ?_
    extract_lets xs
    have hx : Every (Value.Clean V) xs := fun v h => hv v (List.mem_toArray.mp h)
    have hf : ∀ sorted, Every (Value.Clean V) sorted → (finish sorted).Safe V a (CleanAll V) :=
      fun sorted hs => (safe_setRange ht 1 fun v h => hs v (Array.mem_toList_iff.mp h)).then
        fun _ => .pure cleanAll_nil
    refine .ite (fun _ => ?_) fun _ => ?_
    · exact .bind (.pure (holds_sortBetween plainLogic (fun _ _ _ _ => trivial)
        (fun _ h => absurd h (Array.not_mem_empty _)) Value.clean_nil _ hx _ _)) hf
    · refine .bind (holds_sortBetween (safeLogic V a) (fun _ _ => safe_before ho) ?_
        Value.clean_nil _ hx _ _) hf
      exact safe_raise _
  clear_value next
  split
  · exact .bind (.pure trivial) hn
  · exact (safe_functionArg ha 2).bind hn

end OscHost.Script.Library.Tables
