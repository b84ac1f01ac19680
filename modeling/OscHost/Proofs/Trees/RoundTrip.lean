import Mathlib.Data.List.Basic
import OscHost.Proofs.Script.Lawful
import OscHost.Proofs.Script.Vault
import OscHost.Proofs.Trees.Forest
import OscHost.Proofs.Trees.Members
import OscHost.Proofs.Trees.Unfolding
/-!
  Trees that come back as they went.

  A tree made into a value and converted back is the same tree, as long as nothing in it is lost on
  the way: a null in an array or an object is no entry of a table, an object without members is a
  table like an array without items, and an integer beyond 64 bits is a double.  All else stays
  apart: integers and doubles, arrays and objects, even objects whose names look like numbers,
  because names are texts as keys too.

  Each step of the way there adds a table to the heap and changes no other one (`Heap.Extends`), and
  what it adds unfolds to the tree it came from (`Trees.Unfolds.newArray` and
  `Trees.Unfolds.newObject`).  The induction goes over trees side by side, as the unfolding does
  (`Trees.allMade`).
-/

namespace OscHost.Script

namespace Table

/-! ## Named values -/

/-- Giving new keys their values adds those that are not nil, in their order. -/
theorem Listed.setSlots {t : Table} (ht : t.Listed) {l : List (Key × Value)}
    (hkeys : (l.map (·.1)).Pairwise (· ≠ ·)) (hnew : ∀ e ∈ l, t.index[e.1]? = none) :
    (l.foldl (fun t e => t.setSlot e.1 e.2) t).seq = t.seq ∧
      (l.foldl (fun t e => t.setSlot e.1 e.2) t).slots.toList =
        t.slots.toList ++ l.filter fun e => !e.2.isNil := by
  induction l generalizing t with
  | nil => exact ⟨rfl, (List.append_nil _).symm⟩
  | cons e l ih =>
    obtain ⟨he, hkeys⟩ := List.pairwise_cons.mp hkeys
    have hhead : t.index[e.1]? = none := hnew e (.head _)
    rw [List.foldl_cons]
    cases hnil : e.2.isNil with
    | true =>
      rw [setSlot_nil_of_none hnil hhead, List.filter_cons_of_neg (by simp [hnil])]
      exact ih ht hkeys fun f hf => hnew f (.tail _ hf)
    | false =>
      have hset := ht.setSlot_of_none (k := e.1) hnil hhead
      -- the other keys are still new
      have hrest : ∀ f ∈ l, (t.setSlot e.1 e.2).index[f.1]? = none := by
        intro f hf
        rw [hset]
        dsimp only
        rw [Std.HashMap.getElem?_insert, if_neg]
        · exact hnew f (.tail _ hf)
        · intro h
          exact he f.1 (List.mem_map_of_mem hf) (eq_of_beq h)
      obtain ⟨hseq, hslots⟩ := ih (ht.setSlot hnil e.1) hkeys hrest
      rw [hseq, hslots, hset, Array.toList_push, List.filter_cons_of_pos (by simp [hnil]),
        List.append_assoc]
      exact ⟨rfl, rfl⟩

/-- The table of some named values. -/
def ofFields (fields : List (String × Value)) : Table :=
  fields.foldl (fun t f => t.setText f.1 f.2) {}

/-- The entries of a table of named values are those that are not nil. -/
theorem live_ofFields {fields : List (String × Value)}
    (hnames : (fields.map fun f => Key.string f.1).Pairwise (· ≠ ·)) :
    (ofFields fields).entries =
      (fields.map fun f => (Key.string f.1, f.2)).filter fun e => !e.2.isNil := by
  have hkeys : ((fields.map fun f => (Key.string f.1, f.2)).map (·.1)).Pairwise (· ≠ ·) := by
    rw [List.map_map]
    exact hnames
  obtain ⟨hseq, hslots⟩ := listed_empty.setSlots hkeys fun e _ => by simp
  rw [List.foldl_map] at hseq hslots
  have hfields : ofFields fields =
      fields.foldl (fun t f => t.setSlot (Key.string f.1) f.2) {} := rfl
  unfold entries
  rw [hfields, hseq, hslots]
  simp

theorem entries_ofFields {fields : List (String × Value)}
    (hnames : (fields.map fun f => Key.string f.1).Pairwise (· ≠ ·))
    (hv : AllSome (fields.map (·.2))) :
    (ofFields fields).entries = fields.map fun f => (Key.string f.1, f.2) := by
  rw [live_ofFields hnames]
  refine List.filter_eq_self.mpr fun e he => ?_
  obtain ⟨f, hf, rfl⟩ := List.mem_map.mp he
  simpa using hv f.2 (List.mem_map_of_mem hf)

end Table

namespace Trees

theorem lossy_ofText (s : String) : Text.Utf8.lossy (Bytes.ofText s) = s := by
  have h : String.fromUTF8? s.toUTF8 = some s := dif_pos s.isValidUTF8
  unfold Text.Utf8.lossy Bytes.ofText
  rw [h]

theorem ofText_injective {a b : String} (h : Bytes.ofText a = Bytes.ofText b) : a = b := by
  rw [← lossy_ofText a, h, lossy_ofText]

/-! ## Shapes -/

theorem positive?_place {n : Nat} (hn : 1 ≤ n) (hs : n < 0x8000000000000000) :
    positive? (.int (Int64.ofNat n)) = some n := by
  have hplace : (Int64.ofNat n).toInt = n := Table.toInt_place hs
  have hone : (1 : Int64) ≤ Int64.ofNat n := by
    rw [Int64.le_iff_toInt_le, hplace]
    exact Int.ofNat_le.mpr hn
  unfold positive?
  dsimp only
  rw [if_pos hone, hplace]
  rfl

theorem greatest_places (values : List Value) (n : Nat)
    (hs : n + values.length < 0x8000000000000000) :
    greatest ((values.zipIdx (n + 1)).map fun e => (Key.int (Int64.ofNat e.2), e.1)) n =
      some (n + values.length) := by
  induction values generalizing n with
  | nil => rfl
  | cons v values ih =>
    rw [List.length_cons] at hs ⊢
    rw [List.zipIdx_cons, List.map_cons, greatest, positive?_place (by omega) (by omega)]
    dsimp only
    rw [Nat.max_eq_right (Nat.le_succ n), ih (n + 1) (by omega)]
    exact congrArg some (by omega)

/-- A table whose entries are values in order is an array if its length agrees. -/
theorem classify_places {t : Table} {values : List Value}
    (hentries : t.entries = (values.zipIdx 1).map Table.place) (hlength : t.length = values.length)
    (hs : values.length < 0x8000000000000000) : classify t = .array values.length := by
  have hgreatest := greatest_places values 0 (by simpa using hs)
  rw [Nat.zero_add] at hgreatest
  unfold classify shapeOf
  rw [hentries, hlength]
  unfold Table.place
  rw [hgreatest]
  simp

/-- A table of values in order is an array. -/
theorem classify_seq {values : List Value} (hv : Table.AllSome values)
    (hs : values.length < 0x8000000000000000) :
    classify { seq := values.toArray } = .array values.length :=
  classify_places (Table.entries_seq hv) (by simp [Table.length]) hs

/-- The elements of the array part. -/
theorem elements_seq {t : Table} (hs : t.seq.size < 0x8000000000000000) :
    elements t t.seq.size = t.seq.toList := by
  unfold elements
  refine List.ext_getElem (by simp) fun i hi hi' => ?_
  have hsize : i < t.seq.size := by simpa using hi
  rw [List.getElem_map, List.getElem_range, Array.getElem_toList]
  exact Table.get_place (Nat.le_of_lt_succ hs) hsize

/-- A table of named values is no array, whatever the names look like. -/
theorem classify_ofFields {fields : List (String × Value)} (hne : fields ≠ [])
    (hnames : (fields.map fun f => Key.string f.1).Pairwise (· ≠ ·))
    (hv : Table.AllSome (fields.map (·.2))) : classify (Table.ofFields fields) = .map := by
  unfold classify shapeOf
  rw [Table.entries_ofFields hnames hv]
  cases fields with
  | nil => exact absurd rfl hne
  | cons f fields => rfl

theorem named_ofFields {fields : List (String × Value)}
    (hnames : (fields.map fun f => Key.string f.1).Pairwise (· ≠ ·))
    (hv : Table.AllSome (fields.map (·.2))) : named (Table.ofFields fields) = fields := by
  unfold named
  rw [Table.entries_ofFields hnames hv, List.filterMap_map]
  refine (List.filterMap_eq_map_iff_forall_eq_some.mpr fun f _ => ?_).trans (List.map_id fields)
  show some (Text.Utf8.lossy (Bytes.ofText f.1), f.2) = some f
  rw [lossy_ofText]

end Trees

/-! ## Heaps that grow -/

/-- Whether a heap has all tables of another one as they are there. -/
structure Heap.Extends (h' h : Heap) : Prop where
  size : h.tables.size ≤ h'.tables.size
  tables : ∀ id < h.tables.size, h'.table id = h.table id

namespace Heap.Extends

variable {h h₁ h₂ : Heap}

theorem refl (h : Heap) : h.Extends h := ⟨Nat.le_refl _, fun _ _ => rfl⟩

theorem trans (h₂₁ : h₂.Extends h₁) (h₁₀ : h₁.Extends h) : h₂.Extends h :=
  ⟨Nat.le_trans h₁₀.size h₂₁.size, fun id hid =>
    (h₂₁.tables id (Nat.lt_of_lt_of_le hid h₁₀.size)).trans (h₁₀.tables id hid)⟩

theorem newTable (h : Heap) (t : Table) : (h.newTable t).2.Extends h :=
  ⟨by simp [Heap.newTable], fun id hid => by
    rw [Heap.table_newTable, if_neg (Nat.ne_of_lt hid)]⟩

theorem table_added (h : Heap) (t : Table) :
    h.tables.size < (h.newTable t).2.tables.size ∧ (h.newTable t).2.table h.tables.size = t :=
  ⟨by simp [Heap.newTable], by rw [Heap.table_newTable, if_pos rfl]⟩

end Heap.Extends

namespace Trees

theorem Unfolds.extend {h h' : Heap} {vs : List Value} {js : List Json} {n d : Nat}
    (hu : Unfolds h vs js n d) (hx : h'.Extends h) : Unfolds h' vs js n d := by
  induction hu with
  | nil => exact .nil
  | leaf hv _ ih => exact .leaf hv ih
  | array hid shape _ _ ihInside ih =>
    rw [← hx.tables _ hid] at shape ihInside
    exact .array (Nat.lt_of_lt_of_le hid hx.size) shape ihInside ih
  | map hid shape _ _ ihInside ih =>
    rw [← hx.tables _ hid] at shape ihInside ⊢
    exact .map (Nat.lt_of_lt_of_le hid hx.size) shape ihInside ih

/-- A table of values in order unfolds to an array. -/
theorem Unfolds.seq {h : Heap} {id : Nat} {values vs : List Value} {items js : List Json}
    {m e n d : Nat} (hid : id < h.tables.size) (htable : h.table id = { seq := values.toArray })
    (hv : Table.AllSome values) (hs : values.length < 0x8000000000000000)
    (inside : Unfolds h values items m e) (rest : Unfolds h vs js n d) :
    Unfolds h (.table id :: vs) (.array items :: js) (m + 1 + n) (max (e + 1) d) := by
  have harray : classify (h.table id) = .array values.length := by
    rw [htable, classify_seq hv hs]
  refine .array hid harray ?_ rest
  have helements : elements { seq := values.toArray } values.length = values := elements_seq hs
  rw [htable, helements]
  exact inside

theorem Unfolds.newArray {h : Heap} {values : List Value} {items : List Json} {n d : Nat}
    (hu : Unfolds h values items n d) (hv : Table.AllSome values)
    (hs : values.length < 0x8000000000000000) :
    Unfolds (h.newTable (Table.ofList values)).2 [.table h.tables.size] [.array items] (n + 1)
      (d + 1) := by
  rw [Table.ofList_of_allSome hv]
  obtain ⟨hid, htable⟩ := Heap.Extends.table_added h { seq := values.toArray }
  exact .seq hid htable hv hs (hu.extend (.newTable h _)) .nil

/-- Different names are different keys. -/
theorem keys_distinct {fields : List (String × Value)} (hnames : (fields.map (·.1)).Nodup) :
    (fields.map fun f => Key.string f.1).Nodup := by
  rw [List.Nodup, List.pairwise_map] at hnames ⊢
  exact hnames.imp fun hne heq => hne (ofText_injective (Key.string.inj heq))

/-- A table of named values unfolds to an object. -/
theorem Unfolds.fields {h : Heap} {id : Nat} {fields : List (String × Value)} {vs : List Value}
    {trees js : List Json} {m e n d : Nat} (hid : id < h.tables.size)
    (htable : h.table id = .ofFields fields) (hne : fields ≠ [])
    (hs : (fields.map (·.1)).Pairwise (· < ·)) (hv : Table.AllSome (fields.map (·.2)))
    (inside : Unfolds h (fields.map (·.2)) trees m e) (rest : Unfolds h vs js n d) :
    Unfolds h (.table id :: vs) (.object ((fields.map (·.1)).zip trees) :: js) (m + 1 + n)
      (max (e + 1) d) := by
  have hnames := keys_distinct (hs.imp String.ne_of_lt)
  have hlast : lastMembers ((fields.map (·.1)).zip trees) = (fields.map (·.1)).zip trees := by
    refine lastMembers_of_sorted ?_
    rw [List.map_fst_zip (by simp [inside.length])]
    exact hs
  have hmap : classify (h.table id) = .map := by
    rw [htable, classify_ofFields hne hnames hv]
  have hnamed : named (h.table id) = fields := by
    rw [htable, named_ofFields hnames hv]
  rw [← hlast, ← hnamed]
  exact .map hid hmap (hnamed.symm ▸ inside) rest

theorem Unfolds.newObject {h : Heap} {fields : List (String × Value)} {trees : List Json}
    {n d : Nat} (hu : Unfolds h (fields.map (·.2)) trees n d) (hne : fields ≠ [])
    (hs : (fields.map (·.1)).Pairwise (· < ·)) (hv : Table.AllSome (fields.map (·.2))) :
    Unfolds (h.newTable (Table.ofFields fields)).2 [.table h.tables.size]
      [.object ((fields.map (·.1)).zip trees)] (n + 1) (d + 1) := by
  obtain ⟨hid, htable⟩ := Heap.Extends.table_added h (Table.ofFields fields)
  exact .fields hid htable hne hs hv (hu.extend (.newTable h _)) .nil

/-! ## The way there -/

theorem not_isNaN_of_isFinite {x : Float} (hx : x.isFinite) : x.isNaN = false := by
  unfold Float.isFinite Float.Model.isFinite at hx
  unfold Float.isNaN Float.Model.isNaN
  cases h : x.toModel.unpack with
  | notANumber =>
    rw [h] at hx
    cases hx
  | _ => rfl

/-- Whether a tree is made into a value that unfolds to it, whatever the heap. -/
def Made (room : Nat) (j : Json) : Prop :=
  ∀ h, ∃ v h', toValueFrom room j h = .ok (v, h') ∧ h'.Extends h ∧
    Unfolds h' [v] [j] j.nodes j.nesting ∧ v.isNil = j.isNull

/-- Whether trees side by side are. -/
def AllMade (room : Nat) (js : List Json) : Prop :=
  ∀ h, ∃ values h', (∀ acc, mapHeap (toValueFrom room) js acc h = .ok (acc.reverse ++ values, h')) ∧
    h'.Extends h ∧ Unfolds h' values js (Json.nodesOfItems js) (Json.nestingOfItems js) ∧
    values.map Value.isNil = js.map Json.isNull

theorem allMade_nil (room : Nat) : AllMade room [] := fun h =>
  ⟨[], h, fun acc => by rw [mapHeap, List.append_nil], .refl h, .nil, rfl⟩

theorem Made.cons {room : Nat} {j : Json} {js : List Json} (hj : Made room j)
    (hjs : AllMade room js) : AllMade room (j :: js) := by
  intro h
  obtain ⟨v, h₁, hv, hx, hu, hnil⟩ := hj h
  obtain ⟨values, h₂, hvalues, hxs, hus, hnils⟩ := hjs h₁
  refine ⟨v :: values, h₂, fun acc => ?_, hxs.trans hx, (hu.extend hxs).cons hus, ?_⟩
  · rw [mapHeap, hv]
    dsimp only
    rw [hvalues, List.reverse_cons, List.append_assoc]
    rfl
  · rw [List.map_cons, List.map_cons, hnil, hnils]

theorem allSome_of_made {values : List Value} {js : List Json}
    (hnils : values.map Value.isNil = js.map Json.isNull) (hjs : ∀ j ∈ js, j.isNull = false) :
    Table.AllSome values := by
  have hall : ∀ b ∈ values.map Value.isNil, b = false := by
    rw [hnils]
    exact List.forall_mem_map.mpr hjs
  exact List.forall_mem_map.mp hall

theorem made_leaf {j : Json} (hleaf : j.isLeaf) (hstored : j.Stored) (hkept : j.Kept)
    (room : Nat) : Made (room + 1) j := by
  -- the value by itself; no heap comes into it
  suffices h : ∃ v, (∀ h, toValueFrom (room + 1) j h = .ok (v, h)) ∧ v.isTable = false ∧
      leaf v = j ∧ j.nodes = 0 ∧ j.nesting = 0 ∧ v.isNil = j.isNull by
    obtain ⟨v, hv, htable, hj, hnodes, hnesting, hnil⟩ := h
    refine fun h => ⟨v, h, hv h, .refl h, ?_, hnil⟩
    rw [hnodes, hnesting, ← hj]
    exact .leaf htable .nil
  cases j with
  | null => exact ⟨.nil, fun _ => rfl, rfl, rfl, rfl, rfl, rfl⟩
  | bool b => exact ⟨.bool b, fun _ => rfl, rfl, rfl, rfl, rfl, rfl⟩
  | int n =>
    have hfits : Json.fitsWord n = true := hkept
    refine ⟨.int (Int64.ofInt n), fun h => ?_, rfl, ?_, rfl, rfl, rfl⟩
    · rw [toValueFrom, hfits]
      rfl
    · unfold Json.fitsWord at hfits
      simp only [Bool.and_eq_true, decide_eq_true_eq] at hfits
      exact congrArg Json.int (Int64.toInt_ofInt_of_le (by omega) (by omega))
  | float x =>
    have hfinite : x.isFinite = true := hstored
    refine ⟨.float x, fun h => ?_, rfl, if_pos hfinite, rfl, rfl, rfl⟩
    rw [toValueFrom, Value.ofFloat, not_isNaN_of_isFinite hfinite]
    rfl
  | string s =>
    exact ⟨.text s, fun _ => rfl, rfl, congrArg Json.string (lossy_ofText s), rfl, rfl, rfl⟩
  | array items => cases hleaf
  | object members => cases hleaf

theorem mapHeap_map {α β γ : Type} (f : β → Heap → Except String (γ × Heap)) (g : α → β)
    (l : List α) (acc : List γ) (h : Heap) :
    mapHeap (fun a => f (g a)) l acc h = mapHeap f (l.map g) acc h := by
  induction l generalizing acc h with
  | nil => rfl
  | cons a l ih =>
    rw [List.map_cons, mapHeap, mapHeap]
    split
    · exact ih ..
    · rfl

/-- How an array is made once its elements are. -/
theorem toValueFrom_array {room : Nat} {items : List Json} {values : List Value} {h h₁ : Heap}
    (hvalues : mapHeap (toValueFrom room) items [] h = .ok (values, h₁)) :
    toValueFrom (room + 1) (.array items) h =
      .ok (.table h₁.tables.size, (h₁.newTable (Table.ofList values)).2) := by
  rw [toValueFrom]
  dsimp only
  rw [hvalues]
  rfl

/-- How an object is made once its values are. -/
theorem toValueFrom_object {room : Nat} {members : List (String × Json)} {values : List Value}
    {h h₁ : Heap} (hvalues : mapHeap (toValueFrom room) (members.map (·.2)) [] h = .ok (values, h₁)) :
    toValueFrom (room + 1) (.object members) h = .ok (.table h₁.tables.size,
      (h₁.newTable (Table.ofFields ((members.map (·.1)).zip values))).2) := by
  rw [toValueFrom]
  dsimp only
  rw [mapHeap_map, hvalues, Table.ofFields, List.zip_map_left, List.foldl_map]
  rfl

theorem AllMade.array {room : Nat} {items : List Json} (hi : AllMade room items)
    (hstored : (Json.array items).Stored) (hkept : (Json.array items).Kept) :
    Made (room + 1) (.array items) := by
  intro h
  obtain ⟨values, h₁, hvalues, hx, hu, hnils⟩ := hi h
  refine ⟨.table h₁.tables.size, _, ?_, (Heap.Extends.newTable h₁ _).trans hx,
    hu.newArray (allSome_of_made hnils hkept) (hu.length ▸ hstored), rfl⟩
  exact toValueFrom_array (hvalues [])

theorem AllMade.object {room : Nat} {members : List (String × Json)}
    (hm : AllMade room (members.map (·.2))) (hstored : (Json.object members).Stored)
    (hkept : (Json.object members).Kept) : Made (room + 1) (.object members) := by
  intro h
  obtain ⟨values, h₁, hvalues, hx, hu, hnils⟩ := hm h
  have hlength : members.length = values.length := (List.length_map _).symm.trans hu.length
  -- the fields of the table: the names with the values
  have hnames : ((members.map (·.1)).zip values).map (·.1) = members.map (·.1) :=
    List.map_fst_zip (by simp [hlength])
  have hsecond : ((members.map (·.1)).zip values).map (·.2) = values :=
    List.map_snd_zip (by simp [hlength])
  have hobject : Unfolds (h₁.newTable (Table.ofFields ((members.map (·.1)).zip values))).2
      [.table h₁.tables.size] [.object members] (Json.object members).nodes
      (Json.object members).nesting := by
    rw [Json.nodes, Json.nesting, Json.nodesOfMembers_eq, Json.nestingOfMembers_eq]
    have hne : (members.map (·.1)).zip values ≠ [] := fun hnil =>
      hkept.1 (List.map_eq_nil_iff.mp (by rw [← hnames, hnil]; rfl))
    have hnew := Unfolds.newObject (hsecond.symm ▸ hu) hne (hnames.symm ▸ hstored)
      (hsecond.symm ▸ allSome_of_made hnils (List.forall_mem_map.mpr hkept.2))
    rwa [hnames, List.zip_map', List.map_id'] at hnew
  refine ⟨.table h₁.tables.size, _, ?_, (Heap.Extends.newTable h₁ _).trans hx, hobject, rfl⟩
  exact toValueFrom_object (hvalues [])

/-- Trees that lose nothing are made into values, as long as there is room for their nesting. -/
theorem allMade (js : List Json) : ∀ room : Nat, Json.EachItem Json.Stored js →
    Json.EachItem Json.Kept js → Json.nestingOfItems js < room → AllMade room js := by
  induction js using Json.forest_induction with
  | nil => exact fun room _ _ _ => allMade_nil room
  | leaf j js hleaf ih =>
    intro room hstored hkept hroom
    -- what holds throughout a leaf is said of the leaf alone
    have hsolo : ∀ P, j.Each P → P j := fun P hj => by
      cases j with
      | array | object => cases hleaf
      | _ => exact hj
    obtain ⟨room, rfl⟩ : ∃ r, room = r + 1 := ⟨room - 1, by omega⟩
    refine (made_leaf hleaf (hsolo _ hstored.1) (hsolo _ hkept.1) room).cons
      (ih _ hstored.2 hkept.2 ?_)
    rw [Json.nestingOfItems] at hroom
    omega
  | array items js ihItems ih =>
    intro room hstored hkept hroom
    rw [Json.nestingOfItems, Json.nesting] at hroom
    obtain ⟨room, rfl⟩ : ∃ r, room = r + 1 := ⟨room - 1, by omega⟩
    -- the items are made with one level less; the rest with the room that there was
    exact ((ihItems room hstored.1.2 hkept.1.2 (by omega)).array hstored.1.1 hkept.1.1).cons
      (ih _ hstored.2 hkept.2 (by omega))
  | object members js ihMembers ih =>
    intro room hstored hkept hroom
    rw [Json.nestingOfItems, Json.nesting, Json.nestingOfMembers_eq] at hroom
    obtain ⟨room, rfl⟩ : ∃ r, room = r + 1 := ⟨room - 1, by omega⟩
    exact ((ihMembers room ((Json.eachMember_iff _).mp hstored.1.2)
      ((Json.eachMember_iff _).mp hkept.1.2) (by omega)).object hstored.1.1 hkept.1.1).cons
      (ih _ hstored.2 hkept.2 (by omega))

theorem AllMade.made {room : Nat} {j : Json} (hj : AllMade room [j]) : Made room j := by
  intro h
  obtain ⟨values, h', hvalues, hx, hu, hnils⟩ := hj h
  have hone := hvalues []
  rw [mapHeap] at hone
  rcases hv : toValueFrom room j h with e | ⟨v, h₁⟩
  · rw [hv] at hone
    cases hone
  · rw [hv] at hone
    cases hone
    rw [Json.nodesOfItems, Json.nestingOfItems, Json.nodesOfItems, Json.nestingOfItems,
      Nat.add_zero, Nat.max_zero] at hu
    exact ⟨v, h', rfl, hx, hu, (List.cons.inj hnils).1⟩

/-- A tree that loses nothing and keeps within the limits is made into a value, on any heap, and the
    value is converted back into that tree. -/
theorem ofValue_toValue (j : Json) (h : Heap) (hstored : j.Each Json.Stored)
    (hkept : j.Each Json.Kept) (hnesting : j.nesting < maxDepth) (hnodes : j.nodes ≤ maxNodes) :
    ∃ v h', toValue j h = .ok (v, h') ∧ (ofValue h' v).value = j := by
  have hroom : Json.nestingOfItems [j] < maxDepth := by
    rwa [Json.nestingOfItems, Json.nestingOfItems, Nat.max_zero]
  have hmade : Made maxDepth j := (allMade [j] _ ⟨hstored, trivial⟩ ⟨hkept, trivial⟩ hroom).made
  obtain ⟨v, h', hv, _, hu, _⟩ := hmade h
  exact ⟨v, h', hv, ofValue_of_unfolds hu (Nat.le_sub_one_of_lt hnesting) hnodes⟩

/-- A menu's worth of each kind, under a name that looks like a number too. -/
def sampleTree : Json := .object
  [("1", .int 2), ("on", .bool false), ("path", .array [.string "Outfits", .array []]),
    ("ratio", .float 0.5)]

theorem ofValue_toValue_sample : ∃ v h', toValue sampleTree {} = .ok (v, h') ∧
    (ofValue h' v).value = sampleTree :=
  ofValue_toValue sampleTree {} (by decide) (by decide) (by decide) (by decide)

end Trees

end OscHost.Script
