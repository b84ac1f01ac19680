import OscHost.Script.Trees
/-!
  How a conversion goes.

  A table is converted by a fold over what is in it, with a count of tables and a log that all
  tables share.  `Makes` says the same without folds, one constructor for each thing that can happen
  to the next value: it is no table, it is cut by one of the three guards, or it is opened and what
  is inside it is converted with one level less and one table more on the way.  The relation is
  about all values on one level, so a table and what stands beside it are one step of an induction.

  `makes_ofChild` is the only place that opens the folds.  Whatever is to be known of conversions is
  proved by induction on `Makes`.
-/

namespace OscHost.Script

/-- Whether a value is a table. -/
def Value.isTable : Value → Bool
  | .table _ => true
  | _ => false

namespace Trees

/-! ## What is in a table -/

/-- The values under `1, …, size`. -/
def elements (t : Table) (size : Nat) : List Value :=
  (List.range size).map fun i => t.getInt (Int64.ofNat (i + 1))

/-- The entries whose keys can be written as text. -/
def named (t : Table) : List (String × Value) :=
  t.entries.filterMap fun e => (keyText? e.1).map fun name => (name, e.2)

/-! ## What is told on the way -/

/-- The warning that a table is cut because it is nested too deep. -/
def depthWarning : LogRecord :=
  .warn ("table nesting exceeds " ++ toString maxDepth ++ " levels; truncated to null")

/-- The warning that all further tables are cut because there are too many. -/
def countWarning : LogRecord :=
  .warn ("table holds more than " ++ toString maxNodes ++ " subtables; rest truncated to null")

/-- The warning that a table is cut because it is being converted. -/
def cycleWarning : LogRecord := .warn "table refers to itself; cycle truncated to null"

/-- The warning that an entry is passed over because its key cannot be written as text. -/
def keyWarning (kind : String) : LogRecord := .warn ("skipping table key of type " ++ kind)

namespace Walk

/-- Adds a record to the log. -/
def tell (w : Walk) (r : LogRecord) : Walk := { w with warnings := r :: w.warnings }

/-- Counts a table. -/
def count (w : Walk) : Walk := { w with nodes := w.nodes + 1 }

/-- Counts a table beyond the limit, which is told once. -/
def overCount (w : Walk) : Walk :=
  if w.exhausted then w.count else { w.count with exhausted := true }.tell countWarning

theorem tell_nodes (w : Walk) (r : LogRecord) : (w.tell r).nodes = w.nodes := rfl

theorem count_nodes (w : Walk) : w.count.nodes = w.nodes + 1 := rfl

theorem mem_tell {w : Walk} {r r' : LogRecord} :
    r ∈ (w.tell r').warnings ↔ r = r' ∨ r ∈ w.warnings := List.mem_cons

end Walk

/-! ## Conversions as a relation -/

/-- Which trees some values are made into when `room` more levels may be nested and the tables of
    `path` are being converted, and how far the conversion has come before and after. -/
inductive Makes (h : Heap) : Nat → List Nat → Walk → List Value → List Json → Walk → Prop
  | done {room path w} : Makes h room path w [] [] w
  | leaf {room path w v vs js w'} (hv : v.isTable = false) (rest : Makes h room path w vs js w') :
      Makes h room path w (v :: vs) (leaf v :: js) w'
  | passed {room path w vs js w'} (kind : String)
      (rest : Makes h room path (w.tell (keyWarning kind)) vs js w') : Makes h room path w vs js w'
  | deep {path w id vs js w'} (rest : Makes h 0 path (w.tell depthWarning) vs js w') :
      Makes h 0 path w (.table id :: vs) (.null :: js) w'
  | many {room path w id vs js w'} (hn : maxNodes < w.nodes + 1)
      (rest : Makes h (room + 1) path w.overCount vs js w') :
      Makes h (room + 1) path w (.table id :: vs) (.null :: js) w'
  | again {room path w id vs js w'} (hn : w.nodes + 1 ≤ maxNodes) (hid : id ∈ path)
      (rest : Makes h (room + 1) path (w.count.tell cycleWarning) vs js w') :
      Makes h (room + 1) path w (.table id :: vs) (.null :: js) w'
  | array {room path w id size items w₁ vs js w'} (hn : w.nodes + 1 ≤ maxNodes) (hid : id ∉ path)
      (shape : classify (h.table id) = .array size)
      (inside : Makes h room (id :: path) w.count (elements (h.table id) size) items w₁)
      (rest : Makes h (room + 1) path w₁ vs js w') :
      Makes h (room + 1) path w (.table id :: vs) (.array items :: js) w'
  | map {room path w id trees w₁ vs js w'} (hn : w.nodes + 1 ≤ maxNodes) (hid : id ∉ path)
      (shape : classify (h.table id) = .map)
      (inside : Makes h room (id :: path) w.count ((named (h.table id)).map (·.2)) trees w₁)
      (rest : Makes h (room + 1) path w₁ vs js w') :
      Makes h (room + 1) path w (.table id :: vs)
        (.object (lastMembers (((named (h.table id)).map (·.1)).zip trees)) :: js) w'

namespace Makes

variable {h : Heap} {room : Nat} {path : List Nat} {w w₁ w' : Walk} {vs vs' : List Value}
  {js js' : List Json}

theorem length (hm : Makes h room path w vs js w') : js.length = vs.length := by
  induction hm with
  | done => rfl
  | passed _ _ ih => exact ih
  | leaf _ _ ih | deep _ ih | many _ _ ih | again _ _ _ ih => exact congrArg (· + 1) ih
  | array _ _ _ _ _ _ ih | map _ _ _ _ _ _ ih => exact congrArg (· + 1) ih

/-- Values are converted one after the other. -/
theorem append (hm : Makes h room path w vs js w₁) (hm' : Makes h room path w₁ vs' js' w') :
    Makes h room path w (vs ++ vs') (js ++ js') w' := by
  induction hm with
  | done => exact hm'
  | leaf hv _ ih => exact .leaf hv (ih hm')
  | passed kind _ ih => exact .passed kind (ih hm')
  | deep _ ih => exact .deep (ih hm')
  | many hn _ ih => exact .many hn (ih hm')
  | again hn hid _ ih => exact .again hn hid (ih hm')
  | array hn hid shape inside _ _ ih => exact .array hn hid shape inside (ih hm')
  | map hn hid shape inside _ _ ih => exact .map hn hid shape inside (ih hm')

end Makes

/-! ## The conversion is one of them -/

/-- The tree of a value that is met while some tables are being converted. -/
def ofChild (h : Heap) (room : Nat) (path : List Nat) (v : Value) (w : Walk) : Json × Walk :=
  match v with
  | .table id => ofTable h room path id w
  | v => (leaf v, w)

/-- Converts the element that a place of an array stands for. -/
def convertElement {α : Type} (child : Value → Walk → Json × Walk) (f : α → Value)
    (s : List Json × Walk) (a : α) : List Json × Walk :=
  ((child (f a) s.2).1 :: s.1, (child (f a) s.2).2)

/-- Converts an entry; one whose key cannot be written as text is told and passed over. -/
def convertEntry (h : Heap) (child : Value → Walk → Json × Walk) (s : List (String × Json) × Walk)
    (e : Key × Value) : List (String × Json) × Walk :=
  match keyText? e.1 with
  | none => (s.1, s.2.warn ("skipping table key of type " ++ h.hostTypeName e.1.toValue))
  | some name => ((name, (child e.2 s.2).1) :: s.1, (child e.2 s.2).2)

section

variable {h : Heap} {room id : Nat} {path : List Nat} {w : Walk}
  {child : Value → Walk → Json × Walk}

/-- Without room a table is cut. -/
theorem ofTable_deep : ofTable h 0 path id w = (.null, w.tell depthWarning) := rfl

/-- Beyond the count every table is cut. -/
theorem ofTable_over (hn : maxNodes < w.nodes + 1) :
    ofTable h (room + 1) path id w = (.null, w.overCount) := by
  rw [ofTable, Walk.overCount]
  dsimp only
  rw [if_pos hn]
  split <;> rfl

/-- A table that is being converted is cut. -/
theorem ofTable_again (hn : w.nodes + 1 ≤ maxNodes) (hid : id ∈ path) :
    ofTable h (room + 1) path id w = (.null, w.count.tell cycleWarning) := by
  have hcontains : path.contains id = true := by simpa using hid
  rw [ofTable]
  dsimp only
  rw [if_neg (Nat.not_lt.mpr hn), hcontains]
  rfl

/-- Any other table is opened. -/
theorem ofTable_open (hn : w.nodes + 1 ≤ maxNodes) (hid : id ∉ path) :
    ofTable h (room + 1) path id w =
      match classify (h.table id) with
      | .array size =>
        let r := (List.range size).foldl (convertElement (ofChild h room (id :: path))
          fun i => (h.table id).getInt (Int64.ofNat (i + 1))) ([], w.count)
        (.array r.1.reverse, r.2)
      | .map =>
        let r := (h.table id).entries.foldl (convertEntry h (ofChild h room (id :: path)))
          ([], w.count)
        (.object (lastMembers r.1.reverse), r.2) := by
  have hcontains : path.contains id = false := by simpa using hid
  rw [ofTable]
  dsimp only
  rw [if_neg (Nat.not_lt.mpr hn), hcontains]
  rfl

theorem makes_elements
    (hc : ∀ v w, Makes h room path w [v] [(child v w).1] (child v w).2) {α : Type} (f : α → Value)
    (l : List α) (acc : List Json) (w : Walk) :
    ∃ js, (l.foldl (convertElement child f) (acc, w)).1 = js.reverse ++ acc ∧
      Makes h room path w (l.map f) js (l.foldl (convertElement child f) (acc, w)).2 := by
  induction l generalizing acc w with
  | nil => exact ⟨[], rfl, .done⟩
  | cons a l ih =>
    obtain ⟨js, hjs, hm⟩ := ih ((child (f a) w).1 :: acc) (child (f a) w).2
    refine ⟨(child (f a) w).1 :: js, ?_, (hc (f a) w).append hm⟩
    rw [List.foldl_cons, convertElement, hjs, List.reverse_cons, List.append_assoc]
    rfl

theorem makes_entries
    (hc : ∀ v w, Makes h room path w [v] [(child v w).1] (child v w).2) (l : List (Key × Value))
    (acc : List (String × Json)) (w : Walk) :
    ∃ js, (l.foldl (convertEntry h child) (acc, w)).1 =
        (((l.filterMap fun e => (keyText? e.1).map (·, e.2)).map (·.1)).zip js).reverse ++ acc ∧
      Makes h room path w ((l.filterMap fun e => (keyText? e.1).map (·, e.2)).map (·.2)) js
        (l.foldl (convertEntry h child) (acc, w)).2 := by
  induction l generalizing acc w with
  | nil => exact ⟨[], rfl, .done⟩
  | cons e l ih =>
    rw [List.foldl_cons, convertEntry]
    -- an entry whose key has no text is passed over and leaves a warning
    rcases hkey : keyText? e.1 with _ | name
    · rw [List.filterMap_cons_none (by rw [hkey]; rfl)]
      obtain ⟨js, hjs, hm⟩ := ih acc (w.tell (keyWarning (h.hostTypeName e.1.toValue)))
      exact ⟨js, hjs, .passed _ hm⟩
    · rw [List.filterMap_cons_some (b := (name, e.2)) (by rw [hkey]; rfl)]
      obtain ⟨js, hjs, hm⟩ := ih ((name, (child e.2 w).1) :: acc) (child e.2 w).2
      refine ⟨(child e.2 w).1 :: js, ?_, (hc e.2 w).append hm⟩
      dsimp only
      rw [hjs, List.map_cons, List.zip_cons_cons, List.reverse_cons, List.append_assoc]
      rfl

end

/-- The conversion of a value goes by the relation.  The induction is on the room, as the conversion
    goes; everything else that can be said of conversions follows by induction on `Makes`. -/
theorem makes_ofChild (h : Heap) (room : Nat) (path : List Nat) (v : Value) (w : Walk) :
    Makes h room path w [v] [(ofChild h room path v w).1] (ofChild h room path v w).2 := by
  induction room generalizing path v w with
  | zero =>
    cases v with
    | table id =>
      rw [ofChild, ofTable_deep]
      exact .deep .done
    | _ => exact .leaf rfl .done
  | succ room ih =>
    cases v with
    | table id =>
      rw [ofChild]
      by_cases hn : w.nodes + 1 ≤ maxNodes
      · by_cases hid : id ∈ path
        · rw [ofTable_again hn hid]
          exact .again hn hid .done
        · rw [ofTable_open hn hid]
          -- below an open table there is less room, and the table itself is on the path
          cases hshape : classify (h.table id) with
          | array size =>
            obtain ⟨js, hjs, hm⟩ := makes_elements (ih (id :: path))
              (fun i => (h.table id).getInt (Int64.ofNat (i + 1))) (List.range size) [] w.count
            dsimp only
            rw [hjs, List.append_nil, List.reverse_reverse]
            exact .array hn hid hshape hm .done
          | map =>
            obtain ⟨js, hjs, hm⟩ := makes_entries (ih (id :: path)) (h.table id).entries [] w.count
            dsimp only
            rw [hjs, List.append_nil, List.reverse_reverse]
            exact .map hn hid hshape hm .done
      · rw [ofTable_over (Nat.lt_of_not_le hn)]
        exact .many (Nat.lt_of_not_le hn) .done
    | _ => exact .leaf rfl .done

end Trees

end OscHost.Script
