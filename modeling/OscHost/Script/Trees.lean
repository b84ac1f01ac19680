import OscHost.Json.Value
import OscHost.Log
import OscHost.Number.Layout
import OscHost.Script.Heap
import OscHost.Text.Utf8
/-!
  Tables as trees and back.

  A table whose keys are exactly `1, …, n` is an array, any other one an object whose keys are
  written as text.  Three guards bound the conversion: nesting, the count of tables, and a table
  that is met again while it is being converted; each cuts to null with a warning.
-/

namespace OscHost.Script

namespace Trees

/-- Nesting limit of conversions. -/
def maxDepth : Nat := 64

/-- Tables converted at most before the rest become null. -/
def maxNodes : Nat := 100000

/-- What a table is converted to. -/
inductive Shape
  | array (size : Nat)
  | map
  deriving DecidableEq, Repr

/-- Whether a key is a positive integer. -/
def positive? : Key → Option Nat
  | .int n => if 1 ≤ n then some n.toInt.toNat else none
  | _ => none

/-- The greatest of some keys, when all of them are positive integers. -/
def greatest : (entries : List (Key × Value)) → (so : Nat) → Option Nat
  | [], so => some so
  | e :: rest, so =>
    match positive? e.1 with
    | some n => greatest rest (max so n)
    | none => none

/-- Entries are an array when their keys are positive integers, the greatest of them is their
    count, and the length of the table agrees. -/
def shapeOf (entries : List (Key × Value)) (length : Nat) : Shape :=
  match greatest entries 0 with
  | some top => if top = entries.length ∧ length = entries.length then .array entries.length else .map
  | none => .map

/-- The shape of a table. -/
def classify (t : Table) : Shape := shapeOf t.entries t.length

/-- The text of a key; nothing for keys that are references. -/
def keyText? : Key → Option String
  | .string s => some (Text.Utf8.lossy s)
  | .int n => some (toString n.toInt)
  | .float bits => some (Number.Layout.plain.float (Float.ofBits bits))
  | .bool b => some (if b then "true" else "false")
  | _ => none

/-- How far a conversion has come: tables converted, whether it was told that there are too many,
    and the warnings so far, newest first. -/
structure Walk where
  nodes : Nat := 0
  exhausted : Bool := false
  warnings : List LogRecord := []

/-- Adds a warning. -/
def Walk.warn (w : Walk) (text : String) : Walk := { w with warnings := .warn text :: w.warnings }

/-- Members without those that a later one of the same name replaces. -/
def lastMembers (members : List (String × Json)) : List (String × Json) :=
  let sorted := members.mergeSort fun a b => decide (a.1 ≤ b.1)
  let rec go : List (String × Json) → List (String × Json) → List (String × Json)
    | a :: b :: rest, acc => if a.1 == b.1 then go (b :: rest) acc else go (b :: rest) (a :: acc)
    | [a], acc => (a :: acc).reverse
    | [], acc => acc.reverse
  go sorted []

/-- The tree of a value that is no table. -/
def leaf : Value → Json
  | .bool b => .bool b
  | .int n => .int n.toInt
  | .float x => if x.isFinite then .float x else .null
  | .string s => .string (Text.Utf8.lossy s)
  | _ => .null

/-- The tree of a table; `room` more levels may be nested, and `path` is being converted. -/
def ofTable (h : Heap) : (room : Nat) → (path : List Nat) → (id : Nat) → Walk → Json × Walk
  | 0, _, _, w =>
    (.null, w.warn ("table nesting exceeds " ++ toString maxDepth ++ " levels; truncated to null"))
  | room + 1, path, id, w =>
    let w := { w with nodes := w.nodes + 1 }
    if maxNodes < w.nodes then
      if w.exhausted then (.null, w)
      else
        (.null, { w with exhausted := true }.warn ("table holds more than " ++ toString maxNodes
          ++ " subtables; rest truncated to null"))
    else if path.contains id then
      (.null, w.warn "table refers to itself; cycle truncated to null")
    else
      let child (v : Value) (w : Walk) : Json × Walk :=
        match v with
        | .table child => ofTable h room (id :: path) child w
        | v => (leaf v, w)
      let t := h.table id
      match classify t with
      | .array size =>
        let (items, w) := (List.range size).foldl
          (fun (s : List Json × Walk) i =>
            let (j, w) := child (t.getInt (Int64.ofNat (i + 1))) s.2
            (j :: s.1, w)) ([], w)
        (.array items.reverse, w)
      | .map =>
        let (members, w) := t.entries.foldl
          (fun (s : List (String × Json) × Walk) e =>
            match keyText? e.1 with
            | none =>
              (s.1, s.2.warn ("skipping table key of type " ++ h.hostTypeName e.1.toValue))
            | some name =>
              let (j, w) := child e.2 s.2
              ((name, j) :: s.1, w)) ([], w)
        (.object (lastMembers members.reverse), w)

/-- A finished walk as a result with its records. -/
def finish (r : Json × Walk) : Logged Json := ⟨r.1, r.2.warnings.reverse⟩

/-- The tree of a value: its table counts as nested once. -/
def ofValue (h : Heap) : Value → Logged Json
  | .table id => finish (ofTable h (maxDepth - 1) [] id {})
  | v => ⟨leaf v, []⟩

/-- The tree of a table that does not count as nested. -/
def ofRoot (h : Heap) (id : Nat) : Logged Json := finish (ofTable h maxDepth [] id {})

/-- The refusal of a tree that is nested too deep. -/
def tooDeep : String := "runtime error: tree nesting exceeds " ++ toString maxDepth ++ " levels"

/-- Does something to each element and the heap in turn. -/
def mapHeap {α β : Type} (f : α → Heap → Except String (β × Heap)) :
    List α → (acc : List β) → Heap → Except String (List β × Heap)
  | [], acc, h => .ok (acc.reverse, h)
  | a :: rest, acc, h =>
    match f a h with
    | .ok (b, h) => mapHeap f rest (b :: acc) h
    | .error e => .error e

/-- The value of a tree; `room` more levels may be nested. -/
def toValueFrom : (room : Nat) → Json → Heap → Except String (Value × Heap)
  | 0, _, _ => .error tooDeep
  | room + 1, j, h =>
    match j with
    | .null => .ok (.nil, h)
    | .bool b => .ok (.bool b, h)
    | .int n => .ok (if Json.fitsWord n then .int (Int64.ofInt n) else .float (Float.ofInt n), h)
    | .float x => .ok (.ofFloat x, h)
    | .string s => .ok (.string s, h)
    | .array items =>
      match mapHeap (toValueFrom room) items [] h with
      | .error e => .error e
      | .ok (values, h) =>
        let (id, h) := h.newTable (Table.ofList values)
        .ok (.table id, h)
    | .object members =>
      match mapHeap (fun m => toValueFrom room m.2) members [] h with
      | .error e => .error e
      | .ok (values, h) =>
        let t := (members.zip values).foldl (fun (t : Table) m => t.setText m.1.1 m.2) {}
        let (id, h) := h.newTable t
        .ok (.table id, h)

/-- The value of a tree. -/
def toValue (j : Json) (h : Heap) : Except String (Value × Heap) := toValueFrom maxDepth j h

end Trees

end OscHost.Script
