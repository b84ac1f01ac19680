import OscHost.Script.Value
import Std.Data.HashMap
/-!
  Tables.

  The values of the keys `1, 2, …` up to some size are kept in an array that never ends in nil; all
  other entries are kept in the order in which they came, with an index from key to place.  A
  removed entry keeps its place, holding nil, until enough of them have gathered and a new key
  comes: so a traversal may remove entries as it goes.
-/

namespace OscHost.Script

/-- A table: its array part, its other entries with their index, how many of those hold nil, and
    its metatable. -/
structure Table where
  seq : Array Value := #[]
  slots : Array (Key × Value) := #[]
  index : Std.HashMap Key Nat := {}
  removed : Nat := 0
  metatable : Option Nat := none
  deriving Inhabited

namespace Table

/-- The place of an integer key in the array part. -/
def seqIndex? (t : Table) (n : Int64) : Option Nat :=
  if 1 ≤ n && n.toInt ≤ t.seq.size then some (n.toInt.toNat - 1) else none

/-- The value of an integer key. -/
def getInt (t : Table) (n : Int64) : Value :=
  match t.seqIndex? n with
  | some i => t.seq.getD i .nil
  | none =>
    match t.index[Key.int n]? with
    | some i => (t.slots.getD i (.int 0, .nil)).2
    | none => .nil

/-- The value of a key; nil when absent. -/
def get (t : Table) (k : Key) : Value :=
  match k with
  | .int n => t.getInt n
  | k =>
    match t.index[k]? with
    | some i => (t.slots.getD i (.int 0, .nil)).2
    | none => .nil

/-- The value of a text key. -/
def getText (t : Table) (s : String) : Value := t.get (.string s)

/-- The array without nils at its end. -/
def trimmed (a : Array Value) : Array Value :=
  if h : a.size - 1 < a.size then
    match a[a.size - 1] with
    | .nil => trimmed a.pop
    | _ => a
  else a
termination_by a.size
decreasing_by exact Array.size_pop ▸ h

/-- Gives up the places of removed entries. -/
def compacted (t : Table) : Table :=
  let slots := t.slots.filter fun e => ¬ e.2.isNil
  let index := slots.foldl (fun (m : Std.HashMap Key Nat × Nat) e => (m.1.insert e.1 m.2, m.2 + 1))
    ({}, 0)
  { t with slots, index := index.1, removed := 0 }

/-- Sets an entry outside the array part. -/
def setSlot (t : Table) (k : Key) (v : Value) : Table :=
  match t.index[k]? with
  | some i =>
    match t, v with
    | ⟨seq, slots, index, removed, metatable⟩, .nil =>
      if (slots.getD i (k, .nil)).2.isNil then ⟨seq, slots, index, removed, metatable⟩
      else ⟨seq, slots.setIfInBounds i (k, .nil), index, removed + 1, metatable⟩
    | ⟨seq, slots, index, removed, metatable⟩, v =>
      if (slots.getD i (k, .nil)).2.isNil then
        ⟨seq, slots.setIfInBounds i (k, v), index, removed - 1, metatable⟩
      else ⟨seq, slots.setIfInBounds i (k, v), index, removed, metatable⟩
  | none =>
    match v with
    | .nil => t
    | v =>
      let t := if t.slots.size < 2 * t.removed then t.compacted else t
      match t with
      | ⟨seq, slots, index, removed, metatable⟩ =>
        ⟨seq, slots.push (k, v), index.insert k slots.size, removed, metatable⟩

/-- The greatest key that is an integer. -/
def lastPlace : Nat := 0x7fffffffffffffff

/-- Moves entries that continue the array part into it. -/
def absorb (t : Table) : (fuel : Nat) → Table
  | 0 => t
  | fuel + 1 =>
    let k := Key.int (Int64.ofNat (t.seq.size + 1))
    if lastPlace ≤ t.seq.size then t
    else match t.index[k]? with
    | none => t
    | some i =>
      match t.slots[i]? with
      | some (_, .nil) | none => t
      | some (_, v) =>
        match t with
        | ⟨seq, slots, index, removed, metatable⟩ =>
          absorb ⟨seq.push v, slots.setIfInBounds i (k, .nil), index, removed + 1, metatable⟩ fuel

/-- Sets the entry of an integer key. -/
def setInt (t : Table) (n : Int64) (v : Value) : Table :=
  match t.seqIndex? n with
  | some i =>
    match t with
    | ⟨seq, slots, index, removed, metatable⟩ =>
      if i + 1 = seq.size && v.isNil then
        let seq := trimmed seq.pop
        -- the key keeps a place so that a traversal can go on from it
        let t : Table := ⟨seq, slots, index, removed, metatable⟩
        t
      else ⟨seq.setIfInBounds i v, slots, index, removed, metatable⟩
  | none =>
    if n.toInt = t.seq.size + 1 && ¬ v.isNil then
      if t.slots.isEmpty then
        match t with
        | ⟨seq, slots, index, removed, metatable⟩ => ⟨seq.push v, slots, index, removed, metatable⟩
      else
        match t.setSlot (.int n) .nil with
        | ⟨seq, slots, index, removed, metatable⟩ =>
          let t : Table := ⟨seq.push v, slots, index, removed, metatable⟩
          if t.slots.size = t.removed then t else t.absorb t.slots.size
    else t.setSlot (.int n) v

/-- Sets an entry; nil removes it. -/
def set (t : Table) (k : Key) (v : Value) : Table :=
  match k with
  | .int n => t.setInt n v
  | k => t.setSlot k v

/-- Sets the entry of a text key. -/
def setText (t : Table) (s : String) (v : Value) : Table := t.set (.string s) v

/-- A border: an index whose value is not nil with nil after it, or zero. -/
def length (t : Table) : Nat := t.seq.size

/-- The entries from a place of the array part on. -/
def seqFrom (t : Table) (i : Nat) : Option (Key × Value) :=
  if h : i < t.seq.size then
    match t.seq[i] with
    | .nil => seqFrom t (i + 1)
    | v => some (.int (Int64.ofNat (i + 1)), v)
  else none
termination_by t.seq.size - i

/-- The first live entry from a place outside the array part on. -/
def slotFrom (t : Table) (i : Nat) : Option (Key × Value) :=
  if h : i < t.slots.size then
    match t.slots[i] with
    | (_, .nil) => slotFrom t (i + 1)
    | e => some e
  else none
termination_by t.slots.size - i

/-- The entry after a key in the order of traversal, or the first one.  Fails when the key never was
    in the table. -/
def next (t : Table) (k : Option Key) : Option (Option (Key × Value)) :=
  let fromSeq (i : Nat) : Option (Key × Value) := t.seqFrom i <|> t.slotFrom 0
  match k with
  | none => some (fromSeq 0)
  | some (.int n) =>
    match t.seqIndex? n with
    | some i => some (fromSeq (i + 1))
    | none =>
      match t.index[Key.int n]? with
      | some i => some (t.slotFrom (i + 1))
      | none => if 1 ≤ n then some (t.slotFrom 0) else none
  | some k =>
    match t.index[k]? with
    | some i => some (t.slotFrom (i + 1))
    | none => none

/-- All entries in the order of traversal. -/
def entries (t : Table) : List (Key × Value) :=
  let seq := (t.seq.toList.zipIdx 1).filterMap fun e =>
    if e.1.isNil then none else some (Key.int (Int64.ofNat e.2), e.1)
  seq ++ t.slots.toList.filter fun e => ¬ e.2.isNil

/-- Halves an interval whose lower end counts as present and whose upper end is absent. -/
def halve (a : Array Value) (low high : Nat) : (fuel : Nat) → Nat
  | 0 => low
  | fuel + 1 =>
    if high ≤ low + 1 then low
    else
      let middle := (low + high) / 2
      if (a.getD (middle - 1) .nil).isNil then halve a low middle fuel else halve a middle high fuel

/-- The border of a full array: its size when it does not end in nil, else one found by halving. -/
def border (a : Array Value) : Nat :=
  if (a.getD (a.size - 1) .nil).isNil then
    if (a.getD (a.size - 2) .nil).isNil then halve a 0 a.size 64 else a.size - 1
  else a.size

/-- The table of some values under `1, 2, …`.  Nils in between leave gaps. -/
def ofList (values : List Value) : Table :=
  let a := values.toArray
  let b := border a
  let start : Table := { seq := trimmed (a.extract 0 b) }
  (a.extract b a.size).toList.zipIdx.foldl
    (fun t e => t.setSlot (.int (Int64.ofNat (b + 1 + e.2))) e.1) start

/-- Removes the entries of the keys `1, …, n` that are outside the array part. -/
def vacated (t : Table) (n : Nat) : Table :=
  (List.range n).foldl (fun t i => t.setSlot (.int (Int64.ofNat (i + 1))) .nil) t

/-- Sets the values of the keys from `first` on. -/
def setRun (t : Table) (first : Nat) (values : List Value) : Table :=
  if first = 1 ∧ t.seq.isEmpty then
    match t.vacated values.length, ofList values with
    | ⟨_, slots, index, removed, metatable⟩, rest =>
      let t : Table := ⟨rest.seq, slots, index, removed, metatable⟩
      let t := rest.slots.foldl (fun t e => t.setSlot e.1 e.2) t
      if t.slots.size = t.removed then t else t.absorb t.slots.size
  else
    (values.foldl (fun (s : Table × Nat) v => (s.1.setInt (Int64.ofNat s.2) v, s.2 + 1)) (t, first)).1

end Table

end OscHost.Script
