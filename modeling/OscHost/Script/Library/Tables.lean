import OscHost.Script.Arguments
/-!
  Functions on tables as sequences.

  Lengths and entries go through metamethods; where there are none, a whole table is handled at
  once.
-/

namespace OscHost.Script.Library.Tables

open Lib

/-- Whether a value behaves in all of some events. -/
def behaves (h : Heap) (v : Value) (events : List String) : Bool :=
  (h.metatable v).isSome && events.all fun e => ! (h.metamethod v e).isNil

/-- A table, or a value that behaves like one in some events. -/
def tableLike (args : Args) (n : Nat) (events : List String) : Lib Value := do
  match args.get n with
  | .table id => pure (.table id)
  | v => if ← read (behaves · v events) then pure v else badType args n "table"

/-- The events in which a table is read, and those in which it is also written. -/
def readEvents : List String := ["__index"]

@[inherit_doc readEvents] def writeEvents : List String := ["__index", "__newindex"]

/-- The length of a value, which has to be an integer. -/
def lengthOf (v : Value) : Lib Int := do
  match (← length v).toInt? with
  | some n => pure n.toInt
  | none => raise "object length is not an integer"

/-- A table, or a value that behaves like one, with its length. -/
def sequenceArg (args : Args) (n : Nat) (events : List String) : Lib (Value × Int) := do
  let t ← tableLike args n (events ++ ["__len"])
  return (t, ← lengthOf t)

/-- The table whose entries can be used directly, if a value is one. -/
def plainTable? (h : Heap) : Value → Option Nat
  | .table id => if (h.table id).metatable.isNone then some id else none
  | _ => none

/-- The entry of an integer. -/
def item (t : Value) (i : Int) : Lib Value := index t (.int (Int64.ofInt i))

/-- Sets the entry of an integer. -/
def setItem (t : Value) (i : Int) (v : Value) : Lib Unit := setIndex t (.int (Int64.ofInt i)) v

/-- The entries from `i` on. -/
def items (t : Value) : (count : Nat) → (i : Int) → (acc : List Value) → Lib (List Value)
  | 0, _, acc => pure acc.reverse
  | count + 1, i, acc => do items t count (i + 1) ((← item t i) :: acc)

/-- The entries from `first` to `last`, at once where possible. -/
def range (t : Value) (first last : Int) : Lib (List Value) := do
  let count := (last - first + 1).toNat
  match ← read (plainTable? · t) with
  | some id => read fun h =>
    let table := h.table id
    (List.range count).map fun (k : Nat) => table.getInt (Int64.ofInt (first + k))
  | none => items t count first []

/-- Sets the entries from `i` on. -/
def setItems (t : Value) (i : Int) : List Value → Lib Unit
  | [] => pure ()
  | v :: rest => do
    setItem t i v
    setItems t (i + 1) rest

/-- Sets the entries from `first` on, at once where possible. -/
def setRange (t : Value) (first : Int) (values : List Value) : Lib Unit := do
  match ← read (plainTable? · t) with
  | some id =>
    modify (·.modifyTable id fun table =>
      (values.foldl (fun (s : Table × Int) v => (s.1.setInt (Int64.ofInt s.2) v, s.2 + 1))
        (table, first)).1)
  | none => setItems t first values

/-- The texts of entries, up to the index of the first that has none. -/
def textsAt (t : Table) : (count : Nat) → (i : Int) → (acc : List Bytes) → Except Int (List Bytes)
  | 0, _, acc => .ok acc.reverse
  | count + 1, i, acc =>
    match (t.getInt (Int64.ofInt i)).asText? with
    | some s => textsAt t count (i + 1) (s :: acc)
    | none => .error i

/-- The texts of entries, up to the index of the first that has none. -/
def textsOf (v : Value) : (count : Nat) → (i : Int) → (acc : List Bytes) →
    Lib (Except Int (List Bytes))
  | 0, _, acc => pure (.ok acc.reverse)
  | count + 1, i, acc => do
    match (← item v i).asText? with
    | some s => textsOf v count (i + 1) (s :: acc)
    | none => pure (.error i)

def tabConcat (args : Args) : Lib (List Value) := do
  let (t, size) ← sequenceArg args 1 readEvents
  let sep := (← textArg? args 2).getD ByteArray.empty
  let first := (← intArgOr args 3 1).toInt
  let last := (← intArgOr args 4 (Int64.ofInt size)).toInt
  let count := (last - first + 1).toNat
  let texts ← match ← read (plainTable? · t) with
    | some id => read fun h => textsAt (h.table id) count first []
    | none => textsOf t count first []
  match texts with
  | .ok texts => return [.string (Bytes.join (texts.intersperse sep))]
  | .error i =>
    raise ("invalid value (at index " ++ toString i ++ ") in table for 'concat'").toUTF8

def tabInsert (args : Args) : Lib (List Value) := do
  let (t, size) ← sequenceArg args 1 writeEvents
  match args.length with
  | 2 =>
    setItem t (size + 1) (args.get 2)
    return []
  | 3 =>
    let place := (← intArg args 2).toInt
    if place < 1 ∨ size + 1 < place then badArgument 2 "position out of bounds"
    else
      let moved ← range t place size
      setRange t place (args.get 3 :: moved)
      return []
  | _ => raise "wrong number of arguments to 'insert'"

def tabRemove (args : Args) : Lib (List Value) := do
  let (t, size) ← sequenceArg args 1 writeEvents
  let place := (← intArgOr args 2 (Int64.ofInt size)).toInt
  if args.has 2 ∧ ¬ (size + 1 = place ∨ (1 ≤ place ∧ place ≤ size + 1) ∨ (size = 0 ∧ place = 0)) then
    badArgument 2 "position out of bounds"
  else
    let v ← item t place
    if place < size then
      let moved ← range t (place + 1) size
      setRange t place moved
      setItem t size .nil
    else setItem t place .nil
    return [v]

def tabMove (args : Args) : Lib (List Value) := do
  let first := (← intArg args 2).toInt
  let last := (← intArg args 3).toInt
  let place := (← intArg args 4).toInt
  let source ← tableLike args 1 readEvents
  let target ← if (args.get 5).isNil then tableLike args 1 ["__newindex"]
    else tableLike args 5 ["__newindex"]
  if last < first then return [target]
  else if ¬ (0 < first ∨ last < Int64.maxValue.toInt + first) then
    badArgument 3 "too many elements to move"
  else if Int64.maxValue.toInt - (last - first) < place then
    badArgument 4 "destination wrap around"
  else
    let values ← range source first last
    setRange target place values
    return [target]

def tabPack (args : Args) : Lib (List Value) := do
  let t := (Table.ofList args).setText "n" (.int (Int64.ofNat args.length))
  return [← newTable t]

/-- Most values that a function can yield. -/
def maxResults : Int := 1000000

def tabUnpack (args : Args) : Lib (List Value) := do
  let t := args.get 1
  let first := (← intArgOr args 2 1).toInt
  let last ← match args.get 3 with
    | .nil => lengthOf t
    | _ => (·.toInt) <$> intArg args 3
  if last < first then return []
  else if maxResults ≤ last - first + 1 then raise "too many results to unpack"
  else range t first last

/-! ## Sorting -/

/-- Whether one value comes before another, by a function or by the order of values. -/
def before (order : Value) (a b : Value) : Lib Bool :=
  match order with
  | .nil => less a b
  | f => do return (firstOf (← call f [a, b])).isTrue

/-- What a sort needs: to compare two values, and to complain about an order that is none. -/
structure Sorter (m : Type → Type) where
  before : Value → Value → m Bool
  invalid : m (Array Value × Nat)

variable {m : Type → Type} [Monad m]

/-- The first place after `i` whose value does not come before the pivot. -/
def upward (s : Sorter m) (a : Array Value) (pivot : Value) (last : Nat) :
    (fuel i : Nat) → m (Option Nat)
  | 0, _ => pure none
  | fuel + 1, i => do
    if ← s.before (a.getD (i + 1) .nil) pivot then
      if i + 1 = last then pure none else upward s a pivot last fuel (i + 1)
    else pure (some (i + 1))

/-- The first place before `j` whose value the pivot does not come before. -/
def downward (s : Sorter m) (a : Array Value) (pivot : Value) (i : Nat) :
    (fuel j : Nat) → m (Option Nat)
  | 0, _ => pure none
  | fuel + 1, j => do
    if ← s.before pivot (a.getD (j - 1) .nil) then
      if j - 1 < i then pure none else downward s a pivot i fuel (j - 1)
    else pure (some (j - 1))

/-- Divides the values between two places by the pivot, which lies before the last of them. -/
def partition (s : Sorter m) (pivot : Value) (high : Nat) :
    (fuel : Nat) → Array Value → (i j : Nat) → m (Array Value × Nat)
  | 0, _, _, _ => s.invalid
  | fuel + 1, a, i, j => do
    match ← upward s a pivot (high - 1) (high + 1) i with
    | none => s.invalid
    | some i =>
      match ← downward s a pivot i (high + 1) j with
      | none => s.invalid
      | some j =>
        if j < i then pure (a.swapIfInBounds (high - 1) i, i)
        else partition s pivot high fuel (a.swapIfInBounds i j) i j

/-- Sizes beyond which the pivot is taken from the first quarter. -/
def largeRun : Nat := 100

/-- Sorts the values between two places: the median of three divides them, and the smaller part is
    sorted first. -/
def sortBetween (s : Sorter m) : (fuel : Nat) → Array Value → (low high : Nat) → m (Array Value)
  | 0, a, _, _ => pure a
  | fuel + 1, a, low, high => do
    if high ≤ low then pure a
    else
      let value (a : Array Value) (i : Nat) : Value := a.getD i .nil
      let a := if ← s.before (value a high) (value a low) then a.swapIfInBounds low high else a
      if high - low = 1 then pure a
      else
        let p := if largeRun < high - low then low + (high - low) / 4 else (low + high) / 2
        let a ← if ← s.before (value a p) (value a low) then pure (a.swapIfInBounds p low)
          else do
            if ← s.before (value a high) (value a p) then pure (a.swapIfInBounds p high)
            else pure a
        if high - low = 2 then pure a
        else
          let pivot := value a p
          let (a, p) ← partition s pivot high (high + 1) (a.swapIfInBounds p (high - 1)) low (high - 1)
          if p - low < high - p then
            let a ← sortBetween s fuel a low (p - 1)
            sortBetween s fuel a (p + 1) high
          else
            let a ← sortBetween s fuel a (p + 1) high
            sortBetween s fuel a low (p - 1)

/-- Whether values of one kind are compared without metamethods. -/
def haveOrder (values : List Value) : Bool :=
  values.all Value.isNumber || values.all fun
    | .string _ => true
    | _ => false

/-- Most values that can be sorted. -/
def maxSorted : Int := 0x7fffffff

def tabSort (args : Args) : Lib (List Value) := do
  let (t, size) ← sequenceArg args 1 writeEvents
  if size < 2 then return []
  else if maxSorted ≤ size then badArgument 1 "array too big"
  else
    let order ← match args.get 2 with
      | .nil => pure Value.nil
      | _ => functionArg args 2
    let values ← range t 1 size
    let a := values.toArray
    let sorted ← if order.isNil && haveOrder values then
        let s : Sorter Id := ⟨fun a b => (Arith.less? a b).getD false, (#[], 0)⟩
        pure (sortBetween s a.size a 0 (a.size - 1)).run
      else
        let s : Sorter Lib := ⟨before order, raise "invalid order function for sorting"⟩
        sortBetween s a.size a 0 (a.size - 1)
    setRange t 1 sorted.toList
    return []

end OscHost.Script.Library.Tables
