import OscHost.Script.Code
import OscHost.Script.Table
/-!
  The heap of the script language.

  Every reference but that to a coroutine is the number of a place here.  Places are never given up:
  a script cannot tell.  Coroutines are kept by the machine that runs them.
-/

namespace OscHost.Script

/-- A function of a script: its code and the cells of the variables it captured. -/
structure Closure where
  proto : Proto
  cells : Array Nat

/-- What a function of a read-only view does. -/
inductive ViewRole
  | index
  | assign
  | pairs
  | step
  | length
  deriving DecidableEq, Repr

/-- Library functions that carry a state. -/
inductive Native
  /-- Resumes a coroutine and raises its errors. -/
  | wrapped (thread : Nat)
  /-- Yields the matches of a pattern, from a place on; `last` is the end of the match before. -/
  | matcher (source pattern : Bytes) (start : Nat) (last : Option Nat)
  /-- Reads a file by some formats. -/
  | reader (file : Value) (formats : List Value) (closes : Bool)
  /-- Refuses a capability. -/
  | denied (capability : String)
  /-- Serves the read-only view of a table, under the name it is shown by. -/
  | view (role : ViewRole) (table : Nat) (name : Bytes)

/-- Objects of the host. -/
inductive Object
  /-- An open file, by its number at the host. -/
  | file (id : Nat)
  /-- An error of a host function. -/
  | failure (message : String)

/-- Places with a meaning of their own. -/
structure Roots where
  globals : Nat := 0
  loaded : Nat := 0
  package : Nat := 0
  preload : Nat := 0
  stringMeta : Nat := 0
  fileMeta : Nat := 0
  failureMeta : Nat := 0
  input : Value := .nil
  output : Value := .nil

/-- The heap. -/
structure Heap where
  tables : Array Table := #[]
  cells : Array Value := #[]
  closures : Array Closure := #[]
  natives : Array Native := #[]
  objects : Array Object := #[]
  roots : Roots := {}
  /-- The view made for a table. -/
  views : List (Nat × Nat) := []
  /-- Metatables of types whose values have none of their own. -/
  typeMetas : List (String × Nat) := []

namespace Heap

/-- A table. -/
def table (h : Heap) (id : Nat) : Table := h.tables.getD id {}

/-- A new table. -/
def newTable (h : Heap) (t : Table) : Nat × Heap :=
  match h with
  | ⟨tables, cells, closures, natives, objects, roots, views, metas⟩ =>
    (tables.size, ⟨tables.push t, cells, closures, natives, objects, roots, views, metas⟩)

/-- Changes a table. -/
def modifyTable (h : Heap) (id : Nat) (f : Table → Table) : Heap :=
  match h with
  | ⟨tables, cells, closures, natives, objects, roots, views, metas⟩ =>
    ⟨tables.modify id f, cells, closures, natives, objects, roots, views, metas⟩

/-- Sets an entry of a table. -/
def set (h : Heap) (id : Nat) (k : Key) (v : Value) : Heap := h.modifyTable id (·.set k v)

/-- Sets the entry of a text key of a table. -/
def setText (h : Heap) (id : Nat) (k : String) (v : Value) : Heap := h.set id (.string k) v

/-- The value of a cell. -/
def cell (h : Heap) (id : Nat) : Value := h.cells.getD id .nil

/-- A new cell. -/
def newCell (h : Heap) (v : Value) : Nat × Heap :=
  match h with
  | ⟨tables, cells, closures, natives, objects, roots, views, metas⟩ =>
    (cells.size, ⟨tables, cells.push v, closures, natives, objects, roots, views, metas⟩)

/-- Sets a cell. -/
def setCell (h : Heap) (id : Nat) (v : Value) : Heap :=
  match h with
  | ⟨tables, cells, closures, natives, objects, roots, views, metas⟩ =>
    ⟨tables, cells.setIfInBounds id v, closures, natives, objects, roots, views, metas⟩

/-- A new function. -/
def newClosure (h : Heap) (c : Closure) : Nat × Heap :=
  match h with
  | ⟨tables, cells, closures, natives, objects, roots, views, metas⟩ =>
    (closures.size,
      ⟨tables, cells, closures.push c, natives, objects, roots, views, metas⟩)

/-- A new library function with a state. -/
def newNative (h : Heap) (n : Native) : Nat × Heap :=
  (h.natives.size, { h with natives := h.natives.push n })

/-- Changes the state of a library function. -/
def setNative (h : Heap) (id : Nat) (n : Native) : Heap :=
  { h with natives := h.natives.setIfInBounds id n }

/-- A new object. -/
def newObject (h : Heap) (o : Object) : Nat × Heap :=
  (h.objects.size, { h with objects := h.objects.push o })

/-- A coroutine in a heap on which no machine runs: a value like others, whose number is that of a cell
    with its function. -/
def newCoroutine (h : Heap) (body : Value) : Nat × Heap := h.newCell body

/-- The table that says how a value behaves. -/
def metatable (h : Heap) : Value → Option Nat
  | .table id => (h.table id).metatable
  | .string _ => some h.roots.stringMeta
  | .object id =>
    match h.objects[id]? with
    | some (.file _) => some h.roots.fileMeta
    | some (.failure _) => some h.roots.failureMeta
    | none => none
  | v => h.typeMetas.lookup v.typeName

/-- The behaviour of a value in an event; nil when there is none. -/
def metamethod (h : Heap) (v : Value) (event : String) : Value :=
  match h.metatable v with
  | none => .nil
  | some id => (h.table id).getText event

/-- The value of a global name, metamethods aside. -/
def global (h : Heap) (name : String) : Value := (h.table h.roots.globals).getText name

/-- The name that a value's type is shown by: the text its metatable gives, if any. -/
def typeName (h : Heap) (v : Value) : Bytes :=
  match v with
  | .table _ | .object _ =>
    match h.metamethod v "__name" with
    | .string s => s
    | _ => v.typeName
  | _ => v.typeName

/-- The word that host functions have for the type of a value. -/
def hostTypeName (h : Heap) : Value → String
  | .int _ => "integer"
  | .mark _ => "lightuserdata"
  | .object id =>
    match h.objects[id]? with
    | some (.failure _) => "error"
    | _ => "userdata"
  | v => v.typeName

end Heap

/-- The number that stands for the place of a reference when it is written out. -/
def Value.address : Value → Option Nat
  | .table id => some (0x55d0c0000000 + 64 * id)
  | .closure id => some (0x55d0d0000000 + 64 * id)
  | .builtin b => some (0x55d0a0000000 + 16 * (hash b).toNat % 0x10000000)
  | .native id => some (0x55d0e0000000 + 64 * id)
  | .thread id => some (0x55d0f0000000 + 64 * id)
  | .object id => some (0x55d0b0000000 + 64 * id)
  | .mark n => some (0x55d090000000 + n)
  | _ => none

end OscHost.Script
