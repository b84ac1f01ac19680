import OscHost.Script.Grammar
import OscHost.Script.Token
/-!
  Names while a program is read: variables in scope, captured variables, labels and jumps.

  Scopes are kept for every function that is open, innermost first.  A name is looked up from the
  innermost declaration outwards; a variable of an outer function becomes an upvalue of every
  function on the way in.
-/

namespace OscHost.Script

/-- Why a text is not a program. -/
structure Complaint where
  text : Bytes
  /-- The line that the complaint is about; none when it names no place. -/
  line : Option Nat

/-- A variable in scope.  One whose value is known while reading takes no slot. -/
structure Variable where
  name : String
  slot : Nat
  attr : Attribute
  known : Option Expr := none

/-- A label in scope and the variables that are in scope at it. -/
structure Label where
  name : String
  id : Nat
  line : Nat
  active : Nat
  level : Nat

/-- A jump whose label has not been seen. -/
structure Jump where
  name : String
  id : Nat
  line : Nat
  active : Nat

/-- An open block: what was in scope when it began, and whether it is the outer block of a loop. -/
structure BlockScope where
  active : Nat
  level : Nat
  labels : List Label
  jumps : List Jump
  exit : Option Nat
  closes : Bool := false
  insideClose : Bool := false

/-- An open function. -/
structure FunctionScope where
  bindings : List Variable := []
  level : Nat := 0
  slots : Nat := 0
  captures : List (Capture × String × Attribute) := []
  blocks : List BlockScope := []
  resolved : List (Nat × Nat × Nat) := []
  isVararg : Bool := false
  closes : Bool := false
  line : Nat := 0

/-- What a name stands for. -/
inductive Named
  | known (e : Expr)
  | slot (n : Nat) (attr : Attribute)
  | upvalue (n : Nat) (attr : Attribute)

/-- The position of the first element with a property. -/
def position? {α : Type} (p : α → Bool) (xs : List α) : Option Nat := xs.findIdx? p

/-- Looks a name up in the open functions, innermost first, and captures it on the way. -/
def resolveName (name : String) : List FunctionScope → Option (Named × List FunctionScope)
  | [] => none
  | f :: outer =>
    match f.bindings.find? fun v => v.name == name with
    | some v =>
      match v.known with
      | some e => some (.known e, f :: outer)
      | none => some (.slot v.slot v.attr, f :: outer)
    | none =>
      match position? (fun c => c.2.1 == name) f.captures with
      | some i =>
        let attr := match f.captures[i]? with
          | some c => c.2.2
          | none => .regular
        some (.upvalue i attr, f :: outer)
      | none =>
        match resolveName name outer with
        | none => none
        | some (.known e, outer) => some (.known e, f :: outer)
        | some (.slot n attr, outer) =>
          some (.upvalue f.captures.length attr,
            { f with captures := f.captures ++ [(.slot n, name, attr)] } :: outer)
        | some (.upvalue n attr, outer) =>
          some (.upvalue f.captures.length attr,
            { f with captures := f.captures ++ [(.upvalue n, name, attr)] } :: outer)

/-- The labels in scope, those of inner blocks first. -/
def FunctionScope.labels (f : FunctionScope) : List Label := f.blocks.flatMap (·.labels)

end OscHost.Script
