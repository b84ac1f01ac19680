import OscHost.Script.Bytes
/-!
  Parsed programs.

  Names are already resolved: a variable is a slot of its function's frame, an upvalue, or a member
  of the environment table.  Every construct that can fail at run time carries its line.
-/

namespace OscHost.Script

/-- Operators with one operand. -/
inductive Unary
  | minus
  | not
  | length
  | complement
  deriving DecidableEq, Repr

/-- Operators with two operands, both always evaluated. -/
inductive Binary
  | add | sub | mul | mod | pow | div | floorDiv
  | band | bor | bxor | shl | shr
  | concat
  | eq | ne | lt | le | gt | ge
  deriving DecidableEq, Repr

/-- Where a function finds a variable it captures when it is made. -/
inductive Capture
  | slot (n : Nat)
  | upvalue (n : Nat)
  deriving DecidableEq, Repr

/-- What becomes of a local variable at the end of its block. -/
inductive Attribute
  | regular
  | constant
  | toClose
  deriving DecidableEq, Repr

/-- How complaints name a value: by the variable, field, method or constant it came from. -/
structure Origin where
  kind : String
  name : Bytes

mutual

/-- Expressions. -/
inductive Expr
  | nil
  | true
  | false
  | int (n : Int64)
  | float (x : Float)
  | string (s : Bytes)
  | varargs
  | slot (n : Nat) (name : String)
  | upvalue (n : Nat) (name : String)
  | global (env : Expr) (name : String) (line : Nat)
  | index (object key : Expr) (line : Nat)
  | call (f : Expr) (args : List Expr) (line : Nat)
  | method (object : Expr) (name : Bytes) (args : List Expr) (line : Nat)
  | function (body : FunctionBody)
  | binary (op : Binary) (a b : Expr) (line : Nat)
  | unary (op : Unary) (a : Expr) (line : Nat)
  | and (a b : Expr)
  | or (a b : Expr)
  | table (fields : List Field) (line : Nat)
  /-- An expression in parentheses: one value of what it yields. -/
  | single (e : Expr)

/-- Fields of a table constructor. -/
inductive Field
  | item (value : Expr)
  | keyed (key value : Expr) (line : Nat)

/-- Statements. -/
inductive Stmt
  | declare (slots : List Nat) (close : Option (Nat × String)) (values : List Expr) (line : Nat)
  | assign (targets : List Expr) (values : List Expr) (line : Nat)
  | call (e : Expr) (line : Nat)
  | block (b : Block)
  | whileLoop (condition : Expr) (body : Block) (exit : Nat) (line : Nat)
  | repeatLoop (body : Block) (condition : Expr) (exit : Nat) (line : Nat)
  | branch (condition : Expr) (body : Block) (otherwise : Block)
  | numericFor (base : Nat) (first last step : Expr) (body : Block) (exit : Nat) (line : Nat)
  | genericFor (base names : Nat) (values : List Expr) (body : Block) (exit : Nat) (line : Nat)
  | localFunction (slot : Nat) (body : FunctionBody)
  | ret (values : List Expr) (line : Nat)
  | goto (id : Nat) (line : Nat)
  | label (id : Nat)

/-- Statements with a scope of their own; `closes` is the first slot of the scope when one of its
    variables has to be closed. -/
inductive Block
  | mk (statements : List Stmt) (closes : Option Nat) (endLine : Nat)

/-- A function: its parameters take the first slots. -/
inductive FunctionBody
  | mk (params : Nat) (isVararg : Bool) (slots : Nat) (captures : List (Capture × String))
      (jumps : List (Nat × Nat × Nat)) (body : List Stmt) (closes : Bool) (name : String)
      (line endLine : Nat)

end

end OscHost.Script
