import OscHost.Number.Layout
import OscHost.Number.Numeral
import OscHost.Script.Grammar
import OscHost.Script.Value
/-!
  Numbers of the script language: conversion, arithmetic, order.

  A number is a 64-bit integer, which wraps, or a double.  Division and remainder of integers round
  down; an operation with one double is done in doubles.
-/

namespace OscHost.Script

namespace Value

/-- The number that the text of a numeral writes. -/
def ofNumeral? (s : Bytes) : Option Value :=
  (Number.Numeral.parse? s.toChars).map fun
    | .int n => .int n
    | .float x => .float x

/-- A value as a number: numbers themselves and texts that write one. -/
def toNumber? : Value → Option Value
  | .int n => some (.int n)
  | .float x => some (.float x)
  | .nan s => some (.nan s)
  | .string s => ofNumeral? s
  | _ => none

/-- A number as a double. -/
def toFloat? : Value → Option Float
  | .int n => some (Number.ofWord n)
  | .float x => some x
  | .nan _ => some notNumber
  | _ => none

/-- A number as an integer, when it is one. -/
def toInt? : Value → Option Int64
  | .int n => some n
  | .float x => floatToInt? x
  | _ => none

/-- A value as an integer: a number that is one, or a text that writes one. -/
def toInteger? (v : Value) : Option Int64 := v.toNumber? >>= toInt?

/-- Whether a value is a number. -/
def isNumber : Value → Bool
  | .int _ | .float _ | .nan _ => true
  | _ => false

end Value

/-- A double with fourteen significant digits; one that looks whole gets a decimal place. -/
def floatText (x : Float) : String :=
  match Number.Binary.ofFloat x with
  | .nan => "-nan"
  | .infinite negative => if negative then "-inf" else "inf"
  | .finite negative m e =>
    let digits := Number.general m e 14 false
    let whole := digits.all fun c => c.isDigit
    (if negative then "-" else "") ++ digits ++ (if whole then ".0" else "")

/-- The text of a number. -/
def Value.numberText? : Value → Option String
  | .int n => some (toString n.toInt)
  | .float x => some (floatText x)
  | .nan negative => some (if negative then "-nan" else "nan")
  | _ => none

/-- A value as text where texts are wanted: texts and numbers. -/
def Value.asText? : Value → Option Bytes
  | .string s => some s
  | v => v.numberText?.map Bytes.ofText

namespace Arith

/-- Whether a value is the number that is none. -/
def nanSign? : Value → Option Bool
  | .nan s => some s
  | _ => none

/-- Does an operation on doubles; a number that is none goes through. -/
def onFloats (f : Float → Float → Float) (a b : Value) (x y : Float) : Value :=
  match nanSign? a, nanSign? b with
  | some s, _ => .nan s
  | none, some s => .nan s
  | none, none => .ofFloat (f x y)

/-- Quotient of integers, rounded down. -/
def floorDivInt (a b : Int64) : Int64 := Int64.ofInt (Int.fdiv a.toInt b.toInt)

/-- Remainder of integers, with the sign of the divisor. -/
def floorModInt (a b : Int64) : Int64 := Int64.ofInt (Int.fmod a.toInt b.toInt)

/-- Remainder of doubles, with the sign of the divisor. -/
def floorMod (x y : Float) : Float :=
  let m := Number.remainder x y
  if m * y < 0.0 then m + y else m

/-- Shifts to the left; negative amounts shift to the right.  Vacant bits are zero. -/
def shiftLeft (a : Int64) (n : Int) : Int64 :=
  if n ≤ -64 ∨ 64 ≤ n then 0
  else if 0 ≤ n then (a.toUInt64 <<< n.toNat.toUInt64).toInt64
  else (a.toUInt64 >>> (-n).toNat.toUInt64).toInt64

/-- Why an operation on two values has no result by arithmetic. -/
inductive Failure
  /-- An operand is no number. -/
  | operand
  /-- An operand of a bitwise operation is a number but no integer. -/
  | fraction
  | divideByZero
  | moduloByZero

/-- An operation that stays within the integers or goes over to doubles. -/
def mixed (onInts : Int64 → Int64 → Except Failure Value) (f : Float → Float → Float) (a b : Value) :
    Except Failure Value :=
  match a, b with
  | .int m, .int n => onInts m n
  | a, b =>
    match a.toFloat?, b.toFloat? with
    | some x, some y => .ok (onFloats f a b x y)
    | _, _ => .error .operand

/-- An operation on doubles. -/
def floating (f : Float → Float → Float) (a b : Value) : Except Failure Value :=
  match a.toFloat?, b.toFloat? with
  | some x, some y => .ok (onFloats f a b x y)
  | _, _ => .error .operand

/-- An operation on the bits of integers; texts are none, even those that write numbers. -/
def bitwise (f : Int64 → Int64 → Int64) (a b : Value) : Except Failure Value :=
  match a.toInt?, b.toInt? with
  | some m, some n => .ok (.int (f m n))
  | _, _ => if a.isNumber ∧ b.isNumber then .error .fraction else .error .operand

/-- Power of doubles. -/
def power (x y : Float) : Float := if y == 2.0 then x * x else Float.pow x y

/-- The result of an arithmetic or bitwise operation. -/
def binary (op : Binary) (a b : Value) : Except Failure Value :=
  match op with
  | .add => mixed (fun m n => .ok (.int (m + n))) (· + ·) a b
  | .sub => mixed (fun m n => .ok (.int (m - n))) (· - ·) a b
  | .mul => mixed (fun m n => .ok (.int (m * n))) (· * ·) a b
  | .mod => mixed
      (fun m n => if n == 0 then .error .moduloByZero else .ok (.int (floorModInt m n))) floorMod a b
  | .floorDiv => mixed
      (fun m n => if n == 0 then .error .divideByZero else .ok (.int (floorDivInt m n)))
      (fun x y => (x / y).floor) a b
  | .pow => floating power a b
  | .div => floating (· / ·) a b
  | .band => bitwise (· &&& ·) a b
  | .bor => bitwise (· ||| ·) a b
  | .bxor => bitwise (· ^^^ ·) a b
  | .shl => bitwise (fun m n => shiftLeft m n.toInt) a b
  | .shr => bitwise (fun m n => shiftLeft m (-n.toInt)) a b
  | _ => .error .operand

/-- The opposite number. -/
def minus : Value → Option Value
  | .int n => some (.int (-n))
  | .float x => some (.float (-x))
  | .nan s => some (.nan (! s))
  | _ => none

/-- The integer with all bits changed. -/
def complement (v : Value) : Except Failure Value :=
  match v.toInt? with
  | some n => .ok (.int (~~~ n))
  | none => if v.isNumber then .error .fraction else .error .operand

/-! ## Order -/

/-- Whether an integer is below a double, exactly. -/
def intBelow (n : Int64) (x : Float) : Bool :=
  if 9223372036854775808.0 ≤ x then true
  else if x ≤ -9223372036854775808.0 then false
  else n < x.ceil.toInt64

/-- Whether an integer is at most a double, exactly. -/
def intAtMost (n : Int64) (x : Float) : Bool :=
  if 9223372036854775808.0 ≤ x then true
  else if x < -9223372036854775808.0 then false
  else n ≤ x.floor.toInt64

/-- Whether a double is below an integer, exactly. -/
def belowInt (x : Float) (n : Int64) : Bool := ! (x.isNaN || intAtMost n x)

/-- Whether a double is at most an integer, exactly. -/
def atMostInt (x : Float) (n : Int64) : Bool := ! (x.isNaN || intBelow n x)

/-- Whether one value is below another, for numbers and for texts. -/
def less? : Value → Value → Option Bool
  | .int a, .int b => some (a < b)
  | .float a, .float b => some (a < b)
  | .int a, .float b => some (intBelow a b)
  | .float a, .int b => some (belowInt a b)
  | .string a, .string b => some (a.less b)
  | a, b => if a.isNumber ∧ b.isNumber then some false else none

/-- Whether one value is at most another, for numbers and for texts. -/
def atMost? : Value → Value → Option Bool
  | .int a, .int b => some (a ≤ b)
  | .float a, .float b => some (a ≤ b)
  | .int a, .float b => some (intAtMost a b)
  | .float a, .int b => some (atMostInt a b)
  | .string a, .string b => some (! b.less a)
  | a, b => if a.isNumber ∧ b.isNumber then some false else none

end Arith

end OscHost.Script
