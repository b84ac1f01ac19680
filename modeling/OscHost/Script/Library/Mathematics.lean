import OscHost.Script.Arguments
/-!
  Mathematical functions.

  Functions that round yield integers where the result fits.
-/

namespace OscHost.Script.Library.Mathematics

open Lib

/-- The value of pi. -/
def pi : Float := 3.141592653589793

/-- A function of one double. -/
def onFloat (f : Float → Float) (args : Args) : Lib (List Value) := do
  match ← numberArg args 1 with
  | .nan s => return [.nan s]
  | v => return [.ofFloat (f (v.toFloat?.getD 0.0))]

/-- A double as an integer when it fits. -/
def whole (x : Float) : Value :=
  match floatToInt? x with
  | some n => .int n
  | none => .ofFloat x

/-- Rounds a number. -/
def rounded (f : Float → Float) (args : Args) : Lib (List Value) := do
  match ← numberArg args 1 with
  | .int n => return [.int n]
  | .nan s => return [.nan s]
  | v => return [whole (f (v.toFloat?.getD 0.0))]

def mathAbs (args : Args) : Lib (List Value) := do
  match ← numberArg args 1 with
  | .int n => return [.int (if n < 0 then -n else n)]
  | .nan _ => return [.nan false]
  | v => return [.ofFloat (v.toFloat?.getD 0.0).abs]

def mathAtan (args : Args) : Lib (List Value) := do
  let y ← floatArg args 1
  let x ← match args.get 2 with
    | .nil => pure 1.0
    | _ => floatArg args 2
  return [.ofFloat (Float.atan2 y x)]

def mathFmod (args : Args) : Lib (List Value) := do
  match ← numberArg args 1, ← numberArg args 2 with
  | .int m, .int n =>
    if n == 0 then badArgument 2 "zero" else return [.int (Int64.ofInt (m.toInt.tmod n.toInt))]
  | a, b => return [Arith.onFloats Number.remainder a b (a.toFloat?.getD 0.0) (b.toFloat?.getD 0.0)]

def mathLog (args : Args) : Lib (List Value) := do
  let x ← floatArg args 1
  match args.get 2 with
  | .nil => return [.ofFloat x.log]
  | _ =>
    let base ← floatArg args 2
    return [.ofFloat (if base == 2.0 then x.log2 else if base == 10.0 then x.log10 else x.log / base.log)]

/-- The best of the arguments from `n` on. -/
def bestFrom (better : Value → Value → Bool) (args : Args) (best : Value) (n : Nat) :
    (count : Nat) → Lib Value
  | 0 => pure best
  | count + 1 => do
    let v ← numberArg args n
    bestFrom better args (if better v best then v else best) (n + 1) count

def mathMax (args : Args) : Lib (List Value) := do
  let first ← numberArg args 1
  return [← bestFrom (fun v best => (Arith.less? best v).getD false) args first 2 (args.length - 1)]

def mathMin (args : Args) : Lib (List Value) := do
  let first ← numberArg args 1
  return [← bestFrom (fun v best => (Arith.less? v best).getD false) args first 2 (args.length - 1)]

def mathModf (args : Args) : Lib (List Value) := do
  match ← numberArg args 1 with
  | .int n => return [.float (Number.ofWord n), .float 0.0]
  | .nan s => return [.nan s, .nan s]
  | v =>
    let x := v.toFloat?.getD 0.0
    let n := if x < 0.0 then x.ceil else x.floor
    return [.float n, .float (if x == n then 0.0 else x - n)]

/-- The next number of a fixed sequence. -/
def scramble (n : UInt64) : UInt64 :=
  let n := n ^^^ (n <<< 13)
  let n := n ^^^ (n >>> 7)
  n ^^^ (n <<< 17)

def mathRandom (args : Args) : Lib (List Value) := do
  let r := scramble (Float.toBits (← ask .clock) + 0x9e3779b97f4a7c15)
  match args.length with
  | 0 => return [.float (Float.ofNat (r >>> 11).toNat / 9007199254740992.0)]
  | 1 | 2 =>
    let first ← intArg args 1
    let (low, high) ← if args.length = 1 then pure ((1 : Int), first.toInt)
      else (fun n => (first.toInt, n.toInt)) <$> intArg args 2
    if args.length = 1 ∧ first == 0 then return [.int r.toInt64]
    else if high < low then badArgument args.length "interval is empty"
    else return [.int (Int64.ofInt (low + (r.toNat : Int) % (high - low + 1)))]
  | _ => raise "wrong number of arguments"

def mathTointeger (args : Args) : Lib (List Value) := do
  match args.get 1 with
  | .string s => return [((Value.string s).toInteger?.map Value.int).getD .nil]
  | v =>
    let _ ← anyArg args 1
    return [(v.toInt?.map Value.int).getD .nil]

def mathType (args : Args) : Lib (List Value) := do
  match ← anyArg args 1 with
  | .int _ => return [.text "integer"]
  | .float _ | .nan _ => return [.text "float"]
  | _ => return [.nil]

def mathUlt (args : Args) : Lib (List Value) := do
  let a ← intArg args 1
  let b ← intArg args 2
  return [.bool (a.toUInt64 < b.toUInt64)]

end OscHost.Script.Library.Mathematics
