import OscHost.Script.Arguments
import OscHost.Script.Pattern
/-!
  Functions on texts, but for formats and binary layouts.

  Places in a text count from one; negative places count from its end.
-/

namespace OscHost.Script.Library.Strings

open Lib

/-- A place that counts from the end when it is negative; at least one. -/
def fromStart (i : Int) (size : Nat) : Nat :=
  if 0 < i then i.toNat
  else if i = 0 then 1
  else if i < -(size : Int) then 1
  else (size + i + 1).toNat

/-- An end place that counts from the end when it is negative; at most the size. -/
def fromEnd (i : Int) (size : Nat) : Nat :=
  if (size : Int) < i then size
  else if 0 ≤ i then i.toNat
  else if i < -(size : Int) then 0
  else (size + i + 1).toNat

def strLen (args : Args) : Lib (List Value) := do
  return [.int (Int64.ofNat (← textArg args 1).size)]

def strSub (args : Args) : Lib (List Value) := do
  let s ← textArg args 1
  let first := fromStart (← intArg args 2).toInt s.size
  let last := fromEnd (← intArgOr args 3 (-1)).toInt s.size
  return [.string (if first ≤ last then s.extract (first - 1) last else ByteArray.empty)]

/-- Changes every byte of a text. -/
def mapBytes (f : UInt8 → UInt8) (s : Bytes) : Bytes := s.foldl (fun b c => b.push (f c)) ByteArray.empty

def strLower (args : Args) : Lib (List Value) := do
  return [.string (mapBytes Pattern.lower (← textArg args 1))]

def strUpper (args : Args) : Lib (List Value) := do
  return [.string (mapBytes Pattern.upper (← textArg args 1))]

def strReverse (args : Args) : Lib (List Value) := do
  let s ← textArg args 1
  return [.string (ByteArray.mk s.data.reverse)]

/-- The longest text that can be made. -/
def maxText : Nat := 0x7fffffff

/-- A text so many times, with a separator between. -/
def repeated (s sep : Bytes) : (n : Nat) → (acc : Bytes) → Bytes
  | 0, acc => acc
  | 1, acc => acc ++ s
  | n + 2, acc => repeated s sep (n + 1) (acc ++ s ++ sep)

def strRep (args : Args) : Lib (List Value) := do
  let s ← textArg args 1
  let n := (← intArg args 2).toInt
  let sep := (← textArg? args 3).getD ByteArray.empty
  if n ≤ 0 then return [.string ByteArray.empty]
  else if maxText < (s.size + sep.size) * n.toNat then raise "resulting string too large"
  else return [.string (repeated s sep n.toNat ByteArray.empty)]

def strByte (args : Args) : Lib (List Value) := do
  let s ← textArg args 1
  let i := (← intArgOr args 2 1)
  let first := fromStart i.toInt s.size
  let last := fromEnd (← intArgOr args 3 i).toInt s.size
  if first ≤ last then
    return (s.extract (first - 1) last).toList.map fun c => .int (Int64.ofNat c.toNat)
  else return []

/-- The bytes with the numbers of the arguments from `n` on. -/
def charsFrom (args : Args) (acc : Bytes) (n : Nat) : (count : Nat) → Lib Bytes
  | 0 => pure acc
  | count + 1 => do
    let c := (← intArg args n).toInt
    if c < 0 ∨ 255 < c then badArgument n "value out of range"
    else charsFrom args (acc.push c.toNat.toUInt8) (n + 1) count

def strChar (args : Args) : Lib (List Value) := do
  return [.string (← charsFrom args ByteArray.empty 1 args.length)]

/-- The mark and some bytes of a compiled chunk: no text, and not accepted as code. -/
def compiledChunk : Bytes := ⟨#[27, 76, 117, 97, 84, 0, 25, 147, 13, 10, 26, 10, 4, 8, 8, 120, 86, 0, 0]⟩

def strDump (args : Args) : Lib (List Value) := do
  match ← functionArg args 1 with
  | .closure _ => return [.string compiledChunk]
  | _ => raise "unable to dump given function"

/-! ## Arithmetic on texts -/

/-- Complains about texts that write no numbers, unless the second operand knows better. -/
def noArithmetic (event : String) (a b : Value) : Lib (List Value) := do
  let other ← match b with
    | .string _ => pure Value.nil
    | b => read (·.metamethod b event)
  match other with
  | .nil =>
    raise ("attempt to perform arithmetic on a ".toUTF8 ++ (← read (·.typeName a)) ++ " value".toUTF8)
  | f => return [firstOf (← call f [a, b])]

/-- The operator of an event. -/
def operatorOf : String → Binary
  | "__sub" => .sub
  | "__mul" => .mul
  | "__mod" => .mod
  | "__pow" => .pow
  | "__div" => .div
  | "__idiv" => .floorDiv
  | _ => .add

def strArith (event : String) (args : Args) : Lib (List Value) := do
  let a := args.get 1
  let b := args.get 2
  match a.toNumber?, b.toNumber? with
  | some x, some y =>
    if event == "__unm" then return [← minus x] else return [← arith (operatorOf event) x y]
  | _, _ => noArithmetic event a b

/-! ## Patterns -/

/-- Raises a fault of a pattern. -/
def usePattern {α : Type} (r : Except PatternError α) : Lib α :=
  match r with
  | .ok a => pure a
  | .error e => raise e.message.toUTF8

/-- The value of one capture. -/
def captureValue (src : Bytes) (c : PatternCapture) : Except PatternError Value :=
  match c.reach with
  | .length n => .ok (.string (src.extract c.start (c.start + n)))
  | .position => .ok (.int (Int64.ofNat (c.start + 1)))
  | .isOpen => .error .unfinished

/-- The values of the captures of a match; the whole match when there are none. -/
def captureValues (src : Bytes) (m : Pattern.Match) : Except PatternError (List Value) :=
  if m.captures.isEmpty then .ok [.string (src.extract m.start m.stop)]
  else m.captures.toList.mapM (captureValue src)

/-- Whether a pattern holds only at the start, and where it begins then. -/
def anchor (pat : Bytes) : Bool × Nat :=
  if Pattern.at0 pat 0 == Pattern.byteOf '^' then (true, 1) else (false, 0)

/-- The place where a search starts, or nothing when it lies beyond the text. -/
def searchStart (args : Args) (size : Nat) : Lib (Option Nat) := do
  let start := fromStart (← intArgOr args 3 1).toInt size - 1
  return if size < start then none else some start

def strFind (args : Args) : Lib (List Value) := do
  let s ← textArg args 1
  let pat ← textArg args 2
  match ← searchStart args s.size with
  | none => return [.nil]
  | some start =>
    let place (n : Nat) : Value := .int (Int64.ofNat n)
    if (args.get 4).isTrue || Pattern.isPlain pat then
      match Pattern.occurrence s pat (s.size + 2) start with
      | some i => return [place (i + 1), place (i + pat.size)]
      | none => return [.nil]
    else
      let (anchored, p) := anchor pat
      match ← usePattern (Pattern.search s pat anchored p (s.size + 2) start) with
      | none => return [.nil]
      | some m =>
        let captures ← usePattern (m.captures.toList.mapM (captureValue s))
        return place (m.start + 1) :: place m.stop :: captures

def strMatch (args : Args) : Lib (List Value) := do
  let s ← textArg args 1
  let pat ← textArg args 2
  match ← searchStart args s.size with
  | none => return [.nil]
  | some start =>
    let (anchored, p) := anchor pat
    match ← usePattern (Pattern.search s pat anchored p (s.size + 2) start) with
    | none => return [.nil]
    | some m => usePattern (captureValues s m)

def strGmatch (args : Args) : Lib (List Value) := do
  let s ← textArg args 1
  let pat ← textArg args 2
  let start := (← searchStart args s.size).getD (s.size + 1)
  return [.native (← update (·.newNative (.matcher s pat start none)))]

/-- The first match from a place on that does not end where the match before it ended. -/
def nextMatch (src pat : Bytes) (p : Nat) (last : Option Nat) :
    (fuel s : Nat) → Except PatternError (Option Pattern.Match)
  | 0, _ => .ok none
  | fuel + 1, s =>
    if src.size < s then .ok none
    else
      match Pattern.matchAt src pat s p with
      | .error e => .error e
      | .ok (some (stop, captures)) =>
        if last = some stop then nextMatch src pat p last fuel (s + 1)
        else .ok (some ⟨s, stop, captures⟩)
      | .ok none => nextMatch src pat p last fuel (s + 1)

/-- The next match of an iteration. -/
def callMatcher (id : Nat) (src pat : Bytes) (start : Nat) (last : Option Nat) :
    Lib (List Value) := do
  match ← usePattern (nextMatch src pat 0 last (src.size + 2) start) with
  | none =>
    modify (·.setNative id (.matcher src pat (src.size + 1) last))
    return [.nil]
  | some m =>
    modify (·.setNative id (.matcher src pat m.stop (some m.stop)))
    usePattern (captureValues src m)

/-- The text that a replacement text stands for. -/
def expand (src repl : Bytes) (m : Pattern.Match) (acc : Bytes) :
    (fuel i : Nat) → Except Bytes Bytes
  | 0, _ => .ok acc
  | fuel + 1, i =>
    if repl.size ≤ i then .ok acc
    else
      let c := Pattern.at0 repl i
      if c != Pattern.escape then expand src repl m (acc.push c) fuel (i + 1)
      else
        let d := Pattern.at0 repl (i + 1)
        if d == Pattern.escape then expand src repl m (acc.push d) fuel (i + 2)
        else if d == Pattern.byteOf '0' then
          expand src repl m (acc ++ src.extract m.start m.stop) fuel (i + 2)
        else if Pattern.isDigit d then
          let n := d.toNat - '0'.toNat
          if n = 1 ∧ m.captures.isEmpty then
            expand src repl m (acc ++ src.extract m.start m.stop) fuel (i + 2)
          else match m.captures[n - 1]? with
            | some c =>
              match captureValue src c with
              | .ok v => expand src repl m (acc ++ v.asText?.getD ByteArray.empty) fuel (i + 2)
              | .error e => .error e.message.toUTF8
            | none =>
              .error ("invalid capture index %" ++ toString n ++ " in replacement string").toUTF8
        else .error "invalid use of '%' in replacement string"

/-- What replaces a match. -/
def replacement (src : Bytes) (repl : Value) (m : Pattern.Match) : Lib Bytes := do
  let whole := src.extract m.start m.stop
  let checked (v : Value) : Lib Bytes :=
    match v with
    | .nil | .bool false => pure whole
    | v =>
      match v.asText? with
      | some s => pure s
      | none => do
        raise ("invalid replacement value (a ".toUTF8 ++ (← read (·.typeName v)) ++ ")".toUTF8)
  match repl with
  | .closure _ | .builtin _ | .native _ =>
    checked (firstOf (← call repl (← usePattern (captureValues src m))))
  | .table _ => checked (← index repl (firstOf (← usePattern (captureValues src m))))
  | v =>
    let text := v.asText?.getD ByteArray.empty
    match expand src text m ByteArray.empty (text.size + 1) 0 with
    | .ok s => pure s
    | .error e => raise e

/-- Replaces matches from a place on. -/
def replaceFrom (src pat : Bytes) (repl : Value) (anchored : Bool) (p limit : Nat) :
    (fuel s : Nat) → (last : Option Nat) → (count : Nat) → (acc : Bytes) → Lib (Bytes × Nat)
  | 0, s, _, count, acc => pure (acc ++ src.extract s src.size, count)
  | fuel + 1, s, last, count, acc => do
    if limit ≤ count then pure (acc ++ src.extract s src.size, count)
    else if anchored then
      match ← usePattern (Pattern.matchAt src pat s p) with
      | none => pure (acc ++ src.extract s src.size, count)
      | some (stop, captures) =>
        let text ← replacement src repl ⟨s, stop, captures⟩
        pure (acc ++ text ++ src.extract stop src.size, count + 1)
    else
      match ← usePattern (nextMatch src pat p last (src.size + 2) s) with
      | none => pure (acc ++ src.extract s src.size, count)
      | some m =>
        let text ← replacement src repl m
        replaceFrom src pat repl anchored p limit fuel m.stop (some m.stop) (count + 1)
          (acc ++ src.extract s m.start ++ text)

def strGsub (args : Args) : Lib (List Value) := do
  let s ← textArg args 1
  let pat ← textArg args 2
  let repl := args.get 3
  match repl with
  | .closure _ | .builtin _ | .native _ | .table _ => pure ()
  | v => if v.asText?.isSome then pure () else badType args 3 "string/function/table"
  let limit := (← intArgOr args 4 (Int64.ofNat (s.size + 1))).toInt.toNat
  let (anchored, p) := anchor pat
  let (text, count) ← replaceFrom s pat repl anchored p limit (s.size + 2) 0 none 0 ByteArray.empty
  return [.string text, .int (Int64.ofNat count)]

end OscHost.Script.Library.Strings
