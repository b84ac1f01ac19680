import OscHost.Script.Arguments
/-!
  Formatted text.

  A conversion is a percent sign, flags, a width, a precision and a letter.  Each letter allows some
  of the flags only.
-/

namespace OscHost.Script.Library.Formats

open Lib

/-- A conversion: its flags, width, precision and letter. -/
structure Conversion where
  flags : List Char
  width : Nat
  precision : Option Nat
  letter : Char

/-- Whether a conversion has a flag. -/
def Conversion.has (c : Conversion) (flag : Char) : Bool := c.flags.contains flag

/-- Spaces or zeros. -/
def fill (c : Char) (n : Nat) : List Char := List.replicate n c

/-- Brings a number to the width: zeros go between sign and digits. -/
def padNumber (c : Conversion) (zeros : Bool) (sign digits : List Char) : List Char :=
  let room := c.width - (sign.length + digits.length)
  if c.has '-' then sign ++ digits ++ fill ' ' room
  else if zeros && c.has '0' then sign ++ fill '0' room ++ digits
  else fill ' ' room ++ sign ++ digits

/-- Brings a text to the width. -/
def padText (c : Conversion) (s : List Char) : List Char :=
  let room := c.width - s.length
  if c.has '-' then s ++ fill ' ' room else fill ' ' room ++ s

/-- The sign of a number. -/
def signOf (c : Conversion) (negative : Bool) : List Char :=
  if negative then ['-'] else if c.has '+' then ['+'] else if c.has ' ' then [' '] else []

/-- An integer. -/
def integer (c : Conversion) (n : Int64) : List Char :=
  let (base, sign, value) := match c.letter with
    | 'x' | 'X' => (16, [], n.toUInt64.toNat)
    | 'o' => (8, [], n.toUInt64.toNat)
    | 'u' => (10, [], n.toUInt64.toNat)
    | _ => (10, signOf c (n < 0), n.toInt.natAbs)
  let digits := if value = 0 ∧ c.precision = some 0 then [] else Nat.toDigits base value
  let digits := fill '0' (c.precision.getD 1 - digits.length) ++ digits
  let digits := match c.letter with
    | 'X' => digits.map Char.toUpper
    | _ => digits
  let mark := if ¬ c.has '#' then []
    else match c.letter with
      | 'x' => if value = 0 then [] else ['0', 'x']
      | 'X' => if value = 0 then [] else ['0', 'X']
      | 'o' => if digits.head? = some '0' then [] else ['0']
      | _ => []
  padNumber c c.precision.isNone (sign ++ mark) digits

/-- Rounds a hexadecimal fraction of thirteen digits to fewer, half to even. -/
def roundHex (m places : Nat) : Nat :=
  if 13 ≤ places then m * Nat.pow 16 (places - 13)
  else Number.Binary.roundHalfEven m (Nat.pow 16 (13 - places))

/-- A double in hexadecimal: one digit, a fraction and a power of two. -/
def hexadecimal (c : Conversion) (m : Nat) (e : Int) : List Char :=
  let (lead, fraction, power) :=
    if m = 0 then (0, 0, (0 : Int))
    else if m < 0x10000000000000 then (0, m, -1022)
    else (1, m - 0x10000000000000, e + 52)
  let (lead, digits) := match c.precision with
    | none =>
      let digits := Nat.toDigits 16 fraction
      let digits := fill '0' (13 - digits.length) ++ digits
      (lead, (digits.reverse.dropWhile (· == '0')).reverse)
    | some places =>
      let r := roundHex (lead * 0x10000000000000 + fraction) places
      let digits := Nat.toDigits 16 (r % Nat.pow 16 places)
      (r / Nat.pow 16 places, if places = 0 then [] else fill '0' (places - digits.length) ++ digits)
  let sign := if power < 0 then '-' else '+'
  Nat.toDigits 16 lead ++ (if digits.isEmpty then [] else '.' :: digits)
    ++ ['p', sign] ++ Nat.toDigits 10 power.natAbs

/-- A finite double without its sign. -/
def magnitude (c : Conversion) (m : Nat) (e : Int) : List Char :=
  let places := c.precision.getD 6
  let text := match c.letter.toLower with
    | 'f' => (Number.fixed m e places).toList ++ (if places = 0 && c.has '#' then ['.'] else [])
    | 'e' => (Number.scientific m e places).toList
    | 'g' => (Number.general m e places (c.has '#')).toList
    | _ => ['0', 'x'] ++ hexadecimal c m e
  if c.letter.isUpper then text.map Char.toUpper else text

/-- A number as a double. -/
def floating (c : Conversion) (v : Value) : List Char :=
  let word (negative : Bool) (s : String) : List Char :=
    let s := s.toList
    padNumber c false (signOf c negative) (if c.letter.isUpper then s.map Char.toUpper else s)
  match v with
  | .nan negative => word negative "nan"
  | v =>
    match Number.Binary.ofFloat (v.toFloat?.getD 0.0) with
    | .nan => word true "nan"
    | .infinite negative => word negative "inf"
    | .finite negative m e => padNumber c true (signOf c negative) (magnitude c m e)

/-! ## Literals -/

/-- A text between quotes, such that it reads back. -/
def quotedText : List Char → List Char
  | [] => []
  | c :: rest =>
    let head := if c == '"' || c == '\\' || c == '\n' then ['\\', c]
      else if c.toNat < 32 || c.toNat = 127 then
        let digits := Nat.toDigits 10 c.toNat
        '\\' :: (match rest with
          | d :: _ => if d.isDigit then fill '0' (3 - digits.length) ++ digits else digits
          | [] => digits)
      else [c]
    head ++ quotedText rest

/-- A value as it would be written in a script. -/
def literal? : Value → Option (List Char)
  | .string s => some ('"' :: quotedText s.toChars ++ ['"'])
  | .nil => some "nil".toList
  | .bool b => some (if b then "true" else "false").toList
  | .int n => some (if n == Int64.minValue then "0x8000000000000000" else toString n.toInt).toList
  | .nan _ => some "(0/0)".toList
  | .float x =>
    match Number.Binary.ofFloat x with
    | .finite negative m e =>
      some ((if negative then ['-'] else []) ++ ['0', 'x'] ++ hexadecimal ⟨[], 0, none, 'a'⟩ m e)
    | .infinite negative => some (if negative then "-1e9999" else "1e9999").toList
    | .nan => some "(0/0)".toList
  | _ => none

/-! ## Conversions -/

/-- The flags that a letter allows, and whether it takes a precision; none for other letters. -/
def allowed? : Char → Option (List Char × Bool)
  | 'c' | 'p' => some (['-'], false)
  | 'd' | 'i' => some (['-', '+', '0', ' '], true)
  | 'u' => some (['-', '0'], true)
  | 'o' | 'x' | 'X' => some (['-', '#', '0'], true)
  | 'a' | 'A' | 'f' | 'e' | 'E' | 'g' | 'G' => some (['-', '+', '#', '0', ' '], true)
  | 's' => some (['-'], true)
  | _ => none

/-- At most two digits at the front of a text. -/
def twoDigits (s : List Char) : List Char × List Char :=
  match s with
  | a :: b :: rest =>
    if a.isDigit then if b.isDigit then ([a, b], rest) else ([a], b :: rest) else ([], s)
  | [a] => if a.isDigit then ([a], []) else ([], s)
  | [] => ([], [])

/-- Reads a conversion whose text is well formed for its letter. -/
def conversion? (spec : List Char) (letter : Char) : Option Conversion := do
  let (flags, precise) ← allowed? letter
  let given := spec.takeWhile flags.contains
  let rest := spec.dropWhile flags.contains
  if rest.head? = some '0' then none
  else
    let (width, rest) := twoDigits rest
    let (precision, rest) := match rest with
      | '.' :: after =>
        if precise then
          let (digits, after) := twoDigits after
          (some (Number.Numeral.digitsValue 10 digits), after)
        else (none, rest)
      | rest => (none, rest)
    if rest.isEmpty then some ⟨given, Number.Numeral.digitsValue 10 width, precision, letter⟩
    else none

/-- The text of one argument. -/
def convert (args : Args) (n : Nat) (spec : List Char) (letter : Char) : Lib Bytes := do
  let checked : Lib Conversion :=
    match conversion? spec letter with
    | some c => pure c
    | none =>
      raise (("invalid conversion specification: '%" ++ String.ofList (spec ++ [letter]) ++ "'").toUTF8)
  match letter with
  | 'c' => do
    let c ← checked
    return Bytes.ofChars (padText c [Char.ofNat ((← intArg args n).toUInt64.toNat % 256)])
  | 'd' | 'i' | 'u' | 'o' | 'x' | 'X' => do
    let i ← intArg args n
    return Bytes.ofChars (integer (← checked) i)
  | 'a' | 'A' | 'f' | 'e' | 'E' | 'g' | 'G' => do
    let v ← numberArg args n
    return Bytes.ofChars (floating (← checked) v)
  | 'p' => do
    let c ← checked
    let text := match (args.get n).address with
      | some a => addressText a
      | none => "(null)"
    return Bytes.ofChars (padText c text.toList)
  | 'q' =>
    if spec.isEmpty then
      match literal? (args.get n) with
      | some s => return Bytes.ofChars s
      | none => badArgument n "value has no literal form"
    else raise "specifier '%q' cannot have modifiers"
  | 's' => do
    let s ← text (args.get n)
    if spec.isEmpty then pure s
    else if s.toList.contains 0 then badArgument n "string contains zeros"
    else
      let c ← checked
      if c.precision.isNone ∧ 100 ≤ s.size then pure s
      else
        let cs := s.toChars
        return Bytes.ofChars (padText c (match c.precision with
          | some p => cs.take p
          | none => cs))
  | _ =>
    raise (("invalid conversion '%" ++ String.ofList (spec ++ [letter]) ++ "' to 'format'").toUTF8)

/-- Characters that may stand between the percent sign and the letter. -/
def isModifier (c : Char) : Bool := c.isDigit || "-+ #.".contains c

/-- Longest conversion. -/
def maxSpec : Nat := 20

/-- Works a format off. -/
def formatFrom (args : Args) : (fuel n : Nat) → (s : List Char) → (acc : Bytes) → Lib Bytes
  | 0, _, _, acc => pure acc
  | fuel + 1, n, s, acc =>
    match s with
    | [] => pure acc
    | '%' :: '%' :: rest => formatFrom args fuel n rest (acc.push 37)
    | '%' :: rest => do
      if ¬ args.has n then badArgument n "no value"
      else
        let spec := rest.takeWhile isModifier
        if maxSpec < spec.length then raise "invalid format string to 'format'"
        else
          match rest.dropWhile isModifier with
          | [] => raise (("invalid conversion '%" ++ String.ofList spec ++ "' to 'format'").toUTF8)
          | letter :: rest =>
            let piece ← convert args n spec letter
            formatFrom args fuel (n + 1) rest (acc ++ piece)
    | s =>
      let plain := s.takeWhile (· != '%')
      formatFrom args fuel n (s.dropWhile (· != '%')) (acc ++ Bytes.ofChars plain)

def strFormat (args : Args) : Lib (List Value) := do
  let format ← textArg args 1
  let s := format.toChars
  return [.string (← formatFrom args (s.length + 1) 2 s ByteArray.empty)]

end OscHost.Script.Library.Formats
