import OscHost.Json.Value
/-!
  JSON text read as a tree.

  `Json.parse` accepts the JSON grammar to a nesting of 127 arrays and objects.  Members are kept
  as written.  A refused text is answered with its first fault and the line and byte column where
  it was noticed.

  A number with a point or an exponent is read as digits times a power of ten with one rounding
  for the digits and one for the scaling, so its last bit may differ from the nearest double.
-/

namespace OscHost.Json

/-- Why a text is not JSON. -/
inductive Cause
  | eofInValue
  | eofInList
  | eofInObject
  | eofInString
  | expectedValue
  | expectedIdent
  | expectedColon
  | expectedListEnd
  | expectedObjectEnd
  | keyNotString
  | trailingComma
  | trailingCharacters
  | invalidNumber
  | numberOutOfRange
  | invalidEscape
  | loneSurrogate
  | unfinishedEscape
  | controlCharacter
  | tooDeep
  deriving DecidableEq, Repr

/-- The wording of a cause. -/
def Cause.message : Cause → String
  | .eofInValue => "EOF while parsing a value"
  | .eofInList => "EOF while parsing a list"
  | .eofInObject => "EOF while parsing an object"
  | .eofInString => "EOF while parsing a string"
  | .expectedValue => "expected value"
  | .expectedIdent => "expected ident"
  | .expectedColon => "expected `:`"
  | .expectedListEnd => "expected `,` or `]`"
  | .expectedObjectEnd => "expected `,` or `\x7d`"
  | .keyNotString => "key must be a string"
  | .trailingComma => "trailing comma"
  | .trailingCharacters => "trailing characters"
  | .invalidNumber => "invalid number"
  | .numberOutOfRange => "number out of range"
  | .invalidEscape => "invalid escape"
  | .loneSurrogate => "lone leading surrogate in hex escape"
  | .unfinishedEscape => "unexpected end of hex escape"
  | .controlCharacter => "control character (\\u0000-\\u001F) found while parsing a string"
  | .tooDeep => "recursion limit exceeded"

/-- A fault: its cause and the count of bytes from where it was noticed to the end. -/
structure Fault where
  cause : Cause
  bytesLeft : Nat
  deriving Repr

/-- The count of bytes of some characters. -/
def byteCount (cs : List Char) : Nat := cs.foldl (fun n c => n + c.utf8Size) 0

/-- A fault at the start of `rest`. -/
def Fault.before (cause : Cause) (rest : List Char) : Fault := ⟨cause, byteCount rest⟩

/-- A fault noticed after `n` more bytes of `rest`, or at its end. -/
def Fault.past (cause : Cause) (n : Nat) (rest : List Char) : Fault :=
  ⟨cause, byteCount rest - n⟩

/-- Drops blanks. -/
def skipBlanks (s : List Char) : List Char :=
  s.dropWhile fun c => c == ' ' || c == '\n' || c == '\t' || c == '\r'

/-- Reads the remaining letters of a word. -/
def word (letters : List Char) (value : Json) (s : List Char) : Except Fault (Json × List Char) :=
  match letters, s with
  | [], s => .ok (value, s)
  | _ :: _, [] => .error (.before .eofInValue [])
  | l :: letters, c :: rest =>
    if c = l then word letters value rest else .error (.past .expectedIdent 1 (c :: rest))

/-! ## Numbers -/

/-- The greatest integer kept exactly. -/
def wordMax : Nat := 0xFFFFFFFFFFFFFFFF

/-- A number being read: the digits kept as an integer and the power of ten they are scaled by. -/
structure Scaled where
  negative : Bool
  significand : Nat
  exponent : Int

/-- Powers of ten are applied in steps of at most `10^308`. -/
def scaleBy (fuel : Nat) (f : Float) (exponent : Int) (rest : List Char) : Except Fault Float :=
  match fuel with
  | 0 => .ok f
  | fuel + 1 =>
    if exponent.natAbs ≤ 308 then
      let power := Float.ofScientific 1 false exponent.natAbs
      if 0 ≤ exponent then
        let r := f * power
        if r.isInf then .error (.before .numberOutOfRange rest) else .ok r
      else .ok (f / power)
    else if f == 0.0 then .ok f
    else if 0 ≤ exponent then .error (.before .numberOutOfRange rest)
    else scaleBy fuel (f / 1e308) (exponent + 308) rest

/-- The number that digits and a power of ten name. -/
def Scaled.finish (n : Scaled) (rest : List Char) : Except Fault (Json × List Char) := do
  let f ← scaleBy (n.exponent.natAbs / 308 + 2) (Float.ofNat n.significand) n.exponent rest
  pure (.float (if n.negative then -f else f), rest)

/-- The value of a decimal digit. -/
def digit? (c : Char) : Option Nat := if c.isDigit then some (c.toNat - '0'.toNat) else none

/-- Drops digits. -/
def skipDigits (s : List Char) : List Char := s.dropWhile Char.isDigit

/-- Reads the digits of an exponent; one past the 32-bit range ends in zero or out of range. -/
def exponentDigits (n : Scaled) (down : Bool) (e : Nat) : List Char → Except Fault (Json × List Char)
  | [] => finishAt e []
  | c :: rest =>
    match digit? c with
    | none => finishAt e (c :: rest)
    | some d =>
      if 0x7FFFFFFF < e * 10 + d then
        if n.significand ≠ 0 ∧ ¬ down then .error (.before .numberOutOfRange rest)
        else .ok (.float (if n.negative then -0.0 else 0.0), skipDigits rest)
      else exponentDigits n down (e * 10 + d) rest
where
  finishAt (e : Nat) (rest : List Char) : Except Fault (Json × List Char) :=
    let total := if down then n.exponent - e else n.exponent + e
    Scaled.finish { n with exponent := max (-0x80000000) (min total 0x7FFFFFFF) } rest

/-- Reads an exponent after its letter. -/
def exponentPart (n : Scaled) (s : List Char) : Except Fault (Json × List Char) :=
  let (down, s) := match s with
    | '+' :: rest => (false, rest)
    | '-' :: rest => (true, rest)
    | s => (false, s)
  match s with
  | [] => .error (.before .eofInValue [])
  | c :: rest =>
    match digit? c with
    | some d => exponentDigits n down d rest
    | none => .error (.past .invalidNumber 1 (c :: rest))

/-- An exponent if one follows, else the end of the number. -/
def exponentOrEnd (n : Scaled) : List Char → Except Fault (Json × List Char)
  | 'e' :: rest | 'E' :: rest => exponentPart n rest
  | s => n.finish s

/-- Reads digits after the point; those that no longer fit are dropped.  `seen` tells whether a
    digit has been seen. -/
def fractionDigits (n : Scaled) (seen : Bool) : List Char → Except Fault (Json × List Char)
  | [] => if seen then n.finish [] else .error (.before .eofInValue [])
  | c :: rest =>
    match digit? c with
    | some d =>
      if wordMax < n.significand * 10 + d then exponentOrEnd n (skipDigits rest)
      else
        fractionDigits
          { n with significand := n.significand * 10 + d, exponent := n.exponent - 1 } true rest
    | none =>
      if seen then exponentOrEnd n (c :: rest)
      else .error (.past .invalidNumber 1 (c :: rest))

/-- What follows the digits before the point. -/
def afterWhole (n : Scaled) (long : Bool) : List Char → Except Fault (Json × List Char)
  | '.' :: rest => fractionDigits n false rest
  | 'e' :: rest | 'E' :: rest => exponentPart n rest
  | rest =>
    if long then n.finish rest
    else if ¬ n.negative then .ok (.int n.significand, rest)
    else if n.significand = 0 ∨ 0x8000000000000000 < n.significand then
      .ok (.float (-(Float.ofNat n.significand)), rest)
    else .ok (.int (-(n.significand : Int)), rest)

/-- Reads digits before the point; once they no longer fit, each further one scales by ten. -/
def wholeDigits (n : Scaled) (long : Bool) : List Char → Except Fault (Json × List Char)
  | [] => afterWhole n long []
  | c :: rest =>
    match digit? c with
    | none => afterWhole n long (c :: rest)
    | some d =>
      if long || wordMax < n.significand * 10 + d then
        wholeDigits { n with exponent := n.exponent + 1 } true rest
      else wholeDigits { n with significand := n.significand * 10 + d } false rest

/-- Reads a number after its sign. -/
def number (negative : Bool) : List Char → Except Fault (Json × List Char)
  | [] => .error (.before .eofInValue [])
  | '0' :: rest =>
    match rest with
    | c :: _ =>
      if c.isDigit then .error (.past .invalidNumber 1 rest)
      else afterWhole ⟨negative, 0, 0⟩ false rest
    | [] => afterWhole ⟨negative, 0, 0⟩ false []
  | c :: rest =>
    match digit? c with
    | some d => wholeDigits ⟨negative, d, 0⟩ false rest
    | none => .error (.past .invalidNumber 1 (c :: rest))

/-! ## Strings -/

/-- The value of a hexadecimal digit. -/
def hexDigit? (c : Char) : Option Nat :=
  if c.isDigit then some (c.toNat - '0'.toNat)
  else if 'a' ≤ c ∧ c ≤ 'f' then some (c.toNat - 'a'.toNat + 10)
  else if 'A' ≤ c ∧ c ≤ 'F' then some (c.toNat - 'A'.toNat + 10)
  else none

/-- Reads four hexadecimal digits; anything else in the next four bytes is a fault after them. -/
def hexUnit (s : List Char) : Except Fault (Nat × List Char) :=
  if byteCount (s.take 4) < 4 then .error (.before .eofInString [])
  else match s with
    | a :: b :: c :: d :: rest =>
      match hexDigit? a, hexDigit? b, hexDigit? c, hexDigit? d with
      | some a, some b, some c, some d => .ok (((a * 16 + b) * 16 + c) * 16 + d, rest)
      | _, _, _, _ => .error (.past .invalidEscape 4 s)
    | _ => .error (.past .invalidEscape 4 s)

/-- Reads the second half of a surrogate pair. -/
def lowSurrogate (high : Nat) : List Char → Except Fault (Char × List Char)
  | [] => .error (.before .eofInString [])
  | '\\' :: rest =>
    match rest with
    | [] => .error (.before .eofInString [])
    | 'u' :: rest => do
      let (low, rest) ← hexUnit rest
      if low < 0xdc00 ∨ 0xdfff < low then throw (.before .loneSurrogate rest)
      pure (Char.ofNat ((high - 0xd800) * 1024 + (low - 0xdc00) + 0x10000), rest)
    | rest => .error (.past .unfinishedEscape 1 rest)
  | rest => .error (.past .unfinishedEscape 1 rest)

/-- Reads an escape after its backslash. -/
def escape : List Char → Except Fault (Char × List Char)
  | [] => .error (.before .eofInString [])
  | '"' :: rest => .ok ('"', rest)
  | '\\' :: rest => .ok ('\\', rest)
  | '/' :: rest => .ok ('/', rest)
  | 'b' :: rest => .ok ('\x08', rest)
  | 'f' :: rest => .ok ('\x0c', rest)
  | 'n' :: rest => .ok ('\n', rest)
  | 'r' :: rest => .ok ('\r', rest)
  | 't' :: rest => .ok ('\t', rest)
  | 'u' :: rest => do
    let (unit, rest) ← hexUnit rest
    if 0xdc00 ≤ unit ∧ unit ≤ 0xdfff then throw (.before .loneSurrogate rest)
    if 0xd800 ≤ unit ∧ unit ≤ 0xdbff then lowSurrogate unit rest
    else pure (Char.ofNat unit, rest)
  | c :: rest => .error (.past .invalidEscape 1 (c :: rest))

/-- Reads a string after its opening quote; `acc` holds the characters read, last first. -/
def stringBody (fuel : Nat) (acc : List Char) (s : List Char) : Except Fault (String × List Char) :=
  match fuel, s with
  | 0, _ | _, [] => .error (.before .eofInString [])
  | fuel + 1, c :: rest =>
    if c = '"' then .ok (String.ofList acc.reverse, rest)
    else if c = '\\' then do
      let (e, rest) ← escape rest
      stringBody fuel (e :: acc) rest
    else if c.toNat < 0x20 then .error (.past .controlCharacter 1 (c :: rest))
    else stringBody fuel (c :: acc) rest

/-! ## Trees -/

/-- Nesting at which arrays and objects are refused. -/
def maxNesting : Nat := 128

mutual

/-- Reads a tree; `room` levels of nesting remain. -/
def value (fuel room : Nat) (s : List Char) : Except Fault (Json × List Char) :=
  match fuel with
  | 0 => .error (.before .tooDeep s)
  | fuel + 1 =>
    match skipBlanks s with
    | [] => .error (.before .eofInValue [])
    | 'n' :: rest => word ['u', 'l', 'l'] .null rest
    | 't' :: rest => word ['r', 'u', 'e'] (.bool true) rest
    | 'f' :: rest => word ['a', 'l', 's', 'e'] (.bool false) rest
    | '"' :: rest => do
      let (text, rest) ← stringBody (rest.length + 1) [] rest
      pure (.string text, rest)
    | '-' :: rest => number true rest
    | '[' :: rest =>
      if room ≤ 1 then .error (.past .tooDeep 1 ('[' :: rest))
      else items fuel (room - 1) true [] rest
    | '\x7b' :: rest =>
      if room ≤ 1 then .error (.past .tooDeep 1 ('\x7b' :: rest))
      else members fuel (room - 1) true [] rest
    | c :: rest =>
      if c.isDigit then number false (c :: rest) else .error (.past .expectedValue 1 (c :: rest))

/-- Reads the items of an array; `acc` holds those read, last first. -/
def items (fuel room : Nat) (first : Bool) (acc : List Json) (s : List Char) : Except Fault (Json × List Char) :=
  match fuel with
  | 0 => .error (.before .tooDeep s)
  | fuel + 1 =>
    match skipBlanks s with
    | [] => .error (.before .eofInList [])
    | ']' :: rest => .ok (.array acc.reverse, rest)
    | c :: rest =>
      if first then do
        let (j, rest) ← value fuel room (c :: rest)
        items fuel room false (j :: acc) rest
      else if c = ',' then
        match skipBlanks rest with
        | [] => .error (.before .eofInValue [])
        | ']' :: rest => .error (.past .trailingComma 1 (']' :: rest))
        | rest => do
          let (j, rest) ← value fuel room rest
          items fuel room false (j :: acc) rest
      else .error (.past .expectedListEnd 1 (c :: rest))

/-- Reads the members of an object; `acc` holds those read, last first. -/
def members (fuel room : Nat) (first : Bool) (acc : List (String × Json)) (s : List Char) :
    Except Fault (Json × List Char) :=
  match fuel with
  | 0 => .error (.before .tooDeep s)
  | fuel + 1 =>
    match skipBlanks s with
    | [] => .error (.before .eofInObject [])
    | '\x7d' :: rest => .ok (.object acc.reverse, rest)
    | c :: rest =>
      if first then
        if c = '"' then member fuel room acc rest
        else .error (.past .keyNotString 1 (c :: rest))
      else if c = ',' then
        match skipBlanks rest with
        | [] => .error (.before .eofInValue [])
        | '"' :: rest => member fuel room acc rest
        | '\x7d' :: rest => .error (.past .trailingComma 1 ('\x7d' :: rest))
        | rest => .error (.past .keyNotString 1 rest)
      else .error (.past .expectedObjectEnd 1 (c :: rest))

/-- Reads one member after the quote of its name, and those after it. -/
def member (fuel room : Nat) (acc : List (String × Json)) (s : List Char) : Except Fault (Json × List Char) :=
  match fuel with
  | 0 => .error (.before .tooDeep s)
  | fuel + 1 => do
    let (name, rest) ← stringBody (s.length + 1) [] s
    match skipBlanks rest with
    | [] => .error (.before .eofInObject [])
    | ':' :: rest => do
      let (j, rest) ← value fuel room rest
      members fuel room false ((name, j) :: acc) rest
    | rest => .error (.past .expectedColon 1 rest)

end

/-- A refused text: the cause and where it was noticed, lines from one and byte columns. -/
structure ParseError where
  cause : Cause
  line : Nat
  column : Nat
  deriving Repr

/-- The wording of a refusal. -/
def ParseError.message (e : ParseError) : String :=
  e.cause.message ++ " at line " ++ toString e.line ++ " column " ++ toString e.column

/-- Line and byte column after `n` bytes. -/
def position (line column : Nat) (n : Nat) : List Char → Nat × Nat
  | [] => (line, column)
  | c :: rest =>
    if n = 0 then (line, column)
    else if n < c.utf8Size then (line, column + n)
    else if c = '\n' then position (line + 1) 0 (n - 1) rest
    else position line (column + c.utf8Size) (n - c.utf8Size) rest

/-- Reads a text that is one JSON tree between blanks. -/
def parse (text : String) : Except ParseError Json :=
  let s := text.toList
  let read : Except Fault Json := do
    let (j, rest) ← value (3 * s.length + 3) maxNesting s
    match skipBlanks rest with
    | [] => pure j
    | rest => throw (.past .trailingCharacters 1 rest)
  match read with
  | .ok j => .ok j
  | .error fault =>
    let (line, column) := position 1 0 (byteCount s - fault.bytesLeft) s
    .error ⟨fault.cause, line, column⟩

end OscHost.Json
