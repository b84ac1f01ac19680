import OscHost.Number.Numeral
import OscHost.Script.Bytes
/-!
  Source text read as tokens.

  Reading stops at the first malformed token.  It stands at the end of the list with its complaint,
  which counts only when the parser gets that far.
-/

namespace OscHost.Script

/-- A word of the language. -/
inductive Token
  | name (s : String)
  | string (s : Bytes)
  | int (n : Int64)
  | float (x : Float)
  | symbol (s : String)
  | eof
  | malformed (complaint : Bytes)

/-- A token, the line on which it ends, and its spelling where complaints quote it. -/
structure Lexeme where
  token : Token
  line : Nat
  spelling : List Char := []

namespace Token

/-- The words that are not names. -/
def reserved : List String :=
  ["and", "break", "do", "else", "elseif", "end", "false", "for", "function", "goto", "if", "in",
    "local", "nil", "not", "or", "repeat", "return", "then", "true", "until", "while"]

/-- Whether a character starts a name. -/
def startsName (c : Char) : Bool := c.isAlpha || c == '_'

/-- Whether a character continues a name. -/
def continuesName (c : Char) : Bool := c.isAlphanum || c == '_'

/-- The blanks that do not end a line. -/
def isSpace (c : Char) : Bool := c == ' ' || c == '\t' || c == '\x0b' || c == '\x0c'

/-- Drops a line end of one or two characters. -/
def dropLineEnd : List Char → List Char
  | '\n' :: '\r' :: rest | '\r' :: '\n' :: rest => rest
  | _ :: rest => rest
  | [] => []

/-- Whether a character ends a line. -/
def isLineEnd (c : Char) : Bool := c == '\n' || c == '\r'

/-- The bytes of a code point below `2^31` in the unrestricted form of UTF-8. -/
def extendedUtf8 (n : Nat) : List Char :=
  if n < 0x80 then [Char.ofNat n]
  else
    -- continuation bytes are split off until the rest fits the lead byte
    let rec split (n room : Nat) (tail : List Char) : Nat → List Char
      | 0 => tail
      | fuel + 1 =>
        let tail := Char.ofNat (0x80 + n % 64) :: tail
        let n := n / 64
        let room := room / 2
        if n ≤ room then Char.ofNat ((255 - (2 * room + 1)) % 256 + n) :: tail
        else split n room tail fuel
    split n 0x3f [] 8

/-- A complaint about the text read so far. -/
def complaint (message : String) (spelling : List Char) : Token :=
  .malformed (Bytes.ofText (message ++ " near '") ++ Bytes.ofChars spelling ++ Bytes.ofText "'")

/-! ## Long brackets -/

/-- The level of a long bracket and what follows it, after its first square bracket. -/
def longLevel (s : List Char) : Option (Nat × List Char) :=
  let signs := s.takeWhile (· == '=')
  match s.dropWhile (· == '=') with
  | '[' :: rest => some (signs.length, rest)
  | _ => none

/-- Whether a closing bracket of the level follows a first `]`. -/
def closesLevel (level : Nat) (s : List Char) : Option (List Char) :=
  if (s.take level).length = level ∧ (s.take level).all (· == '=') then
    match s.drop level with
    | ']' :: rest => some rest
    | _ => none
  else none

/-- Reads to the closing bracket of a level; `acc` holds the content, last first.  Nothing when the
    text ends before. -/
def longBody (level : Nat) : (fuel line : Nat) → (acc s : List Char) →
    Option (List Char × Nat × List Char)
  | 0, _, _, _ => none
  | _ + 1, _, _, [] => none
  | fuel + 1, line, acc, c :: rest =>
    if c = ']' then
      match closesLevel level rest with
      | some after => some (acc.reverse, line, after)
      | none => longBody level fuel line (c :: acc) rest
    else if isLineEnd c then longBody level fuel (line + 1) ('\n' :: acc) (dropLineEnd (c :: rest))
    else longBody level fuel line (c :: acc) rest

/-- A first line end inside a long bracket does not belong to the content. -/
def dropFirstLineEnd (line : Nat) (s : List Char) : Nat × List Char :=
  match s with
  | c :: _ => if isLineEnd c then (line + 1, dropLineEnd s) else (line, s)
  | [] => (line, s)

/-! ## Quoted strings -/

/-- The line reached, the content read and the text after it, or a complaint. -/
abbrev Scan := Except (Nat × Token) (Nat × List Char × List Char)

/-- Reads up to three decimal digits of an escape. -/
def decimalEscape (s : List Char) : Nat × List Char × List Char :=
  let digits := (s.take 3).takeWhile Char.isDigit
  (Number.Numeral.digitsValue 10 digits, digits, s.drop digits.length)

/-- Skips blanks and line ends after `\z`. -/
def skipGap : (fuel line : Nat) → List Char → Nat × List Char
  | 0, line, s => (line, s)
  | _ + 1, line, [] => (line, [])
  | fuel + 1, line, c :: rest =>
    if isLineEnd c then skipGap fuel (line + 1) (dropLineEnd (c :: rest))
    else if isSpace c then skipGap fuel line rest
    else (line, c :: rest)

/-- The hexadecimal digits of a code point escape after its brace, with their value; `seen` is the
    spelling so far, last first. -/
def codePoint (value : Nat) (seen : List Char) : List Char → Except (List Char × String) (Nat × List Char)
  | [] => .error (seen, "missing '\x7d'")
  | c :: rest =>
    if Number.Numeral.isDigitOf 16 c then
      let value := value * 16 + Number.Numeral.digitValue c
      if value < 0x80000000 then codePoint value (c :: seen) rest
      else .error (c :: seen, "UTF-8 value too large")
    else if c = '\x7d' then .ok (value, rest)
    else .error (c :: seen, "missing '\x7d'")

/-- The character of a one-letter escape. -/
def letterEscape? : Char → Option Char
  | 'a' => some '\x07'
  | 'b' => some '\x08'
  | 'f' => some '\x0c'
  | 'n' => some '\n'
  | 'r' => some '\r'
  | 't' => some '\t'
  | 'v' => some '\x0b'
  | '\\' => some '\\'
  | '"' => some '"'
  | '\'' => some '\''
  | _ => none

/-- Reads a string to its closing quote; `acc` holds its content, last first. -/
def quotedBody (quote : Char) : (fuel line : Nat) → (acc s : List Char) → Scan
  | 0, line, acc, _ => .error (line, complaint "unfinished string" (quote :: acc.reverse))
  | _ + 1, line, _, [] => .error (line, .malformed "unfinished string near <eof>")
  | fuel + 1, line, acc, c :: rest =>
    let fault (message : String) (extra : List Char) : Scan :=
      .error (line, complaint message (quote :: acc.reverse ++ extra))
    if c = quote then .ok (line, acc.reverse, rest)
    else if isLineEnd c then fault "unfinished string" []
    else if c ≠ '\\' then quotedBody quote fuel line (c :: acc) rest
    else match rest with
      | [] => .error (line, .malformed "unfinished string near <eof>")
      | e :: after =>
        match letterEscape? e with
        | some r => quotedBody quote fuel line (r :: acc) after
        | none =>
          if isLineEnd e then
            quotedBody quote fuel (line + 1) ('\n' :: acc) (dropLineEnd rest)
          else if e = 'z' then
            let (line, after) := skipGap (after.length + 1) line after
            quotedBody quote fuel line acc after
          else if e = 'x' then
            match after with
            | a :: b :: after' =>
              if ¬ Number.Numeral.isDigitOf 16 a then
                fault "hexadecimal digit expected" ['\\', 'x', a]
              else if ¬ Number.Numeral.isDigitOf 16 b then
                fault "hexadecimal digit expected" ['\\', 'x', a, b]
              else
                let n := Number.Numeral.digitsValue 16 [a, b]
                quotedBody quote fuel line (Char.ofNat n :: acc) after'
            | [a] =>
              fault "hexadecimal digit expected" ['\\', 'x', a]
            | [] => fault "hexadecimal digit expected" ['\\', 'x']
          else if e = 'u' then
            match after with
            | '\x7b' :: d :: after' =>
              if ¬ Number.Numeral.isDigitOf 16 d then
                fault "hexadecimal digit expected" ['\\', 'u', '\x7b', d]
              else
                match codePoint 0 ['\x7b', 'u', '\\'] (d :: after') with
                | .ok (n, after) =>
                  quotedBody quote fuel line ((extendedUtf8 n).reverse ++ acc) after
                | .error (seen, message) => fault message seen.reverse
            | ['\x7b'] => fault "hexadecimal digit expected" ['\\', 'u', '\x7b']
            | d :: _ => fault "missing '\x7b'" ['\\', 'u', d]
            | [] => fault "missing '\x7b'" ['\\', 'u']
          else if e.isDigit then
            let (n, digits, after) := decimalEscape rest
            if n ≤ 255 then quotedBody quote fuel line (Char.ofNat n :: acc) after
            else fault "decimal escape too large" ('\\' :: digits ++ after.take 1)
          else fault "invalid escape sequence" ['\\', e]

/-! ## Numerals -/

/-- The characters of a numeral, well formed or not, last first, and what follows. -/
def numeralSpan (marks : List Char) : (fuel : Nat) → (acc s : List Char) → List Char × List Char
  | 0, acc, s => (acc, s)
  | _ + 1, acc, [] => (acc, [])
  | fuel + 1, acc, c :: rest =>
    if marks.contains c then
      match rest with
      | '+' :: rest => numeralSpan marks fuel ('+' :: c :: acc) rest
      | '-' :: rest => numeralSpan marks fuel ('-' :: c :: acc) rest
      | rest => numeralSpan marks fuel (c :: acc) rest
    else if Number.Numeral.isDigitOf 16 c || c == '.' then numeralSpan marks fuel (c :: acc) rest
    else if startsName c then (c :: acc, rest)
    else (acc, c :: rest)

/-- Reads a numeral. -/
def numeral (s : List Char) : Token × List Char × List Char :=
  let (start, marks, body) := match s with
    | '0' :: 'x' :: rest => (['x', '0'], ['p', 'P'], rest)
    | '0' :: 'X' :: rest => (['X', '0'], ['p', 'P'], rest)
    | c :: rest => ([c], ['e', 'E'], rest)
    | [] => ([], [], [])
  let (spelling, rest) := numeralSpan marks (body.length + 1) start body
  let spelling := spelling.reverse
  match Number.Numeral.unsigned? spelling with
  | some (.int n, []) => (.int n, spelling, rest)
  | some (.float x, []) => (.float x, spelling, rest)
  | _ => (complaint "malformed number" spelling, spelling, rest)

/-! ## Symbols -/

/-- The symbols of more than one character, longer ones first. -/
def longSymbols : List (List Char) :=
  [['.', '.', '.'], ['.', '.'], ['=', '='], ['<', '='], ['>', '='], ['~', '='], ['<', '<'],
    ['>', '>'], ['/', '/'], [':', ':']]

/-- The symbol at the front of a non-empty text. -/
def frontSymbol (s : List Char) : List Char × List Char :=
  match longSymbols.find? fun sym => sym.isPrefixOf s with
  | some sym => (sym, s.drop sym.length)
  | none => (s.take 1, s.drop 1)

end Token

open Token in
/-- Reads tokens from a line on; `acc` holds those read, last first. -/
def lexFrom : (fuel line : Nat) → (acc : List Lexeme) → List Char → List Lexeme
  | 0, line, acc, _ => (⟨.eof, line, []⟩ :: acc).reverse
  | _ + 1, line, acc, [] => (⟨.eof, line, []⟩ :: acc).reverse
  | fuel + 1, line, acc, c :: rest =>
    let stop (line : Nat) (t : Token) : List Lexeme := (⟨t, line, []⟩ :: acc).reverse
    if isSpace c then lexFrom fuel line acc rest
    else if isLineEnd c then lexFrom fuel (line + 1) acc (dropLineEnd (c :: rest))
    else if c = '-' && rest.head? == some '-' then
      let after := rest.drop 1
      let lineComment := lexFrom fuel line acc (after.dropWhile fun c => ¬ isLineEnd c)
      match after with
      | '[' :: inner =>
        match longLevel inner with
        | some (level, body) =>
          let (line', body) := dropFirstLineEnd line body
          match longBody level (body.length + 1) line' [] body with
          | some (_, line', rest) => lexFrom fuel line' acc rest
          | none =>
            let last := line' + (body.filter (· == '\n')).length
            stop last (.malformed (Bytes.ofText
              ("unfinished long comment (starting at line " ++ toString line ++ ") near <eof>")))
        | none => lineComment
      | _ => lineComment
    else if c = '[' && (rest.head? == some '[' || rest.head? == some '=') then
      match longLevel rest with
      | some (level, body) =>
        let (line', body) := dropFirstLineEnd line body
        match longBody level (body.length + 1) line' [] body with
        | some (content, line', after) =>
          let fence := '[' :: List.replicate level '=' ++ ['[']
          let close := ']' :: List.replicate level '=' ++ [']']
          lexFrom fuel line' (⟨.string (Bytes.ofChars content), line', fence ++ content ++ close⟩ :: acc)
            after
        | none =>
          let last := line' + (body.filter (· == '\n')).length
          stop last (.malformed (Bytes.ofText
            ("unfinished long string (starting at line " ++ toString line ++ ") near <eof>")))
      | none =>
        let signs := rest.takeWhile (· == '=')
        stop line (complaint "invalid long string delimiter" ('[' :: signs))
    else if c = '"' || c = '\'' then
      match quotedBody c (rest.length + 1) line [] rest with
      | .ok (line, content, after) =>
        lexFrom fuel line (⟨.string (Bytes.ofChars content), line, c :: content ++ [c]⟩ :: acc) after
      | .error (line, t) => stop line t
    else if c.isDigit || (c = '.' && (rest.head?.map Char.isDigit).getD false) then
      match numeral (c :: rest) with
      | (.malformed m, _, _) => stop line (.malformed m)
      | (t, spelling, after) => lexFrom fuel line (⟨t, line, spelling⟩ :: acc) after
    else if startsName c then
      let word := c :: rest.takeWhile continuesName
      let s := String.ofList word
      let t := if reserved.contains s then .symbol s else .name s
      lexFrom fuel line (⟨t, line, word⟩ :: acc) (rest.dropWhile continuesName)
    else
      let (sym, after) := frontSymbol (c :: rest)
      lexFrom fuel line (⟨.symbol (String.ofList sym), line, sym⟩ :: acc) after

/-- The tokens of a source text, the end of text last. -/
def lex (source : Bytes) : List Lexeme :=
  let s := source.toChars
  lexFrom (s.length + 1) 1 [] s

/-- A token as complaints quote it. -/
def Lexeme.near (l : Lexeme) : Bytes :=
  match l.token with
  | .eof => "<eof>"
  | .name _ | .string _ | .int _ | .float _ =>
    Bytes.ofText "'" ++ Bytes.ofChars (l.spelling.takeWhile (· != '\x00')) ++ Bytes.ofText "'"
  | .symbol s =>
    match s.toList with
    | [c] =>
      if 0x20 ≤ c.toNat && c.toNat < 0x7f then "'" ++ s ++ "'"
      else "'<\\" ++ toString c.toNat ++ ">'"
    | _ => "'" ++ s ++ "'"
  | .malformed complaint => complaint

end OscHost.Script
