import OscHost.Json.Value
import OscHost.Number.Layout
/-!
  JSON text of a tree: compact, or indented by two spaces a level.  Non-finite numbers are written
  as null; non-ASCII characters stand for themselves.
-/

namespace OscHost.Json

/-- One character inside a JSON string. -/
def escapedChar (c : Char) : String :=
  match c with
  | '"' => "\\\""
  | '\\' => "\\\\"
  | '\x08' => "\\b"
  | '\x0c' => "\\f"
  | '\n' => "\\n"
  | '\r' => "\\r"
  | '\t' => "\\t"
  | c =>
    if c.toNat < 0x20 then
      let digits := Nat.toDigits 16 c.toNat
      "\\u" ++ String.ofList (List.replicate (4 - digits.length) '0' ++ digits)
    else String.singleton c

/-- The JSON form of a string. -/
def quote (s : String) : String :=
  if s.toList.all fun c => c != '"' && c != '\\' && 0x20 ≤ c.toNat then "\"" ++ s ++ "\""
  else "\"" ++ String.join (s.toList.map escapedChar) ++ "\""

/-- Text of a tree that is not an array or object with entries. -/
def scalarText : Json → String
  | .null => "null"
  | .bool true => "true"
  | .bool false => "false"
  | .int n => toString n
  | .float x => Number.Layout.json.float x
  | .string s => quote s
  | .array _ => "[]"
  | .object _ => "\x7b\x7d"

mutual

/-- Appends the compact text of a tree. -/
def writeCompact (acc : String) : Json → String
  | .array items => writeItems (acc ++ "[") items ++ "]"
  | .object members => writeMembers (acc ++ "\x7b") members ++ "\x7d"
  | j => acc ++ scalarText j

/-- Appends items with commas between them. -/
def writeItems (acc : String) : List Json → String
  | [] => acc
  | [j] => writeCompact acc j
  | j :: rest => writeItems (writeCompact acc j ++ ",") rest

/-- Appends members with commas between them. -/
def writeMembers (acc : String) : List (String × Json) → String
  | [] => acc
  | [(name, j)] => writeCompact (acc ++ quote name ++ ":") j
  | (name, j) :: rest => writeMembers (writeCompact (acc ++ quote name ++ ":") j ++ ",") rest

end

/-- Compact text. -/
def compact (j : Json) : String := writeCompact "" j

/-- Appends a line break and the indentation of a level. -/
def lineBreak (acc : String) (level : Nat) : String :=
  acc ++ "\n" ++ String.ofList (List.replicate (2 * level) ' ')

mutual

/-- Appends the indented text of a tree at a level. -/
def writeIndented (level : Nat) (acc : String) : Json → String
  | .array (j :: rest) =>
    lineBreak (indentItems (level + 1) (acc ++ "[") (j :: rest)) level ++ "]"
  | .object (m :: rest) =>
    lineBreak (indentMembers (level + 1) (acc ++ "\x7b") (m :: rest)) level ++ "\x7d"
  | j => acc ++ scalarText j

/-- Appends items, each on lines of its own. -/
def indentItems (level : Nat) (acc : String) : List Json → String
  | [] => acc
  | [j] => writeIndented level (lineBreak acc level) j
  | j :: rest => indentItems level (writeIndented level (lineBreak acc level) j ++ ",") rest

/-- Appends members, each on lines of its own. -/
def indentMembers (level : Nat) (acc : String) : List (String × Json) → String
  | [] => acc
  | [(name, j)] => writeIndented level (lineBreak acc level ++ quote name ++ ": ") j
  | (name, j) :: rest =>
    indentMembers level (writeIndented level (lineBreak acc level ++ quote name ++ ": ") j ++ ",")
      rest

end

/-- Indented text. -/
def indented (j : Json) : String := writeIndented 0 "" j

end OscHost.Json
