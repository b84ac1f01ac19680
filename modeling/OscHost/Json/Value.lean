/-!
  JSON trees.

  Integers and floating point numbers stay apart.  An object is a list of members; the parser
  keeps them as written, and `Json.canonical` is the form in which trees are stored and compared:
  members sorted by name, the last of several with one name kept.
-/

namespace OscHost

/-- A JSON tree. -/
inductive Json
  | null
  | bool (b : Bool)
  | int (n : Int)
  | float (x : Float)
  | string (s : String)
  | array (items : List Json)
  | object (members : List (String × Json))
  deriving Inhabited, Repr

namespace Json

/-- Keeps the last of neighbouring members with one name. -/
def lastOfEach : List (String × Json) → List (String × Json)
  | [] => []
  | [m] => [m]
  | m :: n :: rest => if m.1 = n.1 then lastOfEach (n :: rest) else m :: lastOfEach (n :: rest)

/-- Members sorted by name; where a name repeats, the last one written counts. -/
def sortMembers (members : List (String × Json)) : List (String × Json) :=
  lastOfEach (members.mergeSort fun a b => decide (a.1 ≤ b.1))

/-- The object with the given members. -/
def ofMembers (members : List (String × Json)) : Json := .object (sortMembers members)

/-- The value of a member; the last one counts. -/
def lookup (members : List (String × Json)) (name : String) : Option Json :=
  members.foldl (fun found m => if m.1 = name then some m.2 else found) none

mutual

/-- Every object with sorted members of distinct names. -/
def canonical : Json → Json
  | .array items => .array (canonicalItems items)
  | .object members => .object (sortMembers (canonicalMembers members))
  | j => j

/-- `canonical` on each item. -/
def canonicalItems : List Json → List Json
  | [] => []
  | j :: rest => canonical j :: canonicalItems rest

/-- `canonical` on the value of each member. -/
def canonicalMembers : List (String × Json) → List (String × Json)
  | [] => []
  | (name, j) :: rest => (name, canonical j) :: canonicalMembers rest

end

/-- Whether a number fits a signed 64-bit integer. -/
def fitsWord (n : Int) : Bool := decide (-0x8000000000000000 ≤ n) && decide (n < 0x8000000000000000)

end Json

end OscHost
