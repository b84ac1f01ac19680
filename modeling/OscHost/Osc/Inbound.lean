import OscHost.Boundary
import OscHost.Json.Parser
import OscHost.Osc.Endpoint
/-!
  Inbound lines: one JSON object a line.

  The shape of the object says what it is, tried in this order: a message has a text `address` and
  perhaps an array `values`; a discovery record has `endpoints`, an object of types; a click has an
  array of texts `click`.  Other members are ignored, and a shape does not match when one of its own
  members is written twice.
-/

namespace OscHost.Osc

/-- What an inbound line says. -/
inductive Inbound
  | message (address : String) (values : List BoundaryValue)
  | endpoints (types : Registry)
  | click (path : List String)

namespace Inbound

/-- A member written exactly once; `none` inside when it is absent. -/
def single? (members : List (String × Json)) (name : String) : Option (Option Json) :=
  match members.filter fun m => m.1 == name with
  | [] => some none
  | [m] => some (some m.2)
  | _ => none

/-- The text of a string. -/
def text? : Json → Option String
  | .string s => some s
  | _ => none

/-- A type is its word, or an object with the word as its only name and null. -/
def type? : Json → Option EndpointType
  | .string s => EndpointType.ofName? s
  | .object [(name, .null)] => EndpointType.ofName? name
  | _ => none

/-- The shape of a message. -/
def message? (members : List (String × Json)) : Option Inbound := do
  let address ← text? (← ← single? members "address")
  match ← single? members "values" with
  | none => pure (.message address [])
  | some (.array items) => pure (.message address (items.map BoundaryValue.ofJson))
  | some _ => none

/-- The shape of a discovery record. -/
def endpoints? (members : List (String × Json)) : Option Inbound := do
  match ← ← single? members "endpoints" with
  | .object types =>
    let types ← types.mapM fun m => (type? m.2).map fun t => (m.1, t)
    pure (.endpoints (Registry.extend {} types))
  | _ => none

/-- The shape of a click. -/
def click? (members : List (String × Json)) : Option Inbound := do
  match ← ← single? members "click" with
  | .array items => pure (.click (← items.mapM text?))
  | _ => none

/-- What a tree says, if any shape matches. -/
def ofJson? : Json → Option Inbound
  | .object members => message? members <|> endpoints? members <|> click? members
  | _ => none

/-- Why a line is refused. -/
inductive Refusal
  | notJson (e : Json.ParseError)
  | noShape

/-- The wording of a refusal. -/
def Refusal.message : Refusal → String
  | .notJson e => e.message
  | .noShape => "data did not match any variant of untagged enum InboundFrame"

/-- Reads one line. -/
def parse (line : String) : Except Refusal Inbound :=
  match Json.parse line with
  | .error e => .error (.notJson e)
  | .ok j =>
    match ofJson? j with
    | some inbound => .ok inbound
    | none => .error .noShape

end Inbound

end OscHost.Osc
