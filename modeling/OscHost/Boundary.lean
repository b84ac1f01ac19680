import OscHost.Json.Value
/-!
  Plain values that cross between the host and its scripts.

  Anything without a counterpart on the other side is `unsupported` and carries the name of its
  kind, so that whoever passes it on decides how to degrade.
-/

namespace OscHost

/-- A value at the boundary between host and script. -/
inductive BoundaryValue
  | nil
  | boolean (b : Bool)
  | integer (n : Int64)
  | float (x : Float)
  | string (s : String)
  | unsupported (kind : String)

namespace BoundaryValue

/-- The word for the kind of a value. -/
def kind : BoundaryValue → String
  | .nil => "nil"
  | .boolean _ => "boolean"
  | .integer _ => "integer"
  | .float _ => "float"
  | .string _ => "string"
  | .unsupported kind => kind

/-- The value of a JSON tree; integers beyond 64 bits are doubles. -/
def ofJson : Json → BoundaryValue
  | .null => .nil
  | .bool b => .boolean b
  | .int n => if Json.fitsWord n then .integer (Int64.ofInt n) else .float (Float.ofInt n)
  | .float x => .float x
  | .string s => .string s
  | .array _ => .unsupported "array"
  | .object _ => .unsupported "object"

end BoundaryValue

end OscHost
