import OscHost.Json.Printer
import OscHost.Osc.Endpoint
import OscHost.Text.Quoted
/-!
  Outbound messages: an address and one argument.

  A script has one kind of number; `resolveNumber` gives it the type its endpoint declares.
  Integers are rounded to nearest, halves away from zero, and held to 32 bits.
-/

namespace OscHost.Osc

/-- One argument as it goes on the wire. -/
inductive Arg
  | nil
  | bool (b : Bool)
  | int (n : Int32)
  | float (x : Float32)
  | double (x : Float)
  | string (s : String)

/-- A message to an endpoint. -/
structure Message where
  address : String
  arg : Arg

/-- Why a send was refused. -/
inductive SendError
  | wrongType (address : String) (type : EndpointType)
  | unknownType (address : String)
  | notConnected
  | arity
  deriving DecidableEq, Repr

/-- The wording of a refusal. -/
def SendError.message : SendError → String
  | .wrongType address type =>
    "endpoint " ++ address ++ " expects " ++ type.name ++ ", not a number"
  | .unknownType address => "unknown endpoint type for " ++ address
  | .notConnected => "not connected"
  | .arity => "not implemented: send() takes 1 or 2 arguments"

/-- The least and the greatest integer on the wire. -/
def wireMin : Int := -0x80000000

@[inherit_doc wireMin] def wireMax : Int := 0x7FFFFFFF

/-- An integer held to the range of the wire. -/
def clampWire (n : Int) : Int := max wireMin (min n wireMax)

/-- The wire integer for a number: nearest, halves away from zero, held to the range; zero for
    NaN. -/
def wireInt : Number.Binary → Int
  | .nan => 0
  | .infinite negative => if negative then wireMin else wireMax
  | b => clampWire (b.nearest.getD 0)

/-- A script number as the argument its endpoint declares. -/
def resolveNumber (address : String) (x : Float) : Option EndpointType → Except SendError Arg
  | some .int => .ok (.int (Int32.ofInt (wireInt (.ofFloat x))))
  | some .float => .ok (.float x.toFloat32)
  | some .double => .ok (.double x)
  | some type => .error (.wrongType address type)
  | none => .error (.unknownType address)

namespace Arg

/-- The word for the type of an argument. -/
def typeName : Arg → String
  | .nil => "nil"
  | .bool _ => "bool"
  | .int _ => "int"
  | .float _ => "float"
  | .double _ => "double"
  | .string _ => "string"

/-- The value for people; nothing for nil. -/
def valueText : Arg → Option String
  | .nil => none
  | .bool b => some (if b then "true" else "false")
  | .int n => some (toString n.toInt)
  | .float x => some (Number.Layout.plain.float32 x)
  | .double x => some (Number.Layout.plain.float x)
  | .string s => some (Text.quoted s)

/-- The JSON text of the value; nothing for nil. -/
def valueJson : Arg → Option String
  | .nil => none
  | .bool b => some (if b then "true" else "false")
  | .int n => some (toString n.toInt)
  | .float x => some (Number.Layout.jsonSingle.float32 x)
  | .double x => some (Number.Layout.json.float x)
  | .string s => some (Json.quote s)

end Arg

namespace Message

/-- A message for people. -/
def text (m : Message) : String :=
  match m.arg.valueText with
  | none => m.address ++ " (nil)"
  | some value => m.address ++ " " ++ m.arg.typeName ++ " " ++ value

/-- A message as JSON text. -/
def json (m : Message) : String :=
  let value := match m.arg.valueJson with
    | none => ""
    | some value => ",\"value\":" ++ value
  "\x7b\"address\":" ++ Json.quote m.address ++ ",\"arg\":\x7b\"type\":\"" ++ m.arg.typeName ++ "\""
    ++ value ++ "\x7d\x7d"

end Message

end OscHost.Osc
