/-!
  Endpoints and the types they declare.

  A registry maps an address to the type declared for it last.
-/

namespace OscHost.Osc

/-- The type an endpoint declares for its argument. -/
inductive EndpointType
  | int
  | float
  | double
  | bool
  | string
  deriving DecidableEq, Repr

namespace EndpointType

/-- The word for a type. -/
def name : EndpointType → String
  | .int => "int"
  | .float => "float"
  | .double => "double"
  | .bool => "bool"
  | .string => "string"

/-- All types. -/
def all : List EndpointType := [.int, .float, .double, .bool, .string]

/-- The type a word stands for. -/
def ofName? (s : String) : Option EndpointType := all.find? fun t => t.name == s

end EndpointType

/-- The declared types: one entry an address. -/
structure Registry where
  entries : List (String × EndpointType) := []

namespace Registry

/-- The type declared for an address. -/
def get? (r : Registry) (address : String) : Option EndpointType :=
  (r.entries.find? fun e => e.1 == address).map (·.2)

/-- Entries with one address declared anew, in place if it was known. -/
def declareIn (address : String) (type : EndpointType) :
    List (String × EndpointType) → List (String × EndpointType)
  | [] => [(address, type)]
  | e :: rest =>
    if e.1 = address then (address, type) :: rest else e :: declareIn address type rest

/-- Declares the type of one address. -/
def declare (r : Registry) (address : String) (type : EndpointType) : Registry :=
  ⟨declareIn address type r.entries⟩

/-- Declares types in order; the last for an address counts. -/
def extend (r : Registry) (defs : List (String × EndpointType)) : Registry :=
  defs.foldl (fun r d => r.declare d.1 d.2) r

/-- The count of known addresses. -/
def size (r : Registry) : Nat := r.entries.length

end Registry

end OscHost.Osc
