import OscHost.Error
import OscHost.Json.Printer
/-!
  The tray menu and the tree it is written as.

  A script returns a list of items: a text is a plain entry, the text `-` a separator, and an object
  an entry with a name and perhaps a flag and children.  `Menu.parse` accepts exactly that grammar
  and `MenuItem.toJson` writes it, leaving out what is at its default.
-/

namespace OscHost

/-- One line of a menu. -/
inductive MenuItem
  | separator
  | entry (name : String) (disabled : Bool) (children : List MenuItem)
  deriving Repr

namespace MenuItem

/-- The text of a separator. -/
def separatorMark : String := "-"

mutual

/-- The tree of an item. -/
def toJson : MenuItem → Json
  | .separator => .string separatorMark
  | .entry name disabled children =>
    .object <| ("name", .string name)
      :: (if disabled then [("disabled", .bool true)] else [])
      ++ (match children with
        | [] => []
        | item :: rest => [("children", .array (item.toJson :: itemsToJson rest))])

/-- The trees of some items. -/
def itemsToJson : List MenuItem → List Json
  | [] => []
  | item :: rest => item.toJson :: itemsToJson rest

end

/-- What has been read of an object: its name, flag and children. -/
structure Fields where
  name : Option String := none
  disabled : Bool := false
  children : List MenuItem := []

mutual

/-- Reads one item. -/
def ofJson? : Json → Option MenuItem
  | .string s => some (if s = separatorMark then .separator else .entry s false [])
  | .object members => do
    let fields ← fieldsOf? {} members
    let name ← fields.name
    some (.entry name fields.disabled fields.children)
  | _ => none

/-- Reads the members of an object; those without a meaning are passed over. -/
def fieldsOf? (fields : Fields) : List (String × Json) → Option Fields
  | [] => some fields
  | ("name", value) :: rest =>
    match value with
    | .string s => fieldsOf? { fields with name := some s } rest
    | _ => none
  | ("disabled", value) :: rest =>
    match value with
    | .bool b => fieldsOf? { fields with disabled := b } rest
    | _ => none
  | ("children", value) :: rest =>
    match value with
    | .array items =>
      match itemsOf? items with
      | some children => fieldsOf? { fields with children } rest
      | none => none
    | _ => none
  | _ :: rest => fieldsOf? fields rest

/-- Reads a list of items: all of them or nothing. -/
def itemsOf? : List Json → Option (List MenuItem)
  | [] => some []
  | j :: rest =>
    match ofJson? j with
    | some item => (itemsOf? rest).map (item :: ·)
    | none => none

end

end MenuItem

/-- The word for the kind of a tree. -/
def Json.kind : Json → String
  | .null => "nil"
  | .bool _ => "boolean"
  | .int _ | .float _ => "number"
  | .string _ => "string"
  | .array _ => "list"
  | .object _ => "table"

namespace Menu

/-- The tree of a menu. -/
def toJson (items : List MenuItem) : Json := .array (MenuItem.itemsToJson items)

/-- Reads the tree a menu script returned. -/
def parse : Json → Except HostError (List MenuItem)
  | .array items =>
    match MenuItem.itemsOf? items with
    | some menu => .ok menu
    | none => .error (.configLoad
        "malformed menu: data did not match any variant of untagged enum RawMenuItem")
  | .null => .error (.configLoad "menu script returned nothing")
  | other => .error (.configLoad ("menu script must return a list, got " ++ other.kind))

end Menu

end OscHost
