import OscHost.Menu
/-!
  Settings that the configuration script returns.

  Only `io_dirs` has a meaning, one directory or a list of them; every other name is remembered so
  that it can be told.
-/

namespace OscHost

/-- The path of the configuration script below the script root. -/
def configScript : String := "config/init.lua"

/-- What the configuration script asks for. -/
structure Settings where
  ioDirs : List String := []
  unknown : List String := []

namespace Settings

/-- The text of a string. -/
def text? : Json → Option String
  | .string s => some s
  | _ => none

/-- One directory or a list of them. -/
def dirs? : Json → Option (List String)
  | .string s => some [s]
  | .array items => items.mapM text?
  | _ => none

/-- Reads the tree the configuration script returned; null and an empty list ask for nothing. -/
def ofJson : Json → Except HostError Settings
  | .null | .array [] => .ok {}
  | .object members =>
    let unknown := (members.map (·.1)).filter (· != "io_dirs")
    match Json.lookup members "io_dirs" with
    | none => .ok { unknown }
    | some value =>
      match dirs? value with
      | some ioDirs => .ok { ioDirs, unknown }
      | none => .error (.configLoad
          (configScript ++ ": data did not match any variant of untagged enum IoDirs"))
  | other => .error (.configLoad
      (configScript ++ " must return a table, got " ++ other.kind))

end Settings

end OscHost
