/-!
  The capability flags.  All are off unless the operator sets them at startup.
-/

namespace OscHost

/-- What scripts may do beyond the sandbox. -/
structure Policy where
  nativeLibraries : Bool := false
  foreignModules : Bool := false
  unrestrictedFiles : Bool := false
  processes : Bool := false
  debug : Bool := false
  deriving DecidableEq, Repr

/-- The word for a truth value. -/
def boolText (b : Bool) : String := if b then "true" else "false"

/-- A policy as the log shows it. -/
def Policy.text (p : Policy) : String :=
  "SandboxPolicy \x7b allow_native_library_loading: " ++ boolText p.nativeLibraries
    ++ ", allow_foreign_native_modules: " ++ boolText p.foreignModules
    ++ ", allow_unrestricted_io: " ++ boolText p.unrestrictedFiles
    ++ ", allow_process_execution: " ++ boolText p.processes
    ++ ", allow_debug_introspection: " ++ boolText p.debug ++ " \x7d"

end OscHost
