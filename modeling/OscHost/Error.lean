/-!
  Errors of the host.

  Only `hostFatal` ends the program.  Everything a script can bring about is told to the script or
  logged, and the host goes on.
-/

namespace OscHost

/-- What went wrong, by kind. -/
inductive HostError
  /-- A path lies outside every jail, or a protected table was written. -/
  | policyViolation (detail : String)
  /-- A capability was used while its flag is off. -/
  | capabilityDenied (capability : String)
  /-- A logical thread ended with an error, or could not be run. -/
  | runtime (detail : String)
  /-- A value could not be converted to or from a tree or text. -/
  | marshal (detail : String)
  /-- A configuration script is malformed. -/
  | configLoad (detail : String)
  /-- The host could not be set up. -/
  | hostFatal (detail : String)
  /-- The script machine reported an error outside any logical thread. -/
  | script (detail : String)
  /-- The file system refused an operation. -/
  | files (detail : String)
  deriving DecidableEq, Repr

/-- The wording of an error. -/
def HostError.message : HostError → String
  | .policyViolation detail => "policy violation: " ++ detail
  | .capabilityDenied capability => "capability denied: " ++ capability
  | .runtime detail => "script error: " ++ detail
  | .marshal detail => "marshal error: " ++ detail
  | .configLoad detail => "config load failed: " ++ detail
  | .hostFatal detail => "host fatal: " ++ detail
  | .script detail => detail
  | .files detail => "io error: " ++ detail

end OscHost
