import OscHost.Boundary
/-!
  Events that the rest of the program hands to the scripts.
-/

namespace OscHost

/-- Something that scripts are told. -/
inductive Event
  /-- Run a global function on a new thread. -/
  | call (name : String) (args : List BoundaryValue)
  /-- A message has come in. -/
  | message (address : String) (values : List BoundaryValue)
  /-- Endpoints are known. -/
  | endpointsDiscovered
  | updateMenu (trigger : String)
  /-- The names from the menu's root down to the item that was clicked. -/
  | menuClicked (path : List String)
  | shutdown

/-- The word for the kind of an event. -/
def Event.kind : Event → String
  | .call .. => "call"
  | .message .. => "message"
  | .endpointsDiscovered => "endpoints_discovered"
  | .updateMenu _ => "update_menu"
  | .menuClicked _ => "menu_clicked"
  | .shutdown => "shutdown"

end OscHost
