import OscHost.Boundary
import OscHost.Log
import OscHost.Osc.Message
/-!
  The outbound side of the transport.

  Messages that were accepted wait in `sent`, oldest first.  Once the receiving end is gone every
  send is refused, after its argument was resolved.
-/

namespace OscHost.Osc

/-- The declared endpoints, whether anyone receives, and the messages accepted so far. -/
structure Transport where
  registry : Registry := {}
  connected : Bool := true
  sent : Array Message := #[]

namespace Transport

/-- Hands over one message. -/
def push (t : Transport) (address : String) (arg : Arg) : Except SendError Transport :=
  if t.connected then .ok { t with sent := t.sent.push ⟨address, arg⟩ } else .error .notConnected

/-- Sends a number as the type its endpoint declares. -/
def sendNumber (t : Transport) (address : String) (x : Float) : Except SendError Transport := do
  let arg ← resolveNumber address x (t.registry.get? address)
  t.push address arg

/-- Sends the values of one call.  No value and nil are a bare message; a value without a wire
    form is sent as one, and told. -/
def dispatch (t : Transport) (address : String) :
    List BoundaryValue → Logged (Except SendError Transport)
  | [] | [.nil] => ⟨t.push address .nil, []⟩
  | [.boolean b] => ⟨t.push address (.bool b), []⟩
  | [.integer n] => ⟨t.sendNumber address (Number.ofWord n), []⟩
  | [.float x] => ⟨t.sendNumber address x, []⟩
  | [.string s] => ⟨t.push address (.string s), []⟩
  | [.unsupported kind] =>
    ⟨t.push address .nil, [.warn ("cannot send a " ++ kind ++ " to " ++ address ++ "; sending nil")]⟩
  | _ => ⟨.error .arity, []⟩

end Transport

end OscHost.Osc
