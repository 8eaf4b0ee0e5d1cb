import Multiplex.Rpc.Process
import Multiplex.Rpc.Reply

/-!
Services, and middlewares that wrap them. A service answers a request, or raises a fault that is
hidden from the caller.
-/

namespace Multiplex.Rpc

/-- A request as a service sees it. Its payload is read through the process that serves it. -/
structure Incoming where
  path : String
  operation : String
  oneway : Bool := false
  fields : Fields RequestKey := Fields.empty
  features : Features := Features.empty

def Incoming.text (r : Incoming) : String := "'" ++ r.operation ++ "' on '" ++ r.path ++ "'"

abbrev Service := Incoming → Process (Except Fault Reply)

abbrev Middleware := Service → Service

/-- Wraps `target` in all middlewares, the first one outermost. -/
def compose (middlewares : List Middleware) (target : Service) : Service :=
  middlewares.foldr (fun m next => m next) target

/-- What takes the place of an outcome where faults must not pass. -/
def Reply.ofOutcome : Except Fault Reply → Reply
  | .ok reply => reply
  | .error _ => .internalError

/-- Replaces every fault by the same reply. -/
def contained (s : Service) (r : Incoming) : Process Reply :=
  (s r).bind fun o => .done (.ofOutcome o)

/-- Serves one request on its own: nothing happens around it, and no gate is open. The reply is let
go afterwards. There is no outcome if the service waits. -/
def attempt (work : Process (Except Fault Reply)) (payload : Payload) (givenUp : Bool) :
    Option (Except Fault Reply) × List Event :=
  let connection : Connection := { role := .server, options := {}, codes := Code.space }
  let start : Scene := { connection, payload }
  match work.run ⟨0, [], givenUp⟩ start with
  | (.done (.ok reply), s) => (some (.ok reply), s.complete.log ++ Event.told reply.drop)
  | (.done (.error f), s) => (some (.error f), s.complete.log)
  | (.calling .., s) | (.paused .., s) => (none, s.log)

end Multiplex.Rpc
