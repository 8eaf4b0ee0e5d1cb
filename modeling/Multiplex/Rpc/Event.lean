import Multiplex.Rpc.Error
import Multiplex.Rpc.Features
import Multiplex.Rpc.Fields

/-!
What the parts of a service note while they work, for whoever watches.
-/

namespace Multiplex.Rpc

structure Entry where
  handler : String
  request : String
  oneway : Bool
  fields : Fields RequestKey
  features : Features

inductive Event
  /-- A middleware got a request. -/
  | before (name path : String)
  /-- A middleware got the reply to a request that it had passed on. -/
  | after (name : String) (status : Status)
  /-- A middleware got a fault instead. -/
  | faulted (name : String) (fault : Fault)
  | entered (entry : Entry)
  | endOfPayload
  | sawCancellation
  | failed (cause : Error)
  | body (bytes : Bytes)
  /-- A handler was dropped before its end. -/
  | dropped
  /-- A producer was told that it is no longer needed. -/
  | completed (name : String)

namespace Event

def text? : Event → Option String
  | .before name path => some (name ++ " before " ++ path)
  | .after name status => some (name ++ " after " ++ status.text)
  | .faulted name fault => some (name ++ " fault " ++ fault.message)
  | .endOfPayload => some "end of payload"
  | .sawCancellation => some "handler saw cancellation"
  | .dropped => some "handler dropped"
  | .completed name => some (name ++ " completed")
  | .entered _ | .failed _ | .body _ => none

def told (names : List String) : List Event := names.map .completed

end Event

end Multiplex.Rpc
