import Multiplex.Failure
import Multiplex.Rpc.Status

/-!
Why a remote call fails, and the fault that a service raises.
-/

namespace Multiplex.Rpc

inductive NetworkFault
  | alreadyBound (address : String)
  | nothingListening (address : String)
  | listenerClosed (address : String)
  | unbound
  | pipe (fault : PipeFault)
  | stated (reason : String)
  deriving DecidableEq, Repr

def NetworkFault.message : NetworkFault → String
  | .alreadyBound address => s!"{address} already bound"
  | .nothingListening address => s!"nothing listening on {address}"
  | .listenerClosed address => s!"listener on {address} closed"
  | .unbound => "listener unbound"
  | .pipe fault => fault.message
  | .stated reason => reason

inductive HeaderFault
  | truncated
  | stated (reason : String)
  deriving DecidableEq, Repr

def HeaderFault.message : HeaderFault → String
  | .truncated => "stream ended inside the header"
  | .stated reason => reason

inductive Error
  | transport (cause : Failure)
  /-- A header is no text of its format. -/
  | undecodable
  | unencodable
  | invalidHeader (cause : HeaderFault)
  | headerTooLarge (size max : Nat)
  | requestAlreadySent
  | requestDisposed
  | deadlineExceeded
  | cancelled
  | payload (reason : String)
  | invalidAddress (text : String)
  | network (cause : NetworkFault)
  | remote (status : Status) (message : String)
  deriving DecidableEq, Repr

namespace Error

def message : Error → String
  | .transport cause => s!"transport error: {cause.message}"
  | .undecodable => "header codec error"
  | .unencodable => "header codec error"
  | .invalidHeader cause => s!"invalid header: {cause.message}"
  | .headerTooLarge size max => s!"header of {size} bytes exceeds the {max} byte limit"
  | .requestAlreadySent => "request was already sent"
  | .requestDisposed => "request was disposed"
  | .deadlineExceeded => "deadline exceeded"
  | .cancelled => "invocation cancelled"
  | .payload reason => s!"payload error: {reason}"
  | .invalidAddress text => s!"invalid service address '{text}'"
  | .network cause => s!"network error: {cause.message}"
  | .remote status message => s!"remote returned {status.text}: {message}"

/-- A cancelled transport operation is a cancelled call. -/
def ofFailure : Failure → Error
  | .cancelled => .cancelled
  | cause => .transport cause

end Error

/-- A fault that a service or a middleware raised instead of answering. -/
structure Fault where
  message : String
  deriving DecidableEq, Inhabited, Repr

def Fault.ofError (e : Error) : Fault := ⟨e.message⟩

def Fault.ofFailure (e : Failure) : Fault := ⟨e.message⟩

end Multiplex.Rpc
