import Multiplex.CodeSpace

/-!
The outcome that a response carries, and the error codes of resets and closes between the two sides
of a remote call.
-/

namespace Multiplex.Rpc

inductive Status
  | ok
  | applicationError
  | notFound
  | notImplemented
  | invalidData
  | unauthorized
  | deadlineExceeded
  | canceled
  | unavailable
  | internalError
  deriving DecidableEq, Repr

namespace Status

def all : List Status :=
  [.ok, .applicationError, .notFound, .notImplemented, .invalidData, .unauthorized,
    .deadlineExceeded, .canceled, .unavailable, .internalError]

def name : Status → String
  | .ok => "Ok"
  | .applicationError => "ApplicationError"
  | .notFound => "NotFound"
  | .notImplemented => "NotImplemented"
  | .invalidData => "InvalidData"
  | .unauthorized => "Unauthorized"
  | .deadlineExceeded => "DeadlineExceeded"
  | .canceled => "Canceled"
  | .unavailable => "Unavailable"
  | .internalError => "InternalError"

def ofName? (s : String) : Option Status := all.find? fun st => st.name = s

def text : Status → String
  | .ok => "ok"
  | .applicationError => "application error"
  | .notFound => "not found"
  | .notImplemented => "not implemented"
  | .invalidData => "invalid data"
  | .unauthorized => "unauthorized"
  | .deadlineExceeded => "deadline exceeded"
  | .canceled => "canceled"
  | .unavailable => "unavailable"
  | .internalError => "internal error"

end Status

inductive Code
  | noError
  | internalError
  | canceled
  | unavailable
  | invalidData
  deriving DecidableEq, Repr

namespace Code

def value : Code → UInt64
  | .noError => 0
  | .internalError => 1
  | .canceled => 2
  | .unavailable => 3
  | .invalidData => 4

/-- Numbers that name no code count as internal errors. -/
def ofValue : UInt64 → Code
  | 0 => .noError
  | 2 => .canceled
  | 3 => .unavailable
  | 4 => .invalidData
  | _ => .internalError

def name : Code → String
  | .noError => "NoError"
  | .internalError => "InternalError"
  | .canceled => "Canceled"
  | .unavailable => "Unavailable"
  | .invalidData => "InvalidData"

def wireBase : UInt64 := 0x100

/-- Codes start at `wireBase` on the wire; what does not fit above it stops at the largest word, and
a wire code below it is an internal error. -/
def space : CodeSpace where
  toWire code := UInt64.ofNat (min (wireBase.toNat + code.toNat) (UInt64.size - 1))
  ofWire wire := if wire < wireBase then internalError.value else wire - wireBase
  resetCode
    | .cancelled => canceled.value
    | .disposed => noError.value
    | .refused => unavailable.value

end Code

end Multiplex.Rpc
