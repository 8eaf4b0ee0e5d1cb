import Multiplex.Rpc.Header
import Multiplex.Rpc.Source

/-!
Replies: what a service answers with.
-/

namespace Multiplex.Rpc

structure Reply where
  status : Status := .ok
  errorMessage : Option String := none
  fields : Fields ResponseKey := Fields.empty
  payload : Option Source := none

namespace Reply

def success : Reply := {}

def failure (status : Status) (message : String) : Reply := { status, errorMessage := some message }

def notFound (path : String) : Reply := failure .notFound s!"no dispatcher mapped to '{path}'"

/-- What stands in for a fault. It says nothing about the fault. -/
def internalError : Reply := failure .internalError "dispatch failed"

def deadlineExceeded : Reply := failure .deadlineExceeded "deadline exceeded"

/-- Sets the producer of the payload; one that was there is let go. -/
def withPayload (r : Reply) (s : Source) : List String × Reply :=
  (Source.told r.payload, { r with payload := some s })

def drop (r : Reply) : List String := Source.told r.payload

def header (r : Reply) : ResponseHeader := ⟨r.status, r.errorMessage, r.fields⟩

end Reply

end Multiplex.Rpc
