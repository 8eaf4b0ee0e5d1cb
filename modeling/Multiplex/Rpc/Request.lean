import Multiplex.Rpc.Address
import Multiplex.Rpc.Features
import Multiplex.Rpc.Header
import Multiplex.Rpc.Payload
import Multiplex.Rpc.Source

/-!
Requests on the side that sends them, and the responses they get.
-/

namespace Multiplex.Rpc

structure Response where
  status : Status
  errorMessage : Option String := none
  fields : Fields ResponseKey := Fields.empty
  payload : Payload
  disposed : Bool := false

namespace Response

/-- Whether the request succeeded. A failure without a message is described by its status. -/
def check (r : Response) : Except Error Unit :=
  if r.status = .ok then .ok () else .error (.remote r.status (r.errorMessage.getD r.status.text))

def dispose (r : Response) : Released × Response :=
  if r.disposed then ({}, r)
  else
    let (released, payload) := r.payload.complete
    (released, { r with payload, disposed := true })

def readBuffered (r : Response) : Except Error (Bytes × Released × Response) :=
  if r.disposed then .error .requestDisposed
  else
    let (bytes, released, payload) := r.payload.takeAll
    .ok (bytes, released, { r with payload })

end Response

structure Request where
  address : Address
  operation : String := ""
  oneway : Bool := false
  features : Features := Features.empty
  fields : Fields RequestKey := Fields.empty
  payload : Option Source := none
  response : Option Response := none
  sent : Bool := false
  disposed : Bool := false

namespace Request

/-- Fields and payload change before the request is sent only. -/
def checkUnsent (r : Request) : Except Error Unit :=
  if r.disposed then .error .requestDisposed
  else if r.sent then .error .requestAlreadySent
  else .ok ()

def setField (r : Request) (key : RequestKey) (value : Bytes) : Except Error Request := do
  r.checkUnsent
  return { r with fields := r.fields.set key value }

/-- Sets the producer of the payload. One that was there is forgotten, and hears nothing of it. -/
def withPayload (r : Request) (s : Source) : Request := { r with payload := some s }

/-- Replaces the producer of the payload; the old one is let go. -/
def setPayload (r : Request) (s : Source) : Except Error (List String × Request) := do
  r.checkUnsent
  return (Source.told r.payload, { r with payload := some s })

/-- Makes a response current, after letting the previous one go. A disposed request takes none: the
response is let go at once. -/
def setResponse (r : Request) (response : Response) : Except Error Unit × Released × Request :=
  if r.disposed then (.error .requestDisposed, response.dispose.1, r)
  else
    let released := match r.response with
      | some previous => previous.dispose.1
      | none => {}
    (.ok (), released, { r with response := some response })

/-- Lets producer and response go. -/
def dispose (r : Request) : Released × Request :=
  if r.disposed then ({}, r)
  else
    let told := Source.told r.payload
    match r.response with
    | some response =>
      let (released, response) := response.dispose
      ({ told } ++ released,
        { r with disposed := true, payload := none, response := some response })
    | none => ({ told }, { r with disposed := true, payload := none })

/-- Freezes the request, and hands its payload over. -/
def beginSend (r : Request) : Except Error (Option Source × Request) := do
  r.checkUnsent
  return (r.payload, { r with sent := true, payload := none })

def text (r : Request) : String := "'" ++ r.operation ++ "' on '" ++ r.address.text ++ "'"

end Request

end Multiplex.Rpc
