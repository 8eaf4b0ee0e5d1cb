import Multiplex.Rpc.Exchange
import Multiplex.Rpc.Request

/-!
The caller's work on a request: sending it, waiting for the response, and reading the response.
-/

namespace Multiplex.Rpc

/-- A request that is being sent, or waits for its response. -/
structure Invocation where
  request : Request
  stream : Nat
  source : Option Source
  deadline : Option Nat
  work : Halted (Except Error (Option ResponseHeader))

inductive Invoked
  | waiting (i : Invocation)
  | finished (result : Except Error Unit) (request : Request)

/-- Lets go of what a request or response held: producers are told, streams are given up. -/
def Scene.release (s : Scene) (r : Released) : Scene :=
  { s with
    connection := r.streams.foldl (fun c i => (c.abandonReads i).disposeStream i) s.connection
    log := s.log ++ Event.told r.told }

namespace Invocation

def leave (i : Invocation) (s : Scene) : Scene :=
  { s with connection := s.connection.disposeStream i.stream }

/-- Ends an invocation. Only a response keeps the stream. -/
def conclude (i : Invocation) (outcome : Except Error (Option ResponseHeader)) (s : Scene) :
    Invoked × Scene :=
  let s := { s with log := s.log ++ Event.told (Source.told i.source) }
  match outcome with
  | .ok (some h) =>
    let (result, released, request) := i.request.setResponse
      { status := h.status, errorMessage := h.errorMessage, fields := h.fields
        payload := .ofStream i.stream }
    (.finished result request, s.release released)
  | .ok none => (.finished (.ok ()) i.request, i.leave s)
  | .error e => (.finished (.error e) i.request, i.leave s)

def afterWork (i : Invocation) (s : Scene) : Invoked × Scene :=
  match i.work.result? with
  | some outcome => i.conclude outcome s
  | none => (.waiting i, s)

/-- Begins to send a request. A request without any time left is not sent at all. -/
def start (maxHeader : Nat) (m : Moment) (r : Request) (s : Scene) : Invoked × Scene :=
  let budget : Option Nat := r.features.get .deadline
  if budget = some 0 then (.finished (.error .deadlineExceeded) r, s)
  else match r.beginSend with
    | .error e => (.finished (.error e) r, s)
    | .ok (source, request) =>
      let fields := match budget with
        | some time => request.fields.setWord .deadline (UInt64.ofNat (min time (UInt64.size - 1)))
        | none => request.fields
      let direction := if request.oneway then Direction.unidirectional else .bidirectional
      match s.connection.createStream direction with
      | .error f =>
        (.finished (.error (.ofFailure f)) request,
          { s with log := s.log ++ Event.told (Source.told source) })
      | .ok (stream, connection) =>
        let header : RequestHeader := ⟨request.address.path, request.operation, fields⟩
        let (work, s) := (exchange header source request.oneway maxHeader).run m
          { s with connection, stream }
        afterWork { request, stream, source, deadline := budget.map (m.now + ·), work } s

/-- Lets an invocation go on; none if it cannot. One that runs out of time resets its stream. -/
def resume (m : Moment) (i : Invocation) (s : Scene) : Option (Invoked × Scene) :=
  let s := { s with stream := i.stream }
  match i.work.resume m s, i.deadline with
  | some (work, s), _ => some ({ i with work }.afterWork s)
  | none, some time =>
    if time ≤ m.now then
      some (i.conclude (.error .deadlineExceeded)
        { s with connection := s.connection.reset i.stream Code.canceled.value })
    else none
  | none, none => none

def drop (i : Invocation) (s : Scene) : Scene := (i.leave s).release i.request.dispose.1

end Invocation

structure Reading where
  request : Request
  work : Halted (Except Error (Option Bytes))

inductive ReadState
  | waiting (r : Reading)
  | finished (result : Except Error (Option Bytes)) (request : Request)

namespace Reading

def process : Option Nat → Process (Except Error (Option Bytes))
  | some max => .chunk max .done
  | none => .all fun r => .done (r.map some)

/-- Puts what is left of the payload back. A stream that was read to the end is given up. -/
def afterWork (r : Reading) (before : Payload) (s : Scene) : ReadState × Scene :=
  match r.work.result? with
  | none => (.waiting r, s)
  | some result =>
    let response := r.request.response.map fun x => { x with payload := s.payload }
    let s := match before.content, s.payload.content with
      | .stream i, .completed => { s with connection := s.connection.disposeStream i }
      | _, _ => s
    (.finished result { r.request with response }, s)

/-- Begins to read from a response. A disposed one has nothing to read. -/
def start (max : Option Nat) (m : Moment) (request : Request) (response : Response) (s : Scene) :
    ReadState × Scene :=
  if response.disposed && max.isNone then (.finished (.error .requestDisposed) request, s)
  else
    let (work, s) := (process max).run m { s with payload := response.payload }
    afterWork { request, work } response.payload s

def resume (m : Moment) (r : Reading) (s : Scene) : Option (ReadState × Scene) :=
  match r.request.response with
  | none => none
  | some response =>
    match r.work.resume m { s with payload := response.payload } with
    | some (work, s) => some ({ r with work }.afterWork response.payload s)
    | none => none

def drop (r : Reading) (s : Scene) : Scene := s.release r.request.dispose.1

end Reading

end Multiplex.Rpc
