import Multiplex.Link
import Multiplex.Network.Basic
import Multiplex.Rpc.Dispatch
import Multiplex.Rpc.Invocation

/-!
A server and its clients in one place: the links between them, what each of them is in the middle
of, and what was noted.
-/

namespace Multiplex.Rpc

/-- What a served connection is in the middle of. A call that has not begun yet is none. -/
inductive ServingStage
  | connecting
  | accepting (s : Option Suspended)
  /-- No more streams come; it waits for the end of the connection. -/
  | ending (s : Option Suspended)

/-- A connection that the server serves. It is the far end of its link. -/
structure Serving where
  link : Nat
  peer : String
  stage : ServingStage := .connecting

structure Dispatching where
  link : Nat
  peer : String
  stream : Nat
  payload : Payload
  guards : List Event
  dispatch : Dispatch

structure Server where
  terms : Terms
  options : Options
  channel : Channel
  shutdownTimeout : Nat
  stopping : Bool := false
  /-- Listeners that it accepts from, by their place in the network. -/
  listeners : List Nat := []
  /-- Connections that it has not seen the end of. -/
  servings : List Serving := []
  dispatchings : List Dispatching := []

structure Client where
  link : Nat
  maxHeader : Nat

structure RawEnd where
  link : Nat
  side : Side
  plain : Bool

/-- A request that has a name, and the link on which it was sent. -/
structure Slot where
  request : Request
  link : Option Nat := none

inductive Task
  /-- Connecting, to be a client of the given name afterwards. -/
  | connect (name : String) (maxHeader : Nat)
  /-- Sending the request of the given name, and then reading the response with `reading`. -/
  | invoke (name : String) (reading : Bool) (i : Invocation)
  | read (name : String) (r : Reading)
  | close (s : Suspended)
  /-- Shutting the server down: connections that are to be closed, and calls that wait for that. -/
  | shutDown (links : List Nat) (closing : List (Nat × Suspended)) (deadline : Nat)

inductive Result
  | ok
  | text (s : String)
  | settings (s : Settings)
  | error (e : Error)
  | bytes (bs? : Option Bytes)
  /-- A request was sent, or not. -/
  | invoked (sent : Bool) (error : Option Error) (response : Option Response)
  | noResponse

structure Ticket where
  label : Nat
  token : Option String
  link : Option Nat := none
  /-- Whether the client at the near end stays while it is under way. -/
  holds : Bool := true

structure Operation extends Ticket where
  task : Task

structure Deployment where
  server : Server
  buffer : Nat
  clock : Nat := 0
  links : List Link := []
  /-- Connections in the network are links, by their place. -/
  network : Network Nat := {}
  clients : List (String × Client) := []
  /-- Links of clients that were let go. -/
  dropped : List Nat := []
  raw : List (String × RawEnd) := []
  requests : List (String × Slot) := []
  gates : List String := []
  fired : List String := []
  operations : List Operation := []
  /-- What was noted, and which operations have finished, since the last report. -/
  log : List Event := []
  finished : List (Nat × Result) := []

namespace Deployment

def isFired (d : Deployment) : Option String → Bool
  | some token => d.fired.contains token
  | none => false

def moment (d : Deployment) (token : Option String) : Moment := ⟨d.clock, d.gates, d.isFired token⟩

def endpoint? (d : Deployment) (link : Nat) (side : Side) : Option Endpoint :=
  d.links[link]?.bind (·.endpoint? side)

def connection? (d : Deployment) (link : Nat) (side : Side) : Option Connection :=
  d.links[link]?.bind (·.connection? side)

def modifyLink (d : Deployment) (link : Nat) (f : Link → Link) : Deployment :=
  { d with links := d.links.modify link f }

def modifyConnection (d : Deployment) (link : Nat) (side : Side) (f : Connection → Connection) :
    Deployment :=
  d.modifyLink link (·.modifyConnection side f)

def addLink (d : Deployment) (l : Link) : Nat × Deployment :=
  (d.links.length, { d with links := d.links ++ [l] })

def adopt (d : Deployment) (link : Nat) (side : Side) (s : Scene) : Deployment :=
  let d := d.modifyConnection link side fun _ => s.connection
  { d with log := d.log ++ s.log }

def modifyServer (d : Deployment) (f : Server → Server) : Deployment :=
  { d with server := f d.server }

end Deployment

end Multiplex.Rpc
