import Multiplex.Rpc.Exchange
import Multiplex.Rpc.Service

/-!
The server's work on one stream: reading the request header, serving the request, and sending the
reply.
-/

namespace Multiplex.Rpc

structure Terms where
  service : Service
  maxHeader : Nat

inductive Dispatch
  | heading (work : Halted (Except Error RequestHeader))
  | serving (work : Halted Reply) (oneway : Bool) (deadline : Option Nat)
  | responding (work : Halted (Except Error Unit))
  | over

namespace Dispatch

/-- Ends the work: what a late service holds is dropped, and then the stream. -/
def finish (s : Scene) : Dispatch × Scene :=
  let s := s.drop
  (.over, { s with connection := s.connection.disposeStream s.stream })

/-- A reply that could not be sent makes the stream useless. -/
def afterResponding (work : Halted (Except Error Unit)) (s : Scene) : Dispatch × Scene :=
  match work with
  | .done (.ok ()) => finish s
  | .done (.error _) =>
    finish { s with connection := s.connection.reset s.stream Code.internalError.value }
  | .calling .. | .paused .. => (.responding work, s)

/-- Sends a reply, or lets it go if nobody waits for one. -/
def answer (t : Terms) (m : Moment) (oneway : Bool) (reply : Reply) (s : Scene) :
    Dispatch × Scene :=
  if oneway then finish { s with log := s.log ++ Event.told reply.drop }
  else
    let (work, s) := (respond reply t.maxHeader).run m s
    afterResponding work s

/-- A service that is done has no use for the request any more. -/
def afterServing (t : Terms) (m : Moment) (work : Halted Reply) (oneway : Bool)
    (deadline : Option Nat) (s : Scene) : Dispatch × Scene :=
  match work with
  | .done reply => answer t m oneway reply s.complete
  | .calling .. | .paused .. => (.serving work oneway deadline, s)

/-- Gives a service up that took too long. It gets a last chance to see that, but whatever it
replies does not count. -/
def expire (t : Terms) (m : Moment) (work : Halted Reply) (oneway : Bool) (s : Scene) :
    Dispatch × Scene :=
  let (work, s) := (work.resume { m with givenUp := true } s).getD (work, s)
  let s := match work with
    | .done reply =>
      let s := s.complete
      { s with log := s.log ++ Event.told reply.drop }
    | .calling .. | .paused .. => s
  answer t m oneway .deadlineExceeded s

def incoming (peer : String) (oneway : Bool) (h : RequestHeader) : Incoming :=
  let features := Features.empty.set .remote peer
  { path := h.path
    operation := h.operation
    oneway
    fields := h.fields
    features := match h.fields.getWord? .deadline with
      | some time => features.set .deadline time.toNat
      | none => features }

def isOneway (s : Scene) : Bool :=
  match s.connection.streams[s.stream]? with
  | some st => st.direction = .unidirectional
  | none => false

def afterHeading (t : Terms) (m : Moment) (peer : String)
    (work : Halted (Except Error RequestHeader)) (s : Scene) : Dispatch × Scene :=
  match work with
  | .done (.ok h) =>
    let oneway := isOneway s
    let deadline := (h.fields.getWord? .deadline).map fun time => m.now + time.toNat
    let (work, s) := (contained t.service (incoming peer oneway h)).run m
      { s with payload := .ofStream s.stream }
    afterServing t m work oneway deadline s
  | .done (.error _) =>
    finish { s with connection := s.connection.reset s.stream Code.invalidData.value }
  | .calling .. | .paused .. => (.heading work, s)

def start (t : Terms) (m : Moment) (peer : String) (s : Scene) : Dispatch × Scene :=
  let (work, s) := (receiveHeader RequestHeader.reader t.maxHeader).run m s
  afterHeading t m peer work s

def resume (t : Terms) (m : Moment) (peer : String) (d : Dispatch) (s : Scene) :
    Option (Dispatch × Scene) :=
  match d with
  | .heading work => (work.resume m s).map fun (work, s) => afterHeading t m peer work s
  | .serving work oneway deadline =>
    match work.resume m s, deadline with
    | some (work, s), _ => some (afterServing t m work oneway deadline s)
    | none, some time => if time ≤ m.now then some (expire t m work oneway s) else none
    | none, none => none
  | .responding work => (work.resume m s).map fun (work, s) => afterResponding work s
  | .over => none

end Dispatch

end Multiplex.Rpc
