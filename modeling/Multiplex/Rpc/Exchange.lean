import Multiplex.Rpc.Process
import Multiplex.Rpc.Reply

/-!
What both sides do with the stream of a request: a header and a payload go one way, and for a
two-way request a header and a payload come back.
-/

namespace Multiplex.Rpc

namespace Process

variable {α β : Type}

def andThen (p : Process (Except Error α)) (f : α → Process (Except Error β)) :
    Process (Except Error β) :=
  p.bind fun
    | .ok a => f a
    | .error e => .done (.error e)

def ask (c : StreamCall) : Process (Except Error Unit) :=
  .call c fun
    | .ok _ => .done (.ok ())
    | .error e => .done (.error (.ofFailure e))

end Process

open Process

def sendHeader (text : Bytes) (max : Nat) : Process (Except Error Unit) :=
  match frameHeader text max with
  | .ok framed => ask (.write framed)
  | .error e => .done (.error e)

/-- Sends the chunks of a producer, waiting where it waits. -/
def sendSteps (failure : Option String) : List SourceStep → Process (Except Error Unit)
  | [] =>
    match failure with
    | some reason => .done (.error (.payload reason))
    | none => .done (.ok ())
  | .chunk data :: rest => (ask (.write data)).andThen fun _ => sendSteps failure rest
  | .gate name :: rest => .pause (.gate name) (sendSteps failure rest)

def sendSource : Option Source → Process (Except Error Unit)
  | some s => sendSteps s.failure s.steps
  | none => .done (.ok ())

/-- A stream that ends inside a header makes the header invalid. -/
def headerError : Failure → Error
  | .unexpectedEnd => .invalidHeader .truncated
  | e => .ofFailure e

def receiveExact (count : Nat) : Process (Except Error Bytes) :=
  .call (.read (.exact count [])) fun
    | .ok (.bytes bs) => .done (.ok bs)
    | .ok _ => .done (.ok [])
    | .error e => .done (.error (headerError e))

def receiveHeader {α : Type} (reader : Json.Reader α) (max : Nat) : Process (Except Error α) :=
  (receiveExact lengthSize).andThen fun length =>
    let size := Bytes.toWord length
    if max < size then .done (.error (.headerTooLarge size max))
    else (receiveExact size).andThen fun text =>
      match Json.whole reader text with
      | some h => .done (.ok h)
      | none => .done (.error .undecodable)

/-- The caller's part. A one-way request gets no response. -/
def exchange (header : RequestHeader) (source : Option Source) (oneway : Bool) (max : Nat) :
    Process (Except Error (Option ResponseHeader)) :=
  (sendHeader header.encode max).andThen fun _ =>
    (sendSource source).andThen fun _ =>
      (ask .finish).andThen fun _ =>
        if oneway then (ask .flush).andThen fun _ => .done (.ok none)
        else (receiveHeader ResponseHeader.reader max).andThen fun h => .done (.ok (some h))

/-- The server's part. The producer is told as soon as it is not needed any more. -/
def respond (reply : Reply) (max : Nat) : Process (Except Error Unit) :=
  ((sendHeader reply.header.encode max).andThen fun _ => sendSource reply.payload).bind fun sent =>
    .notes (Event.told reply.drop) <|
      (Process.done sent).andThen fun _ => (ask .finish).andThen fun _ => ask .flush

end Multiplex.Rpc
