import Multiplex.Connection.Calls
import Multiplex.Rpc.Event
import Multiplex.Rpc.Payload

/-!
Processes: work on one stream that may have to wait. A process is data, a tree of what it does
next, so one that waits can be kept, resumed, or dropped.
-/

namespace Multiplex.Rpc

inductive Pause
  | sleep (time : Nat)
  | gate (name : String)
  /-- That nobody is interested in its result any more. -/
  | givenUp
  | never
  deriving DecidableEq, Repr

/-- Work that gives an `α`. -/
inductive Process (α : Type) : Type
  | done (a : α)
  | note (e : Event) (next : Process α)
  | pause (p : Pause) (next : Process α)
  /-- A call on its own stream. -/
  | call (c : StreamCall) (next : Except Failure Answer → Process α)
  /-- Reads a chunk of its payload, or sees that there is no more. -/
  | chunk (max : Nat) (next : Except Error (Option Bytes) → Process α)
  /-- Reads its payload to the end, which completes the payload. -/
  | all (next : Except Error Bytes → Process α)
  | complete (next : Process α)
  /-- From here on it leaves a note if it is dropped. -/
  | guard (e : Event) (next : Process α)
  /-- Takes the last guard back. -/
  | unguard (next : Process α)

namespace Process

variable {α β : Type}

instance [Inhabited α] : Inhabited (Process α) := ⟨.done default⟩

def bind : Process α → (α → Process β) → Process β
  | .done a, f => f a
  | .note e next, f => .note e (next.bind f)
  | .pause p next, f => .pause p (next.bind f)
  | .call c next, f => .call c fun r => (next r).bind f
  | .chunk max next, f => .chunk max fun r => (next r).bind f
  | .all next, f => .all fun r => (next r).bind f
  | .complete next, f => .complete (next.bind f)
  | .guard e next, f => .guard e (next.bind f)
  | .unguard next, f => .unguard (next.bind f)

def notes (es : List Event) (p : Process α) : Process α := es.foldr .note p

end Process

structure Moment where
  now : Nat
  gates : List String
  givenUp : Bool

inductive Hold
  | time (deadline : Nat)
  | gate (name : String)
  | givenUp
  | never
  deriving DecidableEq, Repr

def Pause.hold (now : Nat) : Pause → Hold
  | .sleep time => .time (now + time)
  | .gate name => .gate name
  | .givenUp => .givenUp
  | .never => .never

def Hold.over (m : Moment) : Hold → Bool
  | .time deadline => deadline ≤ m.now
  | .gate name => m.gates.contains name
  | .givenUp => m.givenUp
  | .never => false

structure Scene where
  connection : Connection
  stream : Nat := 0
  payload : Payload := .empty
  /-- Notes it leaves if it is dropped, the latest first. -/
  guards : List Event := []
  log : List Event := []

namespace Scene

def note (s : Scene) (e : Event) : Scene := { s with log := s.log ++ [e] }

/-- Completes the payload. The rest of a payload on a stream is not read any more. -/
def complete (s : Scene) : Scene :=
  let (released, payload) := s.payload.complete
  { s with
    connection := released.streams.foldl Connection.abandonReads s.connection
    payload
    log := s.log ++ Event.told released.told }

/-- Drops whatever worked here: the guards speak, and the payload is let go. -/
def drop (s : Scene) : Scene := { s with log := s.log ++ s.guards, guards := [] }.complete

end Scene

inductive Halted (α : Type)
  | done (a : α)
  | calling (s : Suspended) (next : Except Failure Answer → Process α)
  | paused (h : Hold) (next : Process α)

def chunkRead : Except Failure Answer → Except Error (Option Bytes)
  | .ok (.chunk bs?) => .ok bs?
  | .ok _ => .ok none
  | .error e => .error (.ofFailure e)

def bytesRead : Except Failure Answer → Except Error Bytes
  | .ok (.bytes bs) => .ok bs
  | .ok _ => .ok []
  | .error e => .error (.ofFailure e)

namespace Process

variable {α : Type}

/-- Goes on after a read to the end. A read that failed leaves the payload as it is. -/
def afterAll (next : Except Error Bytes → Process α) (r : Except Failure Answer) : Process α :=
  match bytesRead r with
  | .ok bs => .complete (next (.ok bs))
  | .error e => next (.error e)

def run (m : Moment) : Process α → Scene → Halted α × Scene
  | .done a, s => (.done a, s)
  | .note e next, s => next.run m (s.note e)
  | .pause p next, s =>
    if (p.hold m.now).over m then next.run m s else (.paused (p.hold m.now) next, s)
  | .call c next, s =>
    match s.connection.call m.givenUp (c.on s.stream) with
    | (.done r, connection) => (next r).run m { s with connection }
    | (.wait w, connection) => (.calling ⟨w, connection.signal w⟩ next, { s with connection })
  | .chunk max next, s =>
    match s.payload.content with
    | .stream i =>
      match s.connection.call m.givenUp (.read i (.chunk max)) with
      | (.done r, connection) => (next (chunkRead r)).run m { s with connection }
      | (.wait w, connection) =>
        (.calling ⟨w, connection.signal w⟩ fun r => next (chunkRead r), { s with connection })
    | .buffered _ | .completed =>
      let (bs?, payload) := s.payload.takeChunk max
      (next (.ok bs?)).run m { s with payload }
  | .all next, s =>
    match s.payload.content with
    | .stream i =>
      match s.connection.call m.givenUp (.read i (.toEnd [])) with
      | (.done r, connection) =>
        match bytesRead r with
        | .ok bs => (next (.ok bs)).run m { s with connection }.complete
        | .error e => (next (.error e)).run m { s with connection }
      | (.wait w, connection) =>
        (.calling ⟨w, connection.signal w⟩ (afterAll next), { s with connection })
    | .buffered _ | .completed => (next (.ok s.payload.takeAll.1)).run m s.complete
  | .complete next, s => next.run m s.complete
  | .guard e next, s => next.run m { s with guards := e :: s.guards }
  | .unguard next, s => next.run m { s with guards := s.guards.tail }

end Process

namespace Halted

variable {α : Type}

def resume (m : Moment) (h : Halted α) (s : Scene) : Option (Halted α × Scene) :=
  match h with
  | .done _ => none
  | .calling w next =>
    match s.connection.wake m.givenUp w with
    | none => none
    | some (.done r, connection) => some ((next r).run m { s with connection })
    | some (.wait w, connection) =>
      some (.calling ⟨w, connection.signal w⟩ next, { s with connection })
  | .paused hold next => if hold.over m then some (next.run m s) else none

def result? : Halted α → Option α
  | .done a => some a
  | .calling .. | .paused .. => none

end Halted

end Multiplex.Rpc
