import Multiplex.Connection.Receiving

/-!
Calls on a connection and on its streams. A call runs until it has an answer or has to wait; one
that waits is data, and looks again when the signal it waits on was raised.
-/

namespace Multiplex

inductive Answer
  | unit
  | bytes (bs : Bytes)
  /-- A chunk, or none at the end of the stream. -/
  | chunk (bs? : Option Bytes)
  | stream (index : Nat)
  /-- A round trip, in microseconds. -/
  | roundTrip (micros : Nat)
  deriving DecidableEq, Repr

/-- How much a read wants. What was read already is kept last byte first. -/
inductive ReadGoal
  /-- Some bytes, and none at the end of the stream. -/
  | upTo (max : Nat)
  | chunk (max : Nat)
  | exact (missing : Nat) (done : Bytes)
  | toEnd (done : Bytes)
  deriving DecidableEq, Repr

def ReadGoal.limit : ReadGoal → Option Nat
  | .upTo max | .chunk max => some (max.max 1)
  | .exact missing _ => some missing
  | .toEnd _ => none

inductive Wait
  /-- A stream to start on, so as to send `data`, and the end of the stream with `fin`. -/
  | slot (stream : Nat) (data : Bytes) (fin : Bool)
  /-- Credit to send `data` with. -/
  | credit (stream : Nat) (data : Bytes) (fin : Bool)
  | written (stream : Nat)
  | data (stream : Nat) (goal : ReadGoal)
  | peerStream
  /-- More PONGs than `before`. -/
  | pong (before : Nat)
  | closed
  deriving DecidableEq, Repr

inductive Outcome
  | done (result : Except Failure Answer)
  | wait (w : Wait)

inductive Call
  | write (stream : Nat) (data : Bytes)
  | writeFinish (stream : Nat) (data : Bytes)
  | finish (stream : Nat)
  | flush (stream : Nat)
  | read (stream : Nat) (goal : ReadGoal)
  | accept
  | ping (now : Nat)
  | close (code : UInt64)
  | closed
  deriving DecidableEq, Repr

inductive StreamCall
  | write (data : Bytes)
  | writeFinish (data : Bytes)
  | finish
  | flush
  | read (goal : ReadGoal)
  deriving DecidableEq, Repr

def StreamCall.on (i : Nat) : StreamCall → Call
  | .write data => .write i data
  | .writeFinish data => .writeFinish i data
  | .finish => .finish i
  | .flush => .flush i
  | .read goal => .read i goal

/-- The payload of a PING: the time in microseconds. -/
def pingPayload (now : Nat) : UInt64 := UInt64.ofNat (min (now * 1000) (UInt64.size - 1))

namespace Connection

/-- Creates a stream of this end. The peer hears of it with the first frame. -/
def createStream (c : Connection) (d : Direction) : Except Failure (Nat × Connection) :=
  match c.phase with
  | .active => .ok (c.addStream (Stream.fresh d false c.options c.peer))
  | .connecting => .error (.invalidState .notEstablished)
  | .closing | .closed => .error c.closedError

/-- Stops reading. What arrives is dropped, but credit goes on flowing back to the peer. -/
def abandonReads (c : Connection) (i : Nat) : Connection :=
  match c.streams[i]? with
  | none => c
  | some s =>
    if !s.hasReadSide || s.abandoned then c
    else
      let buffered := s.inbound.flatten.length
      let (update, s) := { s with abandoned := true, inbound := [] }.consumed buffered
      (c.enqueueControl? update).modify i fun _ => s.notify

/-- Ends a stream at once. Nothing happens if it was complete or has ended otherwise. -/
def reset (c : Connection) (i : Nat) (code : UInt64) : Connection :=
  match c.streams[i]? with
  | none => c
  | some s =>
    if s.resetCode.isSome || s.error.isSome || s.released then c
    else if c.phase = .closed then c.modify i fun s => (s.markReset code).notify
    else (c.sendReset i code).notifyStream i

/-- Gives a stream up. It is reset, unless it was complete or is left to drain: writes finished and
reads abandoned. -/
def disposeStream (c : Connection) (i : Nat) : Connection :=
  match c.streams[i]? with
  | none => c
  | some s =>
    if s.disposed.isSome then c
    else
      let code := c.codes.resetCode .disposed
      let c := c.modify i fun s => { s with disposed := some code }
      if s.released || (s.abandoned && s.localDone) || s.error.isSome || s.resetCode.isSome then
        c.notifyStream i
      else c.reset i code

/-- Gives a stream the next id, if the peer takes another one. -/
def tryOpen (c : Connection) (i : Nat) (d : Direction) : Option Connection :=
  if (c.peer.maxStreams d).toNat ≤ c.activeLocal.get d then none
  else
    let id := StreamId.ofParts (UInt64.ofNat (c.nextLocal.get d)) d c.role
    let c := c.modify i fun s => { s with id := some id }
    let c := c.setActive false d (· + 1)
    some { c with
      nextLocal := c.nextLocal.set d (c.nextLocal.get d + 1)
      table := c.table ++ [(id, i)]
      metrics := { c.metrics with streamsOpened := c.metrics.streamsOpened + 1 } }

abbrev Look (α : Type) := Option (Except Failure α)

def lookSlot (c : Connection) (i : Nat) : Look StreamId × Connection :=
  match c.streams[i]? with
  | none => (some (.error c.closedError), c)
  | some s =>
    match s.id, s.writeError with
    | some id, _ => (some (.ok id), c)
    | none, some e => (some (.error e), c)
    | none, none =>
      if c.phase != .active then (some (.error c.closedError), c)
      else match c.tryOpen i s.direction with
        | none => (none, c)
        | some c => ((c.streams[i]?.bind (·.id)).map .ok, c)

def lookCredit (c : Connection) (i : Nat) (wanted : UInt64) : Look Nat × Connection :=
  match c.streams[i]? with
  | none => (some (.error c.closedError), c)
  | some s =>
    match s.writeError with
    | some e => (some (.error e), c)
    | none =>
      let (taken, credit) := s.credit.consume wanted
      if taken = 0 then (none, c)
      else (some (.ok taken.toNat), c.modify i fun s => { s with credit })

def lookData (c : Connection) (i : Nat) (limit : Option Nat) : Look (Option Bytes) × Connection :=
  match c.streams[i]? with
  | none => (some (.error c.closedError), c)
  | some s =>
    match s.readError with
    | some e => (some (.error e), c)
    | none =>
      match s.takeChunk limit with
      | some (chunk, s) =>
        let (update, s) := (s.noteTaken chunk).consumed chunk.length
        (some (.ok (some chunk)), (c.modify i fun _ => s).enqueueControl? update)
      | none => if s.finReceived then (some (.ok none), c.modify i Stream.noteEnd) else (none, c)

def lookWritten (c : Connection) (i : Nat) : Look Unit :=
  match c.streams[i]? with
  | none => some (.error c.closedError)
  | some s =>
    match s.error with
    | some e => some (.error e)
    | none =>
      if s.unwritten = 0 then some (.ok ())
      else s.resetCode.map fun code => .error (.streamAborted code)

def lookPeerStream (c : Connection) : Look Nat × Connection :=
  match c.acceptQueue with
  | i :: rest => (some (.ok i), { c with acceptQueue := rest })
  | [] =>
    match c.phase with
    | .active => (none, c)
    | .connecting => (some (.error (.invalidState .notEstablished)), c)
    | .closing | .closed => (some (.error c.closedError), c)

def lookPong (c : Connection) (before : Nat) : Look Nat :=
  if before < c.metrics.pongs then some (.ok (c.metrics.roundTrip.getD 0))
  else if c.phase = .closed then some (.error c.closedError)
  else none

def lookClosed (c : Connection) : Look Unit :=
  if c.phase = .closed then
    match c.error with
    | some e => some (.error e)
    | none => some (.ok ())
  else none

def queue (c : Connection) (i : Nat) (id : StreamId) (data : Bytes) (fin : Bool) :
    Except Failure Connection :=
  if c.phase = .closed then .error c.closedError
  else match c.streams[i]? with
    | none => .error c.closedError
    | some s =>
      match s.writeError with
      | some e => .error e
      | none =>
        let c := c.modify i fun s => { s with finQueued := fin }.noteSent data
        let c := c.enqueueData i (.stream id fin data)
        .ok (if fin then c.maybeRelease i else c)

/-- A wait that is cut short resets its stream, except while the stream has not started. -/
def cancel (c : Connection) : Wait → Connection
  | .credit i _ _ | .written i | .data i _ => c.reset i (c.codes.resetCode .cancelled)
  | .slot .. | .peerStream | .pong _ | .closed => c

/-- What a call does when its condition does not hold yet: it waits, unless it was cancelled. -/
def suspend (c : Connection) (cancelled : Bool) (w : Wait) : Outcome × Connection :=
  if cancelled then (.done (.error .cancelled), c.cancel w) else (.wait w, c)

def fail (c : Connection) (e : Failure) : Outcome × Connection := (.done (.error e), c)

def succeed (c : Connection) (a : Answer) : Outcome × Connection := (.done (.ok a), c)

def queueEnd (c : Connection) (i : Nat) (id : StreamId) : Outcome × Connection :=
  match c.queue i id [] true with
  | .ok c => c.succeed .unit
  | .error e => c.fail e

def sendEnd (c : Connection) (i : Nat) : Outcome × Connection :=
  match c.streams[i]? with
  | none => c.fail c.closedError
  | some s =>
    if s.finQueued then c.succeed .unit
    else match s.writeError, s.id with
      | some e, _ => c.fail e
      | none, none => c.fail c.closedError
      | none, some id => c.queueEnd i id

/-- Sends `data` on a started stream as far as the credit goes, one frame at a time, then the end of
the stream with `fin`. Every frame takes one byte at least, so `data.length` frames suffice. -/
def send (c : Connection) (cancelled : Bool) (i : Nat) (id : StreamId) (fin : Bool) :
    Nat → Bytes → Outcome × Connection
  | 0, _ | _, [] => if fin then c.sendEnd i else c.succeed .unit
  | fuel + 1, data =>
    match c.lookCredit i (UInt64.ofNat (min data.length c.peer.maxFrame.toNat)) with
    | (none, c) => c.suspend cancelled (.credit i data fin)
    | (some (.error e), c) => c.fail e
    | (some (.ok n), c) =>
      match c.queue i id (data.take n) false with
      | .error e => c.fail e
      | .ok c => c.send cancelled i id fin fuel (data.drop n)

/-- Sends what a stream was started for. If that is the end alone, one that was queued meanwhile is
an error. -/
def sendOn (c : Connection) (cancelled : Bool) (i : Nat) (id : StreamId) (data : Bytes)
    (fin : Bool) : Outcome × Connection :=
  match data, fin with
  | [], true => c.queueEnd i id
  | data, fin => c.send cancelled i id fin data.length data

def startAndSend (c : Connection) (cancelled : Bool) (i : Nat) (data : Bytes) (fin : Bool) :
    Outcome × Connection :=
  match c.lookSlot i with
  | (none, c) => c.suspend cancelled (.slot i data fin)
  | (some (.error e), c) => c.fail e
  | (some (.ok id), c) => c.sendOn cancelled i id data fin

/-- Reads towards a goal. Only the last chunk taken is cut, so the number of chunks that arrived
bounds the steps. -/
def readOn (c : Connection) (cancelled : Bool) (i : Nat) : Nat → ReadGoal → Outcome × Connection
  | 0, goal => c.suspend cancelled (.data i goal)
  | fuel + 1, goal =>
    match c.lookData i goal.limit, goal with
    | (none, c), _ => c.suspend cancelled (.data i goal)
    | (some (.error e), c), _ => c.fail e
    | (some (.ok chunk), c), .upTo _ => c.succeed (.bytes (chunk.getD []))
    | (some (.ok chunk), c), .chunk _ => c.succeed (.chunk chunk)
    | (some (.ok none), c), .exact .. => c.fail .unexpectedEnd
    | (some (.ok (some chunk)), c), .exact missing done =>
      if missing ≤ chunk.length then c.succeed (.bytes (chunk.reverseAux done).reverse)
      else c.readOn cancelled i fuel (.exact (missing - chunk.length) (chunk.reverseAux done))
    | (some (.ok none), c), .toEnd done => c.succeed (.bytes done.reverse)
    | (some (.ok (some chunk)), c), .toEnd done =>
      c.readOn cancelled i fuel (.toEnd (chunk.reverseAux done))

def readFrom (c : Connection) (cancelled : Bool) (i : Nat) (goal : ReadGoal) :
    Outcome × Connection :=
  let chunks := match c.streams[i]? with
    | some s => s.inbound.length
    | none => 0
  c.readOn cancelled i (chunks + 1) goal

def resume (c : Connection) (cancelled : Bool) : Wait → Outcome × Connection
  | .slot i data fin => c.startAndSend cancelled i data fin
  | .credit i data fin =>
    match c.streams[i]?.bind (·.id) with
    | some id => c.send cancelled i id fin data.length data
    | none => c.fail c.closedError
  | .written i =>
    match c.lookWritten i with
    | none => c.suspend cancelled (.written i)
    | some (.error e) => c.fail e
    | some (.ok ()) => c.succeed .unit
  | .data i goal => c.readFrom cancelled i goal
  | .peerStream =>
    match c.lookPeerStream with
    | (none, c) => c.suspend cancelled .peerStream
    | (some (.error e), c) => c.fail e
    | (some (.ok i), c) => c.succeed (.stream i)
  | .pong before =>
    match c.lookPong before with
    | none => c.suspend cancelled (.pong before)
    | some (.error e) => c.fail e
    | some (.ok micros) => c.succeed (.roundTrip micros)
  | .closed =>
    match c.lookClosed with
    | none => c.suspend cancelled .closed
    | some (.error e) => c.fail e
    | some (.ok ()) => c.succeed .unit

def writeError (c : Connection) (i : Nat) : Option Failure :=
  match c.streams[i]? with
  | some s => s.writeError
  | none => some c.closedError

def finQueued (c : Connection) (i : Nat) : Bool :=
  match c.streams[i]? with
  | some s => s.finQueued
  | none => false

def call (c : Connection) (cancelled : Bool) : Call → Outcome × Connection
  | .write i data =>
    match c.writeError i, data with
    | some e, _ => c.fail e
    | none, [] => c.succeed .unit
    | none, _ :: _ => c.startAndSend cancelled i data false
  | .writeFinish i data =>
    match c.writeError i with
    | some e => c.fail e
    | none => c.startAndSend cancelled i data true
  | .finish i =>
    if c.finQueued i then c.succeed .unit
    else match c.writeError i with
      | some e => c.fail e
      | none => c.startAndSend cancelled i [] true
  | .flush i => c.resume cancelled (.written i)
  | .read _ (.upTo 0) => c.succeed (.bytes [])
  | .read _ (.exact 0 _) => c.succeed (.bytes [])
  | .read i goal => c.resume cancelled (.data i goal)
  | .accept => c.resume cancelled .peerStream
  | .ping now =>
    match c.phase with
    | .closed | .connecting => c.fail c.closedError
    | .active | .closing =>
      (c.enqueueControl (.ping (pingPayload now))).resume cancelled (.pong c.metrics.pongs)
  | .close code =>
    if c.phase = .connecting then c.fail (.invalidState .notEstablished)
    else (c.beginClose code).resume cancelled .closed
  | .closed => c.resume cancelled .closed

/-- How often the signal that a wait listens to was raised. -/
def signal (c : Connection) : Wait → Nat
  | .slot .. | .peerStream | .pong _ | .closed => c.changes
  | .credit i _ _ | .written i | .data i _ =>
    match c.streams[i]? with
    | some s => s.changes
    | none => 0

end Connection

/-- A call that waits, and how often its signal had been raised when it last looked. -/
structure Suspended where
  wait : Wait
  seen : Nat
  deriving DecidableEq, Repr

namespace Connection

/-- Lets a waiting call look again if its signal was raised. Else it only ends if it was cancelled,
and none says that it does nothing. -/
def wake (c : Connection) (cancelled : Bool) (s : Suspended) : Option (Outcome × Connection) :=
  if c.signal s.wait ≠ s.seen then some (c.resume cancelled s.wait)
  else if cancelled then some (.done (.error .cancelled), c.cancel s.wait)
  else none

end Connection

end Multiplex
