import Multiplex.Connection.Closing

/-!
What a received frame does.
-/

namespace Multiplex.Connection

def surface (c : Connection) (id : StreamId) : Nat × Connection :=
  let d := id.direction
  let (i, c) := c.addStream { Stream.fresh d true c.options c.peer with id := some id }
  let c := c.setActive true d (· + 1)
  (i, { c with
        table := c.table ++ [(id, i)]
        acceptQueue := c.acceptQueue ++ [i]
        metrics := { c.metrics with streamsAccepted := c.metrics.streamsAccepted + 1 } }.notify)

/-- The stream that a STREAM frame is for, surfacing it if it is new. None if the frame is to be
dropped, because the stream was released or is refused. Sequence numbers that the peer skipped are
streams it reset before it sent anything on them. -/
def openRemote (c : Connection) (id : StreamId) : Except Violation (Option Nat) × Connection :=
  match c.find? id with
  | some i => (.ok (some i), c)
  | none =>
    let d := id.direction
    if id.initiator = c.role then
      if id.sequence.toNat < c.nextLocal.get d then (.ok none, c) else (.error (.neverOpened id), c)
    else if id.sequence.toNat < c.nextRemote.get d then (.ok none, c)
    else
      let c := { c with nextRemote := c.nextRemote.set d (id.sequence.toNat + 1) }
      if c.phase != .active then
        (.ok none, c.enqueueControl (.reset id (c.codes.toWire (c.codes.resetCode .refused))))
      else if (c.options.maxStreams d).toNat ≤ c.activeRemote.get d then
        (.error (.beyondLimit id (c.options.maxStreams d)), c)
      else
        let (i, c) := c.surface id
        (.ok (some i), c)

/-- The stream that a RESET frame is for. One that the peer reset before it sent anything surfaces
too, so that whoever accepts it sees the reset; while closing it is only remembered. -/
def resetTarget (c : Connection) (id : StreamId) : Except Violation (Option Nat) × Connection :=
  match c.find? id with
  | some i => (.ok (some i), c)
  | none =>
    let d := id.direction
    if id.initiator = c.role || id.sequence.toNat < c.nextRemote.get d then (.ok none, c)
    else if c.phase != .active then
      (.ok none, { c with nextRemote := c.nextRemote.set d (id.sequence.toNat + 1) })
    else c.openRemote id

def receiveData (c : Connection) (i : Nat) (id : StreamId) (fin : Bool) (data : Bytes) :
    Except Violation Connection :=
  match c.streams[i]? with
  | none => .ok c
  | some s =>
    if !s.hasReadSide then .error (.writeOnly id)
    else if s.finReceived then .error (.dataAfterFin id)
    else match s.window.receive data.length with
      | .error e => .error (.window id e)
      | .ok window =>
        let s := { s with window, finReceived := fin }.noteReceived data
        let (update, s) :=
          if s.abandoned then s.consumed data.length
          else (none, if data.isEmpty then s else { s with inbound := s.inbound ++ [data] })
        let c := (c.enqueueControl? update).modify i fun _ => s.notify
        .ok (if fin then c.maybeRelease i else c)

def orElse (c : Connection) : Except Violation Connection → Option Violation × Connection
  | .ok c => (none, c)
  | .error v => (some v, c)

/-- Takes over a frame at the time `now`, in milliseconds, and says which rule it breaks, if any. -/
def handle (c : Connection) (now : Nat) : Frame → Option Violation × Connection
  | .stream id fin data =>
    match c.openRemote id with
    | (.ok (some i), c) => c.orElse (c.receiveData i id fin data)
    | (.ok none, c) => (none, c)
    | (.error v, c) => (some v, c)
  | .windowUpdate id increment =>
    match c.find? id with
    | some i => (none, c.modify i fun s => { s with credit := s.credit.grant increment }.notify)
    | none => (none, c)
  | .reset id wire =>
    match c.resetTarget id with
    | (.ok (some i), c) => (none, c.receiveReset i (c.codes.ofWire wire))
    | (.ok none, c) => (none, c)
    | (.error v, c) => (some v, c)
  | .ping payload => (none, c.enqueueControl (.pong payload))
  | .pong payload =>
    (none, { c with metrics := { c.metrics with
      roundTrip := some (now * 1000 - payload.toNat)
      pongs := c.metrics.pongs + 1
      echoes := (now, payload) :: c.metrics.echoes } }.notify)
  | .settings _ => (some .lateSettings, c)
  | .close wire => c.orElse (c.receiveClose (c.codes.ofWire wire))

def maxBody (c : Connection) : Nat := c.options.maxBody

def hear (c : Connection) (f : Frame) (size : Nat) : Connection :=
  { c with
    metrics := { c.metrics with
      framesReceived := c.metrics.framesReceived + 1
      bytesReceived := c.metrics.bytesReceived + size }
    journal := c.journal.noteHeard f }

/-- Takes over every complete frame at the front of `inbox`, and gives what remains of it. A frame
that breaks a rule, and bytes that are no frame, end the connection. -/
def receive (c : Connection) (now : Nat) (inbox : Bytes) : Connection × Bytes :=
  match h : Frame.decode c.maxBody inbox with
  | .frame f size rest =>
    have := Frame.decode_frame_length h
    match (c.hear f size).handle now f with
    | (none, c) => c.receive now rest
    | (some v, c) => (c.abort (.protocolViolation v), rest)
  | .incomplete => (c, inbox)
  | .invalid e rest => (c.abort (.protocolViolation (.frame e)), rest)
termination_by inbox.length

end Multiplex.Connection
