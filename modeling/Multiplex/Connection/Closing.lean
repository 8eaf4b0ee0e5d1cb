import Multiplex.Connection.Basic

/-!
How streams end and how a connection does: releasing streams that are complete, resets from either
end, the graceful close, and the abort.
-/

namespace Multiplex.Connection

/-- A closing connection is closed once both directions are shut. -/
def finishIfClosed (c : Connection) : Connection :=
  if c.phase = .closing && c.writesShut && c.readEnded then { c with phase := .closed }.notify
  else c

/-- Goes on with a graceful close once no stream is in use: answers the peer's CLOSE, and has the
writer shut down after both were said. -/
def progressClose (c : Connection) : Connection :=
  if c.phase != .closing || !c.table.isEmpty then c
  else
    let c := if c.closeReceived.isSome && !c.closeSent then c.enqueueClose 0 else c
    let c := if c.closeSent && c.closeReceived.isSome then { c with shutdownWrites := true } else c
    c.finishIfClosed

/-- Takes a stream out of the table once both ends are done with it. -/
def maybeRelease (c : Connection) (i : Nat) : Connection :=
  match c.streams[i]? with
  | none => c
  | some s =>
    match s.id with
    | none => c
    | some id =>
      if s.released || !(s.localDone && s.remoteDone) then c
      else
        let c := c.modify i fun s => { s with released := true }
        let c := { c with table := c.table.filter fun entry => entry.1 ≠ id }
        (c.setActive s.remote id.direction (· - 1)).notify.progressClose

/-- Takes back the frames of a stream that the writer has not taken yet. -/
def purge (c : Connection) (i : Nat) : Connection :=
  let kept := c.dataQueue.filter fun q => q.owner ≠ some i
  let purged := c.dataQueue.length - kept.length
  let c := (c.noteOff i purged).modify i fun s => { s with unwritten := s.unwritten - purged }
  { c with dataQueue := kept }

def countReset (c : Connection) : Connection :=
  { c with metrics := { c.metrics with streamsReset := c.metrics.streamsReset + 1 } }

/-- Resets a stream from this end. Of one that has not started the peer hears nothing. -/
def sendReset (c : Connection) (i : Nat) (code : UInt64) : Connection :=
  let c := c.modify i (·.markReset code)
  match c.streams[i]? with
  | none => c
  | some s =>
    match s.id with
    | none => c
    | some id =>
      if s.released then c
      else
        let c := c.enqueueControl (.reset id (c.codes.toWire code))
        ((c.purge i).countReset.notifyStream i).maybeRelease i

def receiveReset (c : Connection) (i : Nat) (code : UInt64) : Connection :=
  (((c.modify i (·.markReset code)).purge i).countReset.notifyStream i).maybeRelease i

def refusePending (c : Connection) : Connection :=
  let code := c.codes.resetCode .refused
  c.acceptQueue.foldl (fun c i => c.sendReset i code) { c with acceptQueue := [] }

def beginClose (c : Connection) (code : UInt64) : Connection :=
  if c.phase = .closed then c
  else
    let c := if c.closeReceived.isNone then { c with closedLocally := true } else c
    let c := if c.closeSent then c else c.enqueueClose code
    ({ c with phase := .closing }.refusePending.notify).progressClose

/-- Takes over a CLOSE of the peer. Streams that it started before can still be accepted. -/
def receiveClose (c : Connection) (code : UInt64) : Except Violation Connection :=
  if c.closeReceived.isSome then .error .duplicateClose
  else
    let c := { c with closeReceived := some code }
    let c := if c.phase = .active then { c with phase := .closing } else c
    .ok c.notify.progressClose

def failStreams (c : Connection) (e : Failure) : Connection :=
  let c := c.table.foldl (fun c entry =>
    c.modify entry.2 fun s => { s.fail e with released := true }.notify) c
  { c with table := [], acceptQueue := [], activeLocal := .both 0, activeRemote := .both 0 }.notify

/-- Gives the connection up; everything that waits on it fails with `e`. -/
def abort (c : Connection) (e : Failure) : Connection :=
  if c.phase = .closed then c
  else
    let c := { c with phase := .closed, error := some e }.failStreams e
    let c := (c.dataQueue.filterMap (·.owner)).foldl (fun c i =>
      c.modify i fun s => { s.fail e with unwritten := 0 }.notify) c
    { c with controlQueue := [], dataQueue := [] }

def dispose (c : Connection) : Connection := c.abort .closedLocally

/-- The pipe from the peer ended. That is in order after a CLOSE only. -/
def endOfInput (c : Connection) : Connection :=
  if c.phase = .closed then c
  else match c.closeReceived with
    | some code => ({ c with readEnded := true }.failStreams (.closedByPeer code)).progressClose
    | none => c.abort (.connectionLost .hungUp)

def writesShutDown (c : Connection) : Connection := { c with writesShut := true }.finishIfClosed

end Multiplex.Connection
