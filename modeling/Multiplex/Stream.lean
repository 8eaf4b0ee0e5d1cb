import Multiplex.Failure
import Multiplex.Flow
import Multiplex.Settings

/-!
One stream as one end of its connection sees it.
-/

namespace Multiplex

/-- What has gone over a stream, newest first. It is kept for the record: nothing depends on it. -/
structure Ledger where
  /-- Data of the frames that were queued. -/
  sent : List Bytes := []
  /-- Data of the frames that were taken in. -/
  received : List Bytes := []
  taken : List Bytes := []
  ended : Bool := false
  deriving DecidableEq, Repr

structure Stream where
  id : Option StreamId := none
  direction : Direction
  /-- Whether the peer opened it. -/
  remote : Bool
  /-- Chunks that arrived and were not read, oldest first. -/
  inbound : List Bytes := []
  window : ReceiveWindow
  finReceived : Bool := false
  /-- Whether what arrives is dropped. -/
  abandoned : Bool := false
  credit : SendCredit
  finQueued : Bool := false
  /-- Frames queued and not yet written to the pipe. -/
  unwritten : Nat := 0
  resetCode : Option UInt64 := none
  disposed : Option UInt64 := none
  error : Option Failure := none
  /-- Whether it has left the table of its connection. -/
  released : Bool := false
  /-- Grows with every change that calls waiting on the stream are told about. -/
  changes : Nat := 0
  ledger : Ledger := {}
  deriving DecidableEq, Repr

inductive StreamState
  | idle
  | active
  | halfClosed
  | closed
  | reset
  deriving DecidableEq, Repr

namespace Stream

def fresh (direction : Direction) (remote : Bool) (options : Options) (peer : Settings) :
    Stream where
  direction
  remote
  window := .ofSize options.window options.threshold
  credit := ⟨peer.window⟩

def hasReadSide (s : Stream) : Bool := s.direction = .bidirectional || s.remote

def hasWriteSide (s : Stream) : Bool := s.direction = .bidirectional || !s.remote

def localDone (s : Stream) : Bool := !s.hasWriteSide || s.finQueued || s.resetCode.isSome

def remoteDone (s : Stream) : Bool := !s.hasReadSide || s.finReceived || s.resetCode.isSome

def state (s : Stream) : StreamState :=
  if s.resetCode.isSome || s.error.isSome || s.disposed.isSome then .reset
  else if s.id.isNone then .idle
  else match s.localDone, s.remoteDone with
    | true, true => .closed
    | false, false => .active
    | _, _ => .halfClosed

/-- What ended the stream before its time. A disposed stream reports the code of its reset, if it
was reset at all. -/
def termination (s : Stream) : Option Failure :=
  match s.disposed with
  | some code => some (.streamAborted (s.resetCode.getD code))
  | none =>
    match s.error with
    | some e => some e
    | none => s.resetCode.map .streamAborted

/-- Why nothing can be read, whatever arrived. -/
def readError (s : Stream) : Option Failure :=
  if !s.hasReadSide then some (.invalidState .noReadSide)
  else match s.termination with
    | some e => some e
    | none => if s.abandoned then some (.invalidState .readsAbandoned) else none

def writeError (s : Stream) : Option Failure :=
  if !s.hasWriteSide then some (.invalidState .noWriteSide)
  else match s.termination with
    | some e => some e
    | none => if s.finQueued then some .writesClosed else none

def notify (s : Stream) : Stream := { s with changes := s.changes + 1 }

def noteSent (s : Stream) (data : Bytes) : Stream :=
  { s with ledger := { s.ledger with sent := data :: s.ledger.sent } }

def noteReceived (s : Stream) (data : Bytes) : Stream :=
  { s with ledger := { s.ledger with received := data :: s.ledger.received } }

def noteTaken (s : Stream) (chunk : Bytes) : Stream :=
  { s with ledger := { s.ledger with taken := chunk :: s.ledger.taken } }

def noteEnd (s : Stream) : Stream := { s with ledger := { s.ledger with ended := true } }

/-- The oldest chunk, or the front of it if it exceeds the limit. -/
def takeChunk (s : Stream) (limit : Option Nat) : Option (Bytes × Stream) :=
  match s.inbound, limit with
  | [], _ => none
  | chunk :: rest, none => some (chunk, { s with inbound := rest })
  | chunk :: rest, some max =>
    if chunk.length ≤ max then some (chunk, { s with inbound := rest })
    else some (chunk.take max, { s with inbound := chunk.drop max :: rest })

/-- Accounts for `len` bytes handed on, and gives the credit to return for them, if any. -/
def consumed (s : Stream) (len : Nat) : Option Frame × Stream :=
  match s.id with
  | none => (none, s)
  | some id =>
    if s.finReceived || s.released then (none, s)
    else
      let (increment, window) := s.window.consume len
      (increment.map (.windowUpdate id), { s with window })

/-- The first failure stays. -/
def fail (s : Stream) (e : Failure) : Stream := { s with error := s.error.or (some e) }

/-- The first code stays. -/
def markReset (s : Stream) (code : UInt64) : Stream :=
  { s with resetCode := s.resetCode.or (some code) }

end Stream

end Multiplex
