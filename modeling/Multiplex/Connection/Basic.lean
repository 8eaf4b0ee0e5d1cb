import Multiplex.CodeSpace
import Multiplex.Stream

/-!
The state of one end of a connection: its streams, the table of those in use, and the frames waiting
to be written.
-/

namespace Multiplex

inductive Phase
  | connecting
  | active
  /-- Open streams finish, and no new ones start. -/
  | closing
  | closed
  deriving DecidableEq, Repr

structure Outgoing where
  frame : Frame
  owner : Option Nat := none
  deriving DecidableEq, Repr

structure Metrics where
  framesSent : Nat := 0
  framesReceived : Nat := 0
  bytesSent : Nat := 0
  bytesReceived : Nat := 0
  streamsOpened : Nat := 0
  streamsAccepted : Nat := 0
  streamsReset : Nat := 0
  pongs : Nat := 0
  /-- The last round trip, in microseconds. -/
  roundTrip : Option Nat := none
  /-- The PONGs that came, each with its time in milliseconds, newest first. They are kept for the
  record: nothing depends on them. -/
  echoes : List (Nat × UInt64) := []
  /-- By how much streams counted too few frames when some were taken off. It is kept for the
  record: nothing depends on it. -/
  shortfall : Nat := 0
  deriving DecidableEq, Repr

/-- What has gone through a connection, newest first. It is kept for the record: nothing depends on
it. -/
structure Journal where
  control : List Frame := []
  data : List Outgoing := []
  taken : List Outgoing := []
  heard : List Frame := []
  deriving DecidableEq, Repr

namespace Journal

def noteControl (j : Journal) (f : Frame) : Journal := { j with control := f :: j.control }

def noteData (j : Journal) (q : Outgoing) : Journal := { j with data := q :: j.data }

def noteTaken (j : Journal) (qs : List Outgoing) : Journal :=
  { j with taken := qs.reverseAux j.taken }

def noteHeard (j : Journal) (f : Frame) : Journal := { j with heard := f :: j.heard }

end Journal

structure Connection where
  role : Role
  options : Options
  codes : CodeSpace
  phase : Phase := .connecting
  peer : Settings := {}
  /-- Every stream there ever was, in the order of creation; elsewhere a stream is its place
  here. -/
  streams : List Stream := []
  table : List (StreamId × Nat) := []
  nextLocal : PerDirection Nat := .both 0
  /-- The least sequence number that a new stream of the peer may have. -/
  nextRemote : PerDirection Nat := .both 0
  activeLocal : PerDirection Nat := .both 0
  activeRemote : PerDirection Nat := .both 0
  /-- Streams of the peer that nobody has accepted yet, oldest first. -/
  acceptQueue : List Nat := []
  controlQueue : List Frame := []
  /-- Data, and CLOSE, oldest first. -/
  dataQueue : List Outgoing := []
  closeSent : Bool := false
  closedLocally : Bool := false
  closeReceived : Option UInt64 := none
  /-- Nothing more is queued: the writer shuts its side down once the queues are empty. -/
  shutdownWrites : Bool := false
  writesShut : Bool := false
  readEnded : Bool := false
  error : Option Failure := none
  metrics : Metrics := {}
  /-- Grows with every change that calls waiting on the connection are told about. -/
  changes : Nat := 0
  journal : Journal := {}

namespace Connection

def notify (c : Connection) : Connection := { c with changes := c.changes + 1 }

def modify (c : Connection) (i : Nat) (f : Stream → Stream) : Connection :=
  { c with streams := c.streams.modify i f }

def notifyStream (c : Connection) (i : Nat) : Connection := c.modify i Stream.notify

def unwritten (c : Connection) (i : Nat) : Nat :=
  match c.streams[i]? with
  | some s => s.unwritten
  | none => 0

/-- Notes that `n` frames are taken off what a stream counts. -/
def noteOff (c : Connection) (i n : Nat) : Connection :=
  { c with metrics := { c.metrics with shortfall := c.metrics.shortfall + (n - c.unwritten i) } }

def find? (c : Connection) (id : StreamId) : Option Nat :=
  (c.table.find? fun entry => entry.1 = id).map (·.2)

def closedError (c : Connection) : Failure :=
  match c.error with
  | some e => e
  | none =>
    match c.closeReceived, c.closedLocally with
    | some code, false => .closedByPeer code
    | _, _ => .closedLocally

/-- Queues a frame that overtakes data. Nothing is queued once the writer is to shut down. -/
def enqueueControl (c : Connection) (f : Frame) : Connection :=
  if c.phase = .closed || c.shutdownWrites then c
  else { c with controlQueue := c.controlQueue ++ [f], journal := c.journal.noteControl f }

def enqueueControl? (c : Connection) : Option Frame → Connection
  | some f => c.enqueueControl f
  | none => c

def append (c : Connection) (q : Outgoing) : Connection :=
  { c with dataQueue := c.dataQueue ++ [q], journal := c.journal.noteData q }

def enqueueData (c : Connection) (i : Nat) (f : Frame) : Connection :=
  (c.modify i fun s => { s with unwritten := s.unwritten + 1 }).append ⟨f, some i⟩

/-- Queues CLOSE behind the data, so that the peer sees every stream that was started before. -/
def enqueueClose (c : Connection) (code : UInt64) : Connection :=
  if c.phase = .closed || c.shutdownWrites then c
  else { c.append ⟨.close (c.codes.toWire code), none⟩ with closeSent := true }

def queuesEmpty (c : Connection) : Bool := c.controlQueue.isEmpty && c.dataQueue.isEmpty

def addStream (c : Connection) (s : Stream) : Nat × Connection :=
  (c.streams.length, { c with streams := c.streams ++ [s] })

def setActive (c : Connection) (remote : Bool) (d : Direction) (f : Nat → Nat) : Connection :=
  if remote then { c with activeRemote := c.activeRemote.set d (f (c.activeRemote.get d)) }
  else { c with activeLocal := c.activeLocal.set d (f (c.activeLocal.get d)) }

def peerSettings (c : Connection) : Option Settings :=
  if c.phase = .connecting then none else some c.peer

end Connection

end Multiplex
