import Multiplex.Connection.Closing

/-!
How queued frames are gathered and written.
-/

namespace Multiplex

structure Batch where
  frames : List Outgoing
  bytes : Bytes
  deriving DecidableEq, Repr

namespace Batch

/-- Frames are gathered until this many bytes are. -/
def limit : Nat := 65536

/-- How many of the leading sizes it takes to fill `room`. -/
def count : Nat → List Nat → Nat
  | _, [] => 0
  | room, size :: sizes => if room = 0 then 0 else count (room - size) sizes + 1

def ofFrames (frames : List Outgoing) : Batch := ⟨frames, frames.flatMap (·.frame.encode)⟩

def size (b : Batch) : Nat := b.frames.foldl (fun n f => n + f.frame.encodedLength) 0

end Batch

namespace Connection

def queued (c : Connection) : List Outgoing := c.controlQueue.map (⟨·, none⟩) ++ c.dataQueue

def takeBatch (c : Connection) : Option Batch × Connection :=
  if c.queuesEmpty then (none, c)
  else
    let n := Batch.count Batch.limit (c.queued.map (·.frame.encodedLength))
    let frames := c.queued.take n
    (some (Batch.ofFrames frames),
      { c with
        controlQueue := c.controlQueue.drop n
        dataQueue := c.dataQueue.drop (n - c.controlQueue.length)
        journal := c.journal.noteTaken frames })

def frameWritten (c : Connection) (i : Nat) : Connection :=
  (c.noteOff i 1).modify i fun s =>
    let s := { s with unwritten := s.unwritten - 1 }
    if s.unwritten = 0 then s.notify else s

def batchWritten (c : Connection) (b : Batch) : Connection :=
  let c := { c with metrics := { c.metrics with
    framesSent := c.metrics.framesSent + b.frames.length
    bytesSent := c.metrics.bytesSent + b.size } }
  (b.frames.filterMap (·.owner)).foldl frameWritten c

def readyToShut (c : Connection) : Bool := c.shutdownWrites && !c.writesShut && c.queuesEmpty

end Connection

end Multiplex
