import Multiplex.Failure

/-!
A byte pipe in memory, from one writer to one reader.
-/

namespace Multiplex

structure Pipe where
  capacity : Nat
  buffer : Bytes := []
  /-- Set when either end lets go. What was written before can still be read. -/
  closed : Bool := false
  deriving DecidableEq, Repr

namespace Pipe

def room (p : Pipe) : Nat := p.capacity - p.buffer.length

inductive Written
  /-- Nobody will read it. -/
  | broken
  | full
  /-- Some of it is in the pipe, and `rest` is not. -/
  | partly (rest : Bytes) (p : Pipe)

def write (p : Pipe) (bs : Bytes) : Written :=
  if p.closed then .broken
  else match p.room with
    | 0 => .full
    | n + 1 => .partly (bs.drop (n + 1)) { p with buffer := p.buffer ++ bs.take (n + 1) }

def read (p : Pipe) (max : Nat) : Bytes × Pipe :=
  (p.buffer.take max, { p with buffer := p.buffer.drop max })

def readAll (p : Pipe) : Bytes × Pipe := (p.buffer, { p with buffer := [] })

def ended (p : Pipe) : Bool := p.closed && p.buffer.isEmpty

def close (p : Pipe) : Pipe := { p with closed := true }

inductive Gathered
  | all (bs : Bytes)
  | part (bs : Bytes)
  | ended

/-- Adds to `got` until it has `size` bytes; none if nothing is there. -/
def gather (p : Pipe) (size : Nat) (got : Bytes) : Option (Gathered × Pipe) :=
  let missing := size - got.length
  if missing = 0 then some (.all got, p)
  else if p.buffer.isEmpty then if p.closed then some (.ended, p) else none
  else
    let (bs, p) := p.read missing
    let got := got ++ bs
    some (if got.length < size then .part got else .all got, p)

end Pipe

end Multiplex
