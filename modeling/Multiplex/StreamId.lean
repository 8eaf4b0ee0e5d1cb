/-!
Which side of a connection an endpoint is, and the numbers that streams carry on the wire.
-/

namespace Multiplex

/-- The side that dialled, and the side that was called. -/
inductive Role
  | client
  | server
  deriving DecidableEq, Repr

inductive Direction
  | bidirectional
  | unidirectional
  deriving DecidableEq, Repr

structure PerDirection (α : Type) where
  bidirectional : α
  unidirectional : α
  deriving DecidableEq, Repr

namespace PerDirection

variable {α : Type}

def both (a : α) : PerDirection α := ⟨a, a⟩

def get (p : PerDirection α) : Direction → α
  | .bidirectional => p.bidirectional
  | .unidirectional => p.unidirectional

def set (p : PerDirection α) (d : Direction) (a : α) : PerDirection α :=
  match d with
  | .bidirectional => { p with bidirectional := a }
  | .unidirectional => { p with unidirectional := a }

@[simp]
theorem get_both (a : α) (d : Direction) : (both a).get d = a := by cases d <;> rfl

theorem get_set (p : PerDirection α) (d e : Direction) (a : α) :
    (p.set d a).get e = if e = d then a else p.get e := by
  cases d <;> cases e <;> rfl

end PerDirection

/-- A stream's number on its connection: the sequence number, then one bit for the direction, then
one for the side that opened it. -/
structure StreamId where
  value : UInt64
  deriving DecidableEq, Repr

namespace StreamId

/-- Bits of the sequence number above the 62nd are lost. -/
def ofParts (sequence : UInt64) (direction : Direction) (initiator : Role) : StreamId :=
  ⟨sequence * 4 + (if direction = .unidirectional then 2 else 0) +
    (if initiator = .server then 1 else 0)⟩

def sequence (id : StreamId) : UInt64 := id.value / 4

def direction (id : StreamId) : Direction :=
  if id.value / 2 % 2 = 0 then .bidirectional else .unidirectional

def initiator (id : StreamId) : Role :=
  if id.value % 2 = 0 then .client else .server

def text (id : StreamId) : String := toString id.value

end StreamId

end Multiplex
