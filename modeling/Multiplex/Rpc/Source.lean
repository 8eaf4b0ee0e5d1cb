import Multiplex.Bytes

/-!
Producers of the payloads that are sent. A producer is completed once, whether or not it was used
up.
-/

namespace Multiplex.Rpc

inductive SourceStep
  | chunk (data : Bytes)
  | gate (name : String)
  deriving DecidableEq, Repr

structure Source where
  name : Option String := none
  steps : List SourceStep := []
  /-- How it fails after its last step. -/
  failure : Option String := none
  deriving DecidableEq, Repr

namespace Source

/-- Bytes in memory. There is no chunk of no bytes. -/
def ofBytes (data : Bytes) : Source := { steps := if data.isEmpty then [] else [.chunk data] }

def takeChunk (s : Source) : Option Bytes × Source :=
  match s.steps with
  | .chunk data :: rest => (some data, { s with steps := rest })
  | .gate _ :: _ | [] => (none, s)

def complete (s : Source) : List String × Source :=
  (s.name.toList, { s with steps := [], failure := none })

/-- Who is told when a producer that may be there is let go. -/
def told : Option Source → List String
  | some s => s.complete.1
  | none => []

end Source

end Multiplex.Rpc
