import Multiplex.Bytes

/-!
Payloads as they are received. A payload is completed once: when it was read to the end, or when its
owner lets it go.
-/

namespace Multiplex.Rpc

/-- What letting something go did: who was told, in order, and which streams were left. -/
structure Released where
  told : List String := []
  streams : List Nat := []
  deriving DecidableEq, Repr

instance : Append Released := ⟨fun a b => ⟨a.told ++ b.told, a.streams ++ b.streams⟩⟩

inductive Content
  /-- Still to arrive on a stream. -/
  | stream (index : Nat)
  | buffered (chunks : List Bytes)
  | completed
  deriving DecidableEq, Repr

structure Payload where
  content : Content
  /-- Who is told when it is completed. -/
  watchers : List String := []
  deriving DecidableEq, Repr

namespace Payload

def empty : Payload := ⟨.buffered [], []⟩

def ofBytes (data : Bytes) : Payload := ⟨.buffered (if data.isEmpty then [] else [data]), []⟩

def ofStream (index : Nat) : Payload := ⟨.stream index, []⟩

def isCompleted (p : Payload) : Bool := p.content = .completed

/-- Registers somebody, who is told at once if the payload is completed already. -/
def watch (p : Payload) (name : String) : Released × Payload :=
  if p.isCompleted then ({ told := [name] }, p)
    else ({}, { p with watchers := p.watchers ++ [name] })

/-- The unread rest is left, and everybody is told. -/
def complete (p : Payload) : Released × Payload :=
  let streams := match p.content with
    | .stream index => [index]
    | .buffered _ | .completed => []
  (⟨p.watchers, streams⟩, ⟨.completed, []⟩)

/-- The next chunk of a payload in memory, of at most `max` bytes but one at least. -/
def takeChunk (p : Payload) (max : Nat) : Option Bytes × Payload :=
  match p.content with
  | .buffered (chunk :: rest) =>
    if chunk.length ≤ max then (some chunk, { p with content := .buffered rest })
    else
      let size := max.max 1
      (some (chunk.take size), { p with content := .buffered (chunk.drop size :: rest) })
  | .buffered [] | .stream _ | .completed => (none, p)

/-- Everything left of a payload in memory. That completes it. -/
def takeAll (p : Payload) : Bytes × Released × Payload :=
  let bytes := match p.content with
    | .buffered chunks => chunks.flatten
    | .stream _ | .completed => []
  (bytes, p.complete)

def text (p : Payload) : String :=
  let source := match p.content with
    | .stream index => s!"stream {index}"
    | .buffered chunks => s!"{chunks.length} buffered chunks"
    | .completed => "completed"
  "IncomingPayload \x7b source: \"" ++ source ++ "\" \x7d"

end Payload

end Multiplex.Rpc
