import Multiplex.Endpoint

/-!
Two parties joined by a pipe in each direction. A party is the end of a connection, or a bare end
that somebody plays by hand.
-/

namespace Multiplex

structure BareEnd where
  outbox : Bytes := []
  fault : Option PipeFault := none
  /-- Whether it leaves what arrives in the pipe. -/
  holding : Bool := false
  /-- What it has read and not yet reported, in pieces, newest first. -/
  heard : List Bytes := []
  ended : Bool := false
  endReported : Bool := false
  gone : Bool := false
  deriving DecidableEq, Repr

/-- What a bare end reports: frames or plain bytes, and then whether the pipe ended. -/
structure Heard where
  frames : List Frame := []
  bytes : Bytes := []
  ended : Bool := false
  deriving DecidableEq, Repr

namespace BareEnd

def read (b : BareEnd) (max : Nat) (inn : Pipe) : Option (BareEnd × Pipe) :=
  if b.gone || b.ended then none
  else if !inn.buffer.isEmpty then
    let (bs, inn) := inn.read max
    some ({ b with heard := bs :: b.heard }, inn)
  else if inn.closed then some ({ b with ended := true }, inn)
  else none

/-- Reports what was heard since the last time. The start of a frame is kept for the next time. -/
def report (b : BareEnd) (plain : Bool) : Heard × BareEnd :=
  let bytes := b.heard.reverse.flatten
  let ended := b.ended && !b.endReported
  let b := { b with endReported := b.ended }
  if plain then ({ bytes, ended }, { b with heard := [] })
  else
    let d := Frame.drain UInt32.size bytes
    ({ frames := d.frames.map (·.1), ended }, { b with heard := [d.rest] })

def pull (b : BareEnd) (inn : Pipe) : Option (BareEnd × Pipe) :=
  if b.holding then none else b.read inn.buffer.length inn

def push (b : BareEnd) (out : Pipe) : Option (BareEnd × Pipe) :=
  if b.outbox.isEmpty then none
  else match out.write b.outbox with
    | .broken => some ({ b with outbox := [], fault := some .broken }, out)
    | .full => none
    | .partly rest out => some ({ b with outbox := rest }, out)

end BareEnd

inductive Party
  | endpoint (e : Endpoint)
  | bare (b : BareEnd)

namespace Party

def pull (p : Party) (now : Nat) (out inn : Pipe) : Option (Party × Pipe × Pipe) :=
  match p with
  | .endpoint e => (e.pull now out inn).map fun (e, out, inn) => (.endpoint e, out, inn)
  | .bare b => (b.pull inn).map fun (b, inn) => (.bare b, out, inn)

def push (p : Party) (out : Pipe) : Option (Party × Pipe) :=
  match p with
  | .endpoint e => (e.push out).map fun (e, out) => (.endpoint e, out)
  | .bare b => (b.push out).map fun (b, out) => (.bare b, out)

end Party

inductive Side
  | near
  | far
  deriving DecidableEq, Repr

structure Link where
  near : Party
  far : Party
  /-- From near to far. -/
  forth : Pipe
  back : Pipe

namespace Link

def join (near far : Party) (capacity : Nat) : Link where
  near
  far
  forth := { capacity }
  back := { capacity }

def party (l : Link) : Side → Party
  | .near => l.near
  | .far => l.far

def setParty (l : Link) (p : Party) : Side → Link
  | .near => { l with near := p }
  | .far => { l with far := p }

def endpoint? (l : Link) (s : Side) : Option Endpoint :=
  match l.party s with
  | .endpoint e => some e
  | .bare _ => none

def bare? (l : Link) (s : Side) : Option BareEnd :=
  match l.party s with
  | .bare b => some b
  | .endpoint _ => none

def out (l : Link) : Side → Pipe
  | .near => l.forth
  | .far => l.back

def inn (l : Link) : Side → Pipe
  | .near => l.back
  | .far => l.forth

def setPipes (l : Link) (out inn : Pipe) : Side → Link
  | .near => { l with forth := out, back := inn }
  | .far => { l with forth := inn, back := out }

def pull (l : Link) (now : Nat) (s : Side) : Option Link :=
  ((l.party s).pull now (l.out s) (l.inn s)).map fun (p, out, inn) =>
    (l.setParty p s).setPipes out inn s

def push (l : Link) (s : Side) : Option Link :=
  ((l.party s).push (l.out s)).map fun (p, out) => (l.setParty p s).setPipes out (l.inn s) s

/-- Closes both pipes, as a party that lets go of them does. -/
def hangUp (l : Link) : Link := { l with forth := l.forth.close, back := l.back.close }

def modifyEndpoint (l : Link) (s : Side) (f : Endpoint → Endpoint) : Link :=
  match l.party s with
  | .endpoint e => l.setParty (.endpoint (f e)) s
  | .bare _ => l

def modifyConnection (l : Link) (s : Side) (f : Connection → Connection) : Link :=
  l.modifyEndpoint s fun e => { e with connection := f e.connection }

def modifyBare (l : Link) (s : Side) (f : BareEnd → BareEnd) : Link :=
  match l.party s with
  | .bare b => l.setParty (.bare (f b)) s
  | .endpoint _ => l

def connection? (l : Link) (s : Side) : Option Connection := (l.endpoint? s).map (·.connection)

/-- Stops connecting without a word: the pipes are let go, and the connection stays as it is. -/
def abandonConnect (l : Link) (s : Side) : Link :=
  match l.endpoint? s with
  | some e =>
    match e.stage with
    | .opening .. => (l.modifyEndpoint s fun e => { e with stage := .gone }).hangUp
    | .unopened | .running _ | .gone => l
  | none => l

end Link

inductive BareAction
  | feed (bytes : Bytes)
  | finish
  | hangUp
  | hold
  | release
  /-- Reads up to this many bytes although it holds. -/
  | drain (count : Nat)

/-- How writing at a bare end went. -/
inductive Fed
  | whole
  /-- There was no room for all of it. -/
  | stalled
  | brokenPipe
  | gone
  deriving DecidableEq, Repr

namespace Link

def isGone (l : Link) (s : Side) : Bool :=
  match l.bare? s with
  | some b => b.gone
  | none => true

/-- Does at once what an action says. Bytes to feed are put out for writing, and draining goes
piece by piece. -/
def act (l : Link) (s : Side) : BareAction → Link
  | .feed bytes =>
    if l.isGone s then l else l.modifyBare s fun b => { b with outbox := bytes, fault := none }
  | .finish => if l.isGone s then l else l.setPipes (l.out s).close (l.inn s) s
  | .hangUp => (l.modifyBare s fun b => { b with gone := true }).hangUp
  | .hold => l.modifyBare s fun b => { b with holding := true }
  | .release => l.modifyBare s fun b => { b with holding := false }
  | .drain _ => l

/-- How feeding went, once everything has settled. What could not be written is lost. -/
def fed (l : Link) (s : Side) : Fed × Link :=
  match l.bare? s with
  | none => (.gone, l)
  | some b =>
    let result : Fed := if b.gone then .gone else if b.fault.isSome then .brokenPipe
      else if b.outbox.isEmpty then .whole else .stalled
    (result, l.modifyBare s fun b => { b with outbox := [] })

def sip (l : Link) (s : Side) (count : Nat) : Option (Nat × Link) :=
  match l.bare? s with
  | none => none
  | some b =>
    (b.read count (l.inn s)).map fun (b, inn) =>
      (min count (l.inn s).buffer.length, (l.setParty (.bare b) s).setPipes (l.out s) inn s)

def report (l : Link) (s : Side) (plain : Bool) : Heard × Link :=
  match l.bare? s with
  | none => ({}, l)
  | some b =>
    let (heard, b) := b.report plain
    (heard, l.setParty (.bare b) s)

end Link

end Multiplex
