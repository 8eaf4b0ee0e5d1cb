import Multiplex.Link
import Multiplex.Network.Basic
import Multiplex.Quiescence

/-!
A scripted use of a network: ends of connections are written to and read from.
-/

namespace Multiplex

open Rpc (NetworkFault)

structure NetworkEnd where
  connection : Nat
  side : Side
  deriving DecidableEq, Repr

structure PipePair where
  forth : Pipe
  back : Pipe
  deriving DecidableEq, Repr

namespace PipePair

def out (p : PipePair) : Side → Pipe
  | .near => p.forth
  | .far => p.back

def inn (p : PipePair) : Side → Pipe
  | .near => p.back
  | .far => p.forth

def setOut (p : PipePair) (pipe : Pipe) : Side → PipePair
  | .near => { p with forth := pipe }
  | .far => { p with back := pipe }

def setInn (p : PipePair) (pipe : Pipe) : Side → PipePair
  | .near => { p with back := pipe }
  | .far => { p with forth := pipe }

def hangUp (p : PipePair) : PipePair := ⟨p.forth.close, p.back.close⟩

end PipePair

namespace NetworkSession

inductive Result
  | fault (e : NetworkFault)
  | text (s : String)
  | bytes (bs : Bytes)

inductive Task
  | accept (listener : Nat) (name : String)
  | write (e : NetworkEnd) (rest : Bytes)
  | read (e : NetworkEnd) (size : Nat) (got : Bytes)

structure Operation where
  label : Nat
  task : Task

end NetworkSession

open NetworkSession

structure NetworkSession where
  buffer : Nat := 65536
  network : Network Nat := {}
  pipes : List PipePair := []
  listeners : List (String × Nat) := []
  ends : List (String × NetworkEnd) := []
  operations : List Operation := []
  finished : List (Nat × Result) := []

namespace NetworkSession

def usesEnd (e : NetworkEnd) (o : Operation) : Bool :=
  match o.task with
  | .write e' _ | .read e' _ _ => e' = e
  | .accept .. => false

def usesListener (i : Nat) (o : Operation) : Bool :=
  match o.task with
  | .accept i' _ => i' = i
  | .write .. | .read .. => false

def hangUp (s : NetworkSession) (connection : Nat) : NetworkSession :=
  { s with pipes := s.pipes.modify connection PipePair.hangUp }

/-- Closes an end that nobody can use any more. -/
def letGoEnd (s : NetworkSession) (e : NetworkEnd) : NetworkSession :=
  if s.ends.any (·.2 = e) || s.operations.any (usesEnd e) then s else s.hangUp e.connection

/-- Drops a listener that nobody can use any more, and the connections it held. -/
def letGoListener (s : NetworkSession) (i : Nat) : NetworkSession :=
  if s.listeners.any (·.2 = i) || s.operations.any (usesListener i) then s
  else
    let (dropped, network) := s.network.unbind i
    dropped.foldl hangUp { s with network }

def bindEnd (s : NetworkSession) (name : String) (e : NetworkEnd) : NetworkSession :=
  let old := s.ends.lookup name
  let s := { s with ends := (name, e) :: s.ends.filter (·.1 ≠ name) }
  match old with
  | some old => s.letGoEnd old
  | none => s

def bindListener (s : NetworkSession) (name : String) (i : Nat) : NetworkSession :=
  let old := s.listeners.lookup name
  let s := { s with listeners := (name, i) :: s.listeners.filter (·.1 ≠ name) }
  match old with
  | some old => s.letGoListener old
  | none => s

inductive Step
  | stuck
  | further (task : Task) (s : NetworkSession)
  | done (r : Result) (s : NetworkSession)

def advance (s : NetworkSession) : Task → Step
  | .accept i name =>
    match s.network.accept i with
    | some (.ok ((connection, peer), network)) =>
      .done (.text peer) ({ s with network }.bindEnd name ⟨connection, .far⟩)
    | some (.error e) => .done (.fault e) s
    | none => .stuck
  | .write _ [] => .done (.text "ok") s
  | .write e rest =>
    match s.pipes[e.connection]? with
    | none => .stuck
    | some p =>
      match (p.out e.side).write rest with
      | .broken => .done (.fault (.pipe .broken)) s
      | .full => .stuck
      | .partly rest pipe =>
        .further (.write e rest) { s with pipes := s.pipes.set e.connection (p.setOut pipe e.side) }
  | .read e size got =>
    match s.pipes[e.connection]? with
    | none => .stuck
    | some p =>
      match (p.inn e.side).gather size got with
      | none => .stuck
      | some (.ended, _) => .done (.fault (.pipe .ended)) s
      | some (.all bs, pipe) =>
        .done (.bytes bs) { s with pipes := s.pipes.set e.connection (p.setInn pipe e.side) }
      | some (.part bs, pipe) =>
        .further (.read e size bs)
          { s with pipes := s.pipes.set e.connection (p.setInn pipe e.side) }

def remove (s : NetworkSession) (o : Operation) : NetworkSession :=
  let s := { s with operations := s.operations.filter (·.label ≠ o.label) }
  match o.task with
  | .accept i _ => s.letGoListener i
  | .write e _ | .read e _ _ => s.letGoEnd e

def finish (s : NetworkSession) (label : Nat) (r : Result) : NetworkSession :=
  { s with finished := (label, r) :: s.finished }

def wake (s : NetworkSession) (o : Operation) : Option NetworkSession :=
  match s.advance o.task with
  | .stuck => none
  | .further task s =>
    some { s with
      operations := s.operations.map fun p => if p.label = o.label then { o with task } else p }
  | .done r s => some ((s.remove o).finish o.label r)

/-- Every operation that waits is looked at again. A listener would tell only that accept which was
the last to look, so a script must not have two of them wait on one listener at a time. -/
def next (s : NetworkSession) : Option NetworkSession := s.operations.findSome? s.wake

inductive Command
  | bind (listener address : String)
  | connect (name address : String)
  | accept (name listener : String)
  | write (name : String) (data : Bytes)
  | read (name : String) (size : Nat)
  | drop (name : String)
  | unbind (listener : String)

def start (s : NetworkSession) (label : Nat) (task : Task) : NetworkSession :=
  { s with operations := s.operations ++ [⟨label, task⟩] }

def apply (s : NetworkSession) (label : Nat) : Command → NetworkSession
  | .bind listener address =>
    match s.network.bind address with
    | .ok (i, network) => ({ s with network }.bindListener listener i).finish label (.text address)
    | .error e => s.finish label (.fault e)
  | .connect name address =>
    let connection := s.pipes.length
    match s.network.connect address connection with
    | (.ok (), network) =>
      let pair : PipePair := ⟨{ capacity := s.buffer }, { capacity := s.buffer }⟩
      let s := { s with network, pipes := s.pipes ++ [pair] }
      (s.bindEnd name ⟨connection, .near⟩).finish label (.text "ok")
    | (.error e, network) => { s with network }.finish label (.fault e)
  | .accept name listener =>
    match s.listeners.lookup listener with
    | some i => s.start label (.accept i name)
    | none => s
  | .write name data =>
    match s.ends.lookup name with
    | some e => s.start label (.write e data)
    | none => s
  | .read name size =>
    match s.ends.lookup name with
    | some e => s.start label (.read e size [])
    | none => s
  | .drop name =>
    match s.ends.lookup name with
    | some e => { s with ends := s.ends.filter (·.1 ≠ name) }.letGoEnd e
    | none => s
  | .unbind listener =>
    match s.listeners.lookup listener with
    | some i => { s with listeners := s.listeners.filter (·.1 ≠ listener) }.letGoListener i
    | none => s

def run (s : NetworkSession) (label : Nat) (command : Command) : NetworkSession :=
  quiesce next ({ s with finished := [] }.apply label command)

end NetworkSession

end Multiplex
