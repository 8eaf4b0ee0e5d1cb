import Multiplex.Connection.Calls
import Multiplex.Connection.Sending
import Multiplex.Opening

/-!
One end of a connection with what works on its pipes: the opening, then a reader, a writer and two
timers. Every step does one thing that the pipes and the clock allow. Times are in milliseconds.

When the connection is closed all of them stop at once. What would be ready at that very moment, a
batch that gets through or a frame that has arrived, could as well be completed first; that order is
left out.
-/

namespace Multiplex

structure KeepAlive where
  interval : Nat
  next : Nat
  deriving DecidableEq, Repr

structure Running where
  /-- Bytes that were read and are no whole frame yet. -/
  inbox : Bytes := []
  reading : Bool := true
  idle : Option Nat
  idleDeadline : Option Nat
  batch : Option Batch := none
  keepAlive : Option KeepAlive
  deriving DecidableEq, Repr

inductive Stage
  | unopened
  | opening (o : Opening) (deadline : Nat)
  | running (r : Running)
  | gone

structure Endpoint where
  connection : Connection
  channel : Channel := .plain
  stage : Stage := .unopened
  connected : Option (Except Failure Settings) := none

namespace Endpoint

def ofConnection (connection : Connection) (channel : Channel) : Endpoint := { connection, channel }

def failConnect (e : Endpoint) (f : Failure) : Endpoint :=
  { e with connection := e.connection.abort f, connected := some (.error f) }

def connect (e : Endpoint) (now : Nat) : Except Failure Endpoint :=
  if e.connection.phase != .connecting then .error (.invalidState .connectCalled)
  else match e.stage with
    | .unopened =>
      match Opening.start e.channel e.connection.options.settings with
      | .ok o =>
        .ok { e with stage := .opening o (now + e.connection.options.connectTimeout.toNat) }
      | .error f => .ok (e.failConnect f)
    | .opening .. | .running _ | .gone => .error (.invalidState .connectInProgress)

/-- The connection is active from now on. What was read behind the settings of the peer is its
first input. -/
def establish (e : Endpoint) (now : Nat) (peer : Settings) (inbox : Bytes) : Endpoint :=
  let options := e.connection.options
  let idle := (options.settings.negotiatedIdle peer).map UInt64.toNat
  let keepAlive := if options.keepAlive then
      idle.map fun idle => ⟨(idle + 1) / 2, now + (idle + 1) / 2⟩
    else none
  let (connection, inbox) := { e.connection with peer, phase := .active }.receive now inbox
  { e with
    connection
    connected := some (.ok peer)
    stage := .running { inbox, idle, idleDeadline := idle.map (now + ·), keepAlive } }

/-- Lets go of the pipes. Whoever still waits for the opening hears that it was stopped here. -/
def letGo (e : Endpoint) : Endpoint :=
  match e.stage with
  | .opening .. =>
    { e with stage := .gone, connected := e.connected.or (some (.error .closedLocally)) }
  | .unopened | .running _ | .gone => { e with stage := .gone }

/-- The next thing that the reader does: taking in what arrived, seeing the end of the pipe, or
running out of patience. -/
def read (e : Endpoint) (r : Running) (now : Nat) (inn : Pipe) : Option (Endpoint × Pipe) :=
  if !r.reading then none
  else if !inn.buffer.isEmpty then
    let (bs, inn) := inn.readAll
    let (connection, inbox) := e.connection.receive now (r.inbox ++ bs)
    some ({ e with
      connection
      stage := .running { r with inbox, idleDeadline := r.idle.map (now + ·) } }, inn)
  else if inn.closed then
    some ({ e with
      connection := e.connection.endOfInput
      stage := .running { r with reading := false } }, inn)
  else match r.idleDeadline with
    | some deadline =>
      if deadline ≤ now then some ({ e with connection := e.connection.abort .connectionIdle }, inn)
      else none
    | none => none

def beat (e : Endpoint) (r : Running) (now : Nat) : Option Endpoint :=
  match r.keepAlive with
  | some k =>
    if k.next ≤ now then
      some { e with
        connection := e.connection.enqueueControl (.ping (pingPayload now))
        stage := .running { r with keepAlive := some { k with next := now + k.interval } } }
    else none
  | none => none

def advance (e : Endpoint) (o : Opening) (deadline now : Nat) (out inn : Pipe) :
    Option (Endpoint × Pipe × Pipe) :=
  match o.step e.channel e.connection.options.settings e.connection.maxBody out inn with
  | some (.next o, out, inn) => some ({ e with stage := .opening o deadline }, out, inn)
  | some (.failed f, out, inn) => some (e.failConnect f, out, inn)
  | some (.established peer inbox, out, inn) => some (e.establish now peer inbox, out, inn)
  | none =>
    if deadline ≤ now then some (e.failConnect (.connectFailed .timedOut), out, inn) else none

/-- Everything but writing: the next step of the opening, the reader or a timer, or the end of all
of them. None if there is nothing to do. Nothing more is taken in once the connection is closed. -/
def pull (e : Endpoint) (now : Nat) (out inn : Pipe) : Option (Endpoint × Pipe × Pipe) :=
  match e.stage with
  | .gone => none
  | stage =>
    if e.connection.phase = .closed then some (e.letGo, out.close, inn.close)
    else match stage with
      | .opening o deadline => e.advance o deadline now out inn
      | .running r =>
        match e.read r now inn with
        | some (e, inn) => some (e, out, inn)
        | none => (e.beat r now).map fun e => (e, out, inn)
      | .unopened | .gone => none

def writeBatch (e : Endpoint) (r : Running) (b : Batch) (out : Pipe) : Option (Endpoint × Pipe) :=
  match out.write b.bytes with
  | .broken =>
    some ({ e with connection := e.connection.abort (.connectionLost (.pipe .broken)) }, out)
  | .full => none
  | .partly [] out =>
    some ({ e with
      connection := e.connection.batchWritten b
      stage := .running { r with batch := none } }, out)
  | .partly rest out =>
    some ({ e with stage := .running { r with batch := some { b with bytes := rest } } }, out)

/-- The next thing that the writer does: going on with its batch, taking another one, or shutting
its pipe down after the last. None if there is nothing to do. A batch is given up where it is once
the connection is closed. -/
def push (e : Endpoint) (out : Pipe) : Option (Endpoint × Pipe) :=
  match e.stage with
  | .running r =>
    if e.connection.phase = .closed then none
    else match r.batch with
      | some b => e.writeBatch r b out
      | none =>
        match e.connection.takeBatch with
        | (some b, connection) =>
          some ({ e with connection, stage := .running { r with batch := some b } }, out)
        | (none, _) =>
          if e.connection.readyToShut then
            some ({ e with connection := e.connection.writesShutDown }, out.close)
          else none
  | .unopened | .opening .. | .gone => none

end Endpoint

end Multiplex
