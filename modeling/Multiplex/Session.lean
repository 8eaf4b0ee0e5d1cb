import Multiplex.Link
import Multiplex.Quiescence

/-!
A scripted use of one link. Commands start operations on the two sides; after each command
everything runs until nothing can go on. Operations that wait are finished in whatever later command
brings what they wait for.
-/

namespace Multiplex.Session

inductive Result
  | failure (e : Failure)
  | settings (s : Settings)
  | answer (a : Answer)
  | accepted (id : Option StreamId) (direction : Direction) (remote : Bool)

inductive Task
  | connect
  | call (s : Suspended)

structure Ticket where
  label : Nat
  side : Side
  /-- The stream it works on; without one it works on the connection. -/
  stream : Option Nat := none
  token : Option String
  name : String := ""

structure Operation extends Ticket where
  task : Task

structure Handle where
  side : Side
  index : Nat
  deriving DecidableEq, Repr

end Session

open Session

structure Session where
  link : Link
  clock : Nat := 0
  /-- Sides whose connection the script has let go of. -/
  dropped : List Side := []
  streams : List (String × Handle) := []
  fired : List String := []
  operations : List Operation := []
  /-- Operations that have finished since the last command. -/
  finished : List (Nat × Result) := []
  plain : Bool := false

namespace Session

def isFired (s : Session) : Option String → Bool
  | some token => s.fired.contains token
  | none => false

def stream? (s : Session) (h : Handle) : Option Stream :=
  (s.link.connection? h.side).bind (·.streams[h.index]?)

def handle? (s : Session) (name : String) : Option Handle := s.streams.lookup name

def connection? (s : Session) (side : Side) : Option Connection :=
  if s.dropped.contains side then none else s.link.connection? side

def modifyConnection (s : Session) (side : Side) (f : Connection → Connection) : Session :=
  { s with link := s.link.modifyConnection side f }

def inUse (s : Session) (h : Handle) : Bool :=
  s.streams.any (·.2 = h) || s.operations.any fun o => o.side = h.side && o.stream = some h.index

def letGoStream (s : Session) (h : Handle) : Session :=
  if s.inUse h then s else s.modifyConnection h.side (·.disposeStream h.index)

/-- Disposes of a connection that was let go, once no operation works on it. -/
def letGoConnection (s : Session) (side : Side) : Session :=
  if s.dropped.contains side && !s.operations.any (fun o => o.side = side && o.stream.isNone) then
    s.modifyConnection side Connection.dispose
  else s

def bind (s : Session) (name : String) (h : Handle) : Session :=
  let old := s.handle? name
  let s := { s with streams := (name, h) :: s.streams.filter (·.1 ≠ name) }
  match old with
  | some old => s.letGoStream old
  | none => s

def unbind (s : Session) (name : String) : Session :=
  let old := s.handle? name
  let s := { s with streams := s.streams.filter (·.1 ≠ name) }
  match old with
  | some old => s.letGoStream old
  | none => s

/-- Takes an operation off the list, and lets go of what only it was using. -/
def remove (s : Session) (o : Ticket) : Session :=
  let s := { s with operations := s.operations.filter (·.label ≠ o.label) }
  match o.stream with
  | some index => s.letGoStream ⟨o.side, index⟩
  | none => s.letGoConnection o.side

def conclude (s : Session) (o : Ticket) : Except Failure Answer → Result × Session
  | .error e => (.failure e, s)
  | .ok (.stream index) =>
    let h : Handle := ⟨o.side, index⟩
    let s := s.bind o.name h
    match s.stream? h with
    | some st => (.accepted st.id st.direction st.remote, s)
    | none => (.failure .closedLocally, s)
  | .ok a => (.answer a, s)

def finish (s : Session) (o : Ticket) (r : Result) : Session :=
  { s with finished := (o.label, r) :: s.finished }.remove o

def settleCall (s : Session) (o : Ticket) (outcome : Outcome) (c : Connection) : Session :=
  let s := s.modifyConnection o.side fun _ => c
  match outcome with
  | .wait w =>
    let others := s.operations.filter (·.label ≠ o.label)
    { s with operations := others ++ [{ o with task := .call ⟨w, c.signal w⟩ }] }
  | .done result =>
    let (r, s) := s.conclude o result
    s.finish o r

def wake (s : Session) (o : Operation) : Option Session :=
  match o.task, s.link.endpoint? o.side with
  | _, none => none
  | .connect, some e =>
    match e.connected, s.isFired o.token with
    | some (.ok peer), _ => some (s.finish o.toTicket (.settings peer))
    | some (.error f), _ => some (s.finish o.toTicket (.failure f))
    | none, true =>
      let link := s.link.modifyEndpoint o.side (·.failConnect .cancelled)
      some ({ s with link }.finish o.toTicket (.failure .cancelled))
    | none, false => none
  | .call w, some e =>
    (e.connection.wake (s.isFired o.token) w).map fun (outcome, c) =>
      s.settleCall o.toTicket outcome c

/-- The next thing that happens by itself: all readers come before all operations, and those before
all writers. None if nothing can. -/
def next (s : Session) : Option Session :=
  let moved (l : Option Link) : Option Session := l.map fun link => { s with link }
  (moved ((s.link.pull s.clock .near).or (s.link.pull s.clock .far))).or <|
    (s.operations.findSome? s.wake).or <|
      moved ((s.link.push .near).or (s.link.push .far))

def quiesce (s : Session) : Session := Multiplex.quiesce next s

inductive ConnectionAction
  | accept (name : String)
  | ping
  | close (code : UInt64)
  | closed

inductive StreamChange
  | abandon
  | reset (code : UInt64)
  | dispose

inductive Command
  | connect (side : Side) (token : Option String)
  | create (side : Side) (direction : Direction) (name : String)
  | connection (side : Side) (action : ConnectionAction) (token : Option String)
  | disposeConnection (side : Side)
  | dropConnection (side : Side)
  | metrics (side : Side)
  | info (side : Side) (code : UInt64)
  | stream (name : String) (action : StreamCall) (token : Option String)
  | change (name : String) (change : StreamChange)
  | dropStream (name : String)
  | describe (name : String)
  | cancel (token : String)
  | abort (label : Nat)
  | advance (time : Nat)
  | bare (side : Side) (action : BareAction)

inductive Reply
  | silent
  | created
  | failure (e : Failure)
  | metrics (m : Metrics)
  | info (role : Role) (peer : Option Settings) (wire : UInt64)
  | description (id : Option StreamId) (state : StreamState)
  | noStream
  | noConnection
  | fed (f : Fed)

def ConnectionAction.call (now : Nat) : ConnectionAction → Call
  | .accept _ => .accept
  | .ping => .ping now
  | .close code => .close code
  | .closed => .closed

def ConnectionAction.name : ConnectionAction → String
  | .accept name => name
  | .ping | .close _ | .closed => ""

/-- Waiting for the end of a connection is not cut short. -/
def ConnectionAction.cancellable : ConnectionAction → Bool
  | .accept _ | .ping | .close _ => true
  | .closed => false

def start (s : Session) (o : Ticket) (call : Call) : Session :=
  match s.link.connection? o.side with
  | none => s
  | some c =>
    let (outcome, c) := c.call (s.isFired o.token) call
    s.settleCall o outcome c

def startConnect (s : Session) (o : Ticket) : Session :=
  match s.link.endpoint? o.side with
  | none => s
  | some e =>
    match e.connect s.clock with
    | .error f => s.finish o (.failure f)
    | .ok e =>
      { s with
        link := s.link.setParty (.endpoint e) o.side
        operations := s.operations ++ [{ o with task := .connect }] }

def pass : Nat → Session → Session
  | 0, s => s
  | n + 1, s => pass n { s with clock := s.clock + 1 }.quiesce

/-- Reads on until `count` bytes were read or none are there, letting things settle after each. -/
def drain (side : Side) : Nat → Nat → Session → Session
  | 0, _, s => s
  | _, 0, s => s
  | fuel + 1, count, s =>
    match s.link.sip side count with
    | none => s
    | some (size, link) =>
      let s := { s with link }.quiesce
      if size = 0 then s else drain side fuel (count - size) s

def bareStep (s : Session) (side : Side) (action : BareAction) : Reply × Session :=
  let s := { s with link := s.link.act side action }.quiesce
  match action with
  | .feed _ =>
    let (fed, link) := s.link.fed side
    (.fed fed, { s with link })
  | .drain count => (.silent, drain side (count + 1) count s)
  | .finish | .hangUp | .hold | .release => (.silent, s)

/-- Drops an operation that is under way. Without its operation a connection is never
established. -/
def dropOperation (s : Session) (label : Nat) : Session :=
  match s.operations.find? (·.label = label) with
  | none => s
  | some o =>
    let s := match o.task with
      | .connect => { s with link := s.link.abandonConnect o.side }
      | .call _ => s
    s.remove o.toTicket

def say (reply : Reply) (s : Session) : Reply × Session := (reply, s.quiesce)

def run (s : Session) (label : Nat) (command : Command) : Reply × Session :=
  let s := { s with finished := [] }
  match command with
  | .connect side token =>
    if (s.connection? side).isNone then s.say .noConnection
    else (s.startConnect { label, side, token }).say .silent
  | .create side direction name =>
    match s.connection? side with
    | none => s.say .noConnection
    | some c =>
      match c.createStream direction with
      | .error e => s.say (.failure e)
      | .ok (index, c) =>
        ((s.modifyConnection side fun _ => c).bind name ⟨side, index⟩).say .created
  | .connection side action token =>
    if (s.connection? side).isNone then s.say .noConnection
    else
      let token := if action.cancellable then token else none
      (s.start { label, side, token, name := action.name } (action.call s.clock)).say .silent
  | .disposeConnection side =>
    if (s.connection? side).isNone then s.say .noConnection
    else (s.modifyConnection side Connection.dispose).say .silent
  | .dropConnection side =>
    if (s.connection? side).isNone then s.say .noConnection
    else ({ s with dropped := side :: s.dropped }.letGoConnection side).say .silent
  | .metrics side =>
    match s.connection? side with
    | none => s.say .noConnection
    | some c => s.say (.metrics c.metrics)
  | .info side code =>
    match s.connection? side with
    | none => s.say .noConnection
    | some c => s.say (.info c.role c.peerSettings (c.codes.toWire code))
  | .stream name action token =>
    match s.handle? name with
    | none => s.say .noStream
    | some h =>
      let o : Ticket := { label, side := h.side, stream := some h.index, token }
      (s.start o (action.on h.index)).say .silent
  | .change name change =>
    match s.handle? name with
    | none => s.say .noStream
    | some h =>
      (s.modifyConnection h.side fun c =>
        match change with
        | .abandon => c.abandonReads h.index
        | .reset code => c.reset h.index code
        | .dispose => c.disposeStream h.index).say .silent
  | .dropStream name =>
    if (s.handle? name).isNone then s.say .noStream else (s.unbind name).say .silent
  | .describe name =>
    match (s.handle? name).bind s.stream? with
    | none => s.say .noStream
    | some st => s.say (.description st.id st.state)
  | .cancel token => { s with fired := token :: s.fired }.say .silent
  | .abort label => (s.dropOperation label).say .silent
  | .advance time => (.silent, pass time s)
  | .bare side action =>
    if (s.link.bare? side).isNone then s.say .noConnection else s.bareStep side action

def report (s : Session) (side : Side) : Heard × Session :=
  let (heard, link) := s.link.report side s.plain
  (heard, { s with link })

end Session

end Multiplex
