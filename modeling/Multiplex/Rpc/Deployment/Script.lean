import Multiplex.Quiescence
import Multiplex.Rpc.Deployment.Calling

/-!
A scripted use of a server and its clients. After each command everything runs until nothing can go
on.
-/

namespace Multiplex.Rpc.Deployment

structure Dial where
  options : Options
  channel : Channel
  maxHeader : Nat

inductive Command
  | listen (address : String)
  | shutDown (token : Option String)
  | connect (name address : String) (dial : Dial) (token : Option String)
  /-- A client whose peer is a raw end of the same name. -/
  | connectRaw (name : String) (dial : Dial) (capacity : Nat) (plain : Bool) (token : Option String)
  | serveRaw (name : String) (capacity : Nat) (plain : Bool)
  /-- Sends a request, a new one or the one that has the name. With `reading` the response is read
  too. -/
  | invoke (client name : String) (request : Option (Except Error Request)) (reading : Bool)
      (token : Option String)
  /-- Reads a chunk of a response, or all of it. -/
  | read (name : String) (max : Option Nat) (token : Option String)
  | disposeRequest (name : String)
  | dropRequest (name : String)
  | close (client : String) (token : Option String)
  | dispose (client : String)
  | drop (client : String)
  | metrics (client : String)
  | openGate (name : String)
  | cancel (token : String)
  | abort (label : Nat)
  | advance (time : Nat)
  | raw (name : String) (action : BareAction)

inductive Said
  | nothing
  | noClient
  | noRequest
  | error (e : Error)
  | metrics (m : Metrics)
  | fed (f : Fed)

def moveLink (d : Deployment) (f : Link → Option Link) : Option Deployment :=
  (List.range d.links.length).findSome? fun i =>
    (d.links[i]?.bind f).map fun l => { d with links := d.links.set i l }

/-- The next thing that happens by itself: all readers come before everybody who works on streams,
and those before all writers. None if nothing can. -/
def next (d : Deployment) : Option Deployment :=
  (d.moveLink fun l => (l.pull d.clock .near).or (l.pull d.clock .far)).or <|
    d.wakeServer.or <|
      (d.operations.findSome? d.wakeOperation).or <|
        d.moveLink fun l => (l.push .near).or (l.push .far)

def quiesce (d : Deployment) : Deployment := Multiplex.quiesce next d

def pass : Nat → Deployment → Deployment
  | 0, d => d
  | n + 1, d => pass n { d with clock := d.clock + 1 }.quiesce

def startConnect (d : Deployment) (label link : Nat) (name : String) (dial : Dial)
    (token : Option String) : Deployment :=
  let e := Endpoint.ofConnection
    { role := .client, options := dial.options, codes := Code.space } dial.channel
  match e.connect d.clock with
  | .error _ => d
  | .ok e =>
    (d.modifyLink link (·.setParty (.endpoint e) .near)).keep
      { label, token, link := some link } (.connect name dial.maxHeader)

def putRaw (d : Deployment) (name : String) (r : RawEnd) : Deployment :=
  let d := match d.raw.lookup name with
    | some old => d.modifyLink old.link (·.act old.side .hangUp)
    | none => d
  { d with raw := (name, r) :: d.raw.filter (·.1 ≠ name) }

/-- Somebody who leaves everything in the pipe. -/
def nobody : Party := .bare { holding := true }

/-- Dials an address. The far end is nobody until the server takes it. -/
def dial (d : Deployment) (label : Nat) (name address : String) (dial : Dial)
    (token : Option String) : Deployment :=
  let (link, added) := d.addLink (.join nobody nobody d.buffer)
  match added.network.connect address link with
  | (.error f, network) =>
    { d with network, finished := (label, .error (.network f)) :: d.finished }
  | (.ok (), network) => { added with network }.startConnect label link name dial token

/-- Reads on at a raw end until `count` bytes were read or none are there, letting things settle
after each piece. -/
def drain (link : Nat) (side : Side) : Nat → Nat → Deployment → Deployment
  | 0, _, d => d
  | _, 0, d => d
  | fuel + 1, count, d =>
    match d.links[link]?.bind (·.sip side count) with
    | none => d
    | some (size, l) =>
      let d := (d.modifyLink link fun _ => l).quiesce
      if size = 0 then d else drain link side fuel (count - size) d

def rawStep (d : Deployment) (r : RawEnd) (action : BareAction) : Said × Deployment :=
  let d := (d.modifyLink r.link (·.act r.side action)).quiesce
  match action with
  | .feed _ =>
    match d.links[r.link]?.map (·.fed r.side) with
    | some (fed, l) => (.fed fed, d.modifyLink r.link fun _ => l)
    | none => (.nothing, d)
  | .drain count => (.nothing, drain r.link r.side (count + 1) count d)
  | .finish | .hangUp | .hold | .release => (.nothing, d)

def start (d : Deployment) (label : Nat) (command : Command) : Said × Deployment :=
  let silent (d : Deployment) : Said × Deployment := (.nothing, d)
  let say (s : Said) : Said × Deployment := (s, d)
  let done (r : Result) (d : Deployment) : Deployment :=
    { d with finished := (label, r) :: d.finished }
  let withClient (name : String) (f : Client → Said × Deployment) : Said × Deployment :=
    match d.clients.lookup name with
    | some c => f c
    | none => (.noClient, d)
  match command with
  | .listen address =>
    match d.network.bind address with
    | .error f => silent (done (.error (.network f)) d)
    | .ok (i, network) =>
      let d := { d with network }.modifyServer fun s => { s with listeners := s.listeners ++ [i] }
      silent (done (.text address) d)
  | .shutDown token => silent (d.startShutDown { label, token })
  | .connect name address dial token => silent (d.dial label name address dial token)
  | .connectRaw name dial capacity plain token =>
    let (link, d) := d.addLink (.join nobody (.bare {}) capacity)
    silent ((d.putRaw name ⟨link, .far, plain⟩).startConnect label link name dial token)
  | .serveRaw name capacity plain =>
    let (link, d) := d.addLink (.join (.bare {}) nobody capacity)
    silent (done .ok ((d.putRaw name ⟨link, .near, plain⟩).serve link ("raw-" ++ name)))
  | .invoke client name request reading token =>
    withClient client fun c =>
      let go (d : Deployment) (r : Request) : Said × Deployment :=
        silent (d.startInvocation { label, token, link := some c.link } name reading c r)
      match request with
      | some (.error e) => say (.error e)
      | some (.ok r) => go d r
      | none =>
        match d.takeRequest name with
        | none => say .noRequest
        | some (slot, d) => go d slot.request
  | .read name max token =>
    match d.takeRequest name with
    | none => say .noRequest
    | some (slot, taken) =>
      match slot.request.response with
      | none => silent (done .noResponse d)
      | some response =>
        let o : Ticket := { label, token, link := slot.link, holds := false }
        silent (taken.startReading o name max slot.request response)
  | .disposeRequest name =>
    match d.takeRequest name with
    | none => say .noRequest
    | some (slot, d) =>
      let (released, request) := slot.request.dispose
      silent ((d.release slot.link released).putRequest name { slot with request })
  | .dropRequest name => silent (d.dropRequest name)
  | .close client token =>
    withClient client fun c =>
      match d.connection? c.link .near with
      | none => say .noClient
      | some connection =>
        let (outcome, connection) := connection.call (d.isFired token) (.close Code.noError.value)
        silent (d.settleClose { label, token, link := some c.link } c.link outcome connection)
  | .dispose client =>
    withClient client fun c => silent (d.modifyConnection c.link .near Connection.dispose)
  | .drop client => withClient client fun _ => silent (d.dropClient client)
  | .metrics client =>
    withClient client fun c =>
      match d.connection? c.link .near with
      | some connection => say (.metrics connection.metrics)
      | none => say .noClient
  | .openGate name => silent { d with gates := name :: d.gates }
  | .cancel token => silent { d with fired := token :: d.fired }
  | .abort label => silent (d.dropOperation label)
  | .advance _ | .raw .. => silent d

def run (d : Deployment) (label : Nat) (command : Command) : Said × Deployment :=
  let d := { d with log := [], finished := [] }
  match command with
  | .advance time => (.nothing, pass time d)
  | .raw name action =>
    match d.raw.lookup name with
    | some r => d.rawStep r action
    | none => (.noClient, d)
  | command =>
    let (said, d) := d.start label command
    (said, d.quiesce)

def report (d : Deployment) : List (String × Heard) × Deployment :=
  d.raw.foldr (fun (name, r) (heard, d) =>
    match d.links[r.link]?.map (·.report r.side r.plain) with
    | some (h, l) => ((name, h) :: heard, d.modifyLink r.link fun _ => l)
    | none => (heard, d)) ([], d)

def phases (d : Deployment) : List (String × Phase) :=
  d.clients.filterMap fun (name, c) => (d.connection? c.link .near).map fun x => (name, x.phase)

end Multiplex.Rpc.Deployment
