import Multiplex.Rpc.Deployment.Serving

/-!
Operations: what clients do, and shutting the server down.
-/

namespace Multiplex.Rpc.Deployment

/-- Disposes of a client that was let go, once no operation uses it. -/
def letGoClient (d : Deployment) (link : Nat) : Deployment :=
  if d.dropped.contains link && !d.operations.any (fun o => o.link = some link && o.holds) then
    d.modifyConnection link .near Connection.dispose
  else d

def dropClient (d : Deployment) (name : String) : Deployment :=
  match d.clients.lookup name with
  | none => d
  | some c =>
    let d := { d with clients := d.clients.filter (·.1 ≠ name), dropped := c.link :: d.dropped }
    d.letGoClient c.link

def remove (d : Deployment) (o : Ticket) : Deployment :=
  let d := { d with operations := d.operations.filter (·.label ≠ o.label) }
  match o.link with
  | some link => d.letGoClient link
  | none => d

def finish (d : Deployment) (o : Ticket) (r : Result) : Deployment :=
  { d with finished := (o.label, r) :: d.finished }.remove o

def keep (d : Deployment) (o : Ticket) (task : Task) : Deployment :=
  { d with operations := d.operations.filter (·.label ≠ o.label) ++ [{ o with task }] }

def release (d : Deployment) (link : Option Nat) (r : Released) : Deployment :=
  match link.bind fun i => (d.connection? i .near).map (i, ·) with
  | some (i, connection) => d.adopt i .near (Scene.release { connection } r)
  | none => { d with log := d.log ++ Event.told r.told }

def dropRequest (d : Deployment) (name : String) : Deployment :=
  match d.requests.lookup name with
  | none => d
  | some slot =>
    { d with requests := d.requests.filter (·.1 ≠ name) }.release slot.link slot.request.dispose.1

/-- Gives a name to a request. The one that had it is dropped. -/
def putRequest (d : Deployment) (name : String) (slot : Slot) : Deployment :=
  let d := d.dropRequest name
  { d with requests := (name, slot) :: d.requests }

/-- Takes the request of a name away, for an operation on it. -/
def takeRequest (d : Deployment) (name : String) : Option (Slot × Deployment) :=
  (d.requests.lookup name).map fun slot =>
    (slot, { d with requests := d.requests.filter (·.1 ≠ name) })

def settleReading (d : Deployment) (o : Ticket) (name : String) (state : ReadState) : Deployment :=
  match state with
  | .waiting r => d.keep o (.read name r)
  | .finished result request =>
    let d := d.putRequest name ⟨request, o.link⟩
    match result with
    | .ok bs? => d.finish o (.bytes bs?)
    | .error e => d.finish o (.error e)

def startReading (d : Deployment) (o : Ticket) (name : String) (max : Option Nat)
    (request : Request) (response : Response) : Deployment :=
  match o.link.bind fun i => (d.connection? i .near).map (i, ·) with
  | none => (d.putRequest name ⟨request, o.link⟩).finish o .noResponse
  | some (i, connection) =>
    let (state, s) := Reading.start max (d.moment o.token) request response { connection }
    (d.adopt i .near s).settleReading o name state

/-- Goes on after an invocation: the response is read, or what there is of it is reported. -/
def settleInvocation (d : Deployment) (o : Ticket) (name : String) (reading : Bool)
    (state : Invoked) : Deployment :=
  match state with
  | .waiting i => d.keep o (.invoke name reading i)
  | .finished result request =>
    let put := d.putRequest name ⟨request, o.link⟩
    if reading then
      match result, request.response with
      | .error e, _ => put.finish o (.error e)
      | .ok (), none => put.finish o (.bytes (some []))
      | .ok (), some response =>
        match response.check with
        | .error e => put.finish o (.error e)
        | .ok () => d.startReading o name none request response
    else
      let error := match result with
        | .error e => some e
        | .ok () => none
      put.finish o (.invoked request.sent error request.response)

def startInvocation (d : Deployment) (o : Ticket) (name : String) (reading : Bool) (client : Client)
    (request : Request) : Deployment :=
  match d.connection? client.link .near with
  | none => d
  | some connection =>
    let (state, s) := Invocation.start client.maxHeader (d.moment o.token) request { connection }
    (d.adopt client.link .near s).settleInvocation o name reading state

/-- Ends the shutting down of the server. Whatever is still there is disposed of. -/
def finishShutDown (d : Deployment) (o : Ticket) (links : List Nat) (r : Result) : Deployment :=
  (d.disposeServed links).finish o r

def startShutDown (d : Deployment) (o : Ticket) : Deployment :=
  let d := d.stopAccepting
  let links := d.server.servings.map (·.link)
  if d.isFired o.token then d.finishShutDown o links (.error .cancelled)
  else if d.server.shutdownTimeout = 0 || links.isEmpty then d.finishShutDown o links .ok
  else
    let (closing, d) := beginClosings links d
    d.keep o (.shutDown links closing (d.clock + d.server.shutdownTimeout))

def settleClose (d : Deployment) (o : Ticket) (link : Nat) (outcome : Outcome) (c : Connection) :
    Deployment :=
  let d := d.modifyConnection link .near fun _ => c
  match outcome with
  | .wait z => d.keep o (.close ⟨z, c.signal z⟩)
  | .done (.ok _) => d.finish o .ok
  | .done (.error e) => d.finish o (.error (.ofFailure e))

def wakeConnect (d : Deployment) (o : Ticket) (link : Nat) (name : String) (maxHeader : Nat) :
    Option Deployment :=
  let fail (d : Deployment) (f : Failure) : Deployment :=
    (d.modifyConnection link .near Connection.dispose).finish o (.error (.ofFailure f))
  match d.endpoint? link .near with
  | none => none
  | some e =>
    match e.connected, d.isFired o.token with
    | some (.ok peer), _ =>
      let d := d.dropClient name
      some ({ d with clients := (name, ⟨link, maxHeader⟩) :: d.clients }.finish o (.settings peer))
    | some (.error f), _ => some (fail d f)
    | none, true =>
      some (fail (d.modifyLink link (·.modifyEndpoint .near (·.failConnect .cancelled))) .cancelled)
    | none, false => none

def wakeOperation (d : Deployment) (o : Operation) : Option Deployment :=
  let t := o.toTicket
  let near := o.link.bind fun i => (d.connection? i .near).map (i, ·)
  match o.task, near with
  | .shutDown links closing deadline, _ =>
    match d.wakeClosings closing with
    | some (closing, d) => some (d.keep t (.shutDown links closing deadline))
    | none =>
      if closing.isEmpty then some (d.finishShutDown t links .ok)
      else if d.isFired o.token then some (d.finishShutDown t links (.error .cancelled))
      else if deadline ≤ d.clock then some (d.finishShutDown t links .ok)
      else none
  | _, none => none
  | .connect name maxHeader, some (link, _) => d.wakeConnect t link name maxHeader
  | .invoke name reading i, some (link, connection) =>
    (i.resume (d.moment o.token) { connection }).map fun (state, s) =>
      (d.adopt link .near s).settleInvocation t name reading state
  | .read name r, some (link, connection) =>
    (r.resume (d.moment o.token) { connection }).map fun (state, s) =>
      (d.adopt link .near s).settleReading t name state
  | .close z, some (link, connection) =>
    (connection.wake (d.isFired o.token) z).map fun (outcome, c) => d.settleClose t link outcome c

/-- Drops an operation that is under way, with the request it works on. -/
def dropOperation (d : Deployment) (label : Nat) : Deployment :=
  match d.operations.find? (·.label = label) with
  | none => d
  | some o =>
    let near := o.link.bind fun i => (d.connection? i .near).map (i, ·)
    let d := match o.task, near with
      | .connect .., some (link, _) =>
        (d.modifyLink link (·.abandonConnect .near)).modifyConnection link .near Connection.dispose
      | .invoke _ _ i, some (link, connection) => d.adopt link .near (i.drop { connection })
      | .read _ r, some (link, connection) => d.adopt link .near (r.drop { connection })
      | .close _, _ | .shutDown .., _ | _, none => d
    d.remove o.toTicket

end Multiplex.Rpc.Deployment
