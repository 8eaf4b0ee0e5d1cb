import Multiplex.Rpc.Deployment.Basic

/-!
The server: it accepts connections, accepts the streams of each, and works on every stream.
-/

namespace Multiplex.Rpc.Deployment

/-- Takes a connection over. A server that is stopping hangs up instead. -/
def serve (d : Deployment) (link : Nat) (peer : String) : Deployment :=
  if d.server.stopping then d.modifyLink link Link.hangUp
  else
    let e := Endpoint.ofConnection
      { role := .server, options := d.server.options, codes := Code.space } d.server.channel
    match e.connect d.clock with
    | .error _ => d
    | .ok e =>
      let d := d.modifyLink link (·.setParty (.endpoint e) .far)
      d.modifyServer fun s => { s with servings := s.servings ++ [{ link, peer }] }

def removeServing (d : Deployment) (link : Nat) : Deployment :=
  d.modifyServer fun s => { s with servings := s.servings.filter (·.link ≠ link) }

def setStage (d : Deployment) (link : Nat) (stage : ServingStage) : Deployment :=
  d.modifyServer fun s =>
    { s with servings := s.servings.map fun x => if x.link = link then { x with stage } else x }

def keepDispatching (d : Deployment) (x : Dispatching) (dispatch : Dispatch) (s : Scene) :
    Deployment :=
  let d := d.adopt x.link .far s
  let others := d.server.dispatchings.filter fun y => !(y.link = x.link && y.stream = x.stream)
  d.modifyServer fun server =>
    { server with
      dispatchings := match dispatch with
        | .over => others
        | _ => others ++ [{ x with payload := s.payload, guards := s.guards, dispatch }] }

def dispatch (d : Deployment) (link : Nat) (peer : String) (stream : Nat) : Deployment :=
  match d.connection? link .far with
  | none => d
  | some connection =>
    let (dispatch, s) := Dispatch.start d.server.terms (d.moment none) peer { connection, stream }
    d.keepDispatching { link, peer, stream, payload := .empty, guards := [], dispatch } dispatch s

def wakeDispatching (d : Deployment) (x : Dispatching) : Option Deployment :=
  match d.connection? x.link .far with
  | none => none
  | some connection =>
    let scene : Scene :=
      { connection, stream := x.stream, payload := x.payload, guards := x.guards }
    (x.dispatch.resume d.server.terms (d.moment none) x.peer scene).map fun (dispatch, s) =>
      d.keepDispatching x dispatch s

/-- Calls, or lets a call look again that waits already. -/
def callOrWake (c : Connection) (call : Call) : Option Suspended → Option (Outcome × Connection)
  | none => some (c.call false call)
  | some s => c.wake false s

def wakeServing (d : Deployment) (s : Serving) : Option Deployment :=
  match d.endpoint? s.link .far with
  | none => none
  | some e =>
    let keep (c : Connection) (stage : ServingStage) : Deployment :=
      (d.modifyConnection s.link .far fun _ => c).setStage s.link stage
    match s.stage with
    | .connecting =>
      match e.connected with
      | some (.ok _) => some (d.setStage s.link (.accepting none))
      | some (.error _) => some (d.removeServing s.link)
      | none =>
        if d.server.stopping then
          let d := d.modifyLink s.link (·.modifyEndpoint .far (·.failConnect .cancelled))
          some (d.removeServing s.link)
        else none
    | .accepting z =>
      (callOrWake e.connection .accept z).map fun
        | (.wait z, c) => keep c (.accepting (some ⟨z, c.signal z⟩))
        | (.done (.ok (.stream i)), c) => (keep c (.accepting none)).dispatch s.link s.peer i
        | (.done _, c) => keep c (.ending none)
    | .ending z =>
      (callOrWake e.connection .closed z).map fun
        | (.wait z, c) => keep c (.ending (some ⟨z, c.signal z⟩))
        | (.done _, c) => (d.modifyConnection s.link .far fun _ => c).removeServing s.link

/-- Stops listening. Who was not accepted is hung up on. -/
def dropListener (d : Deployment) (i : Nat) : Deployment :=
  let (links, network) := d.network.unbind i
  let d := links.foldl (fun d link => d.modifyLink link Link.hangUp) { d with network }
  d.modifyServer fun s => { s with listeners := s.listeners.filter (· ≠ i) }

def wakeListener (d : Deployment) (i : Nat) : Option Deployment :=
  if d.server.stopping then some (d.dropListener i)
  else (d.network.accept i).map fun
    | .ok ((link, peer), network) => { d with network }.serve link peer
    | .error _ => d.dropListener i

def wakeServer (d : Deployment) : Option Deployment :=
  (d.server.listeners.findSome? d.wakeListener).or <|
    (d.server.servings.findSome? d.wakeServing).or <|
      d.server.dispatchings.findSome? d.wakeDispatching

/-- Begins to close a connection; none if that is over at once. -/
def beginClosing (d : Deployment) (link : Nat) : Option Suspended × Deployment :=
  match d.connection? link .far with
  | none => (none, d)
  | some c =>
    match c.call false (.close Code.noError.value) with
    | (.wait z, c) => (some ⟨z, c.signal z⟩, d.modifyConnection link .far fun _ => c)
    | (.done _, c) => (none, d.modifyConnection link .far fun _ => c)

/-- Begins to close several connections, and gives the calls that wait. -/
def beginClosings : List Nat → Deployment → List (Nat × Suspended) × Deployment
  | [], d => ([], d)
  | link :: rest, d =>
    let (z, d) := d.beginClosing link
    let (closing, d) := beginClosings rest d
    (z.toList.map (link, ·) ++ closing, d)

def disposeServed (d : Deployment) (links : List Nat) : Deployment :=
  links.foldl (fun d link => d.modifyConnection link .far Connection.dispose) d

def stopAccepting (d : Deployment) : Deployment :=
  let d := d.modifyServer fun s => { s with stopping := true }
  d.server.listeners.foldl dropListener d

/-- Lets the closing of connections go on, and gives the calls that still wait; none if none could
go on. -/
def wakeClosings (d : Deployment) :
    List (Nat × Suspended) → Option (List (Nat × Suspended) × Deployment)
  | [] => none
  | (link, z) :: rest =>
    match (d.connection? link .far).bind (·.wake false z) with
    | some (.wait z, c) =>
      some ((link, ⟨z, c.signal z⟩) :: rest, d.modifyConnection link .far fun _ => c)
    | some (.done _, c) => some (rest, d.modifyConnection link .far fun _ => c)
    | none => (wakeClosings d rest).map fun (closing, d) => ((link, z) :: closing, d)

end Multiplex.Rpc.Deployment
