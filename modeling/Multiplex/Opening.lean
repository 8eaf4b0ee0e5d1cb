import Multiplex.Identity
import Multiplex.Pipe

/-!
How a connection is established: the identities are checked, if the channel asks for it, then both
sides announce their settings.
-/

namespace Multiplex

/-- How far one side has come, and what it has still to write or has read so far. -/
inductive Opening
  | hello (rest : Bytes)
  | magic (got : Bytes)
  | nameSize (got : Bytes)
  | name (size : Nat) (got : Bytes)
  | verdict (peer : String)
  /-- Waiting for the verdict of the peer. Whether the own one could be sent is not asked before. -/
  | answer (peer : String) (fault : Option PipeFault)
  | settings (rest : Bytes)
  | peerSettings (inbox : Bytes)
  deriving DecidableEq, Repr

namespace Opening

inductive Progress
  | next (o : Opening)
  | failed (e : Failure)
  /-- The settings of the peer, and what was read behind them. -/
  | established (peer : Settings) (inbox : Bytes)

def announce (own : Settings) : Opening := .settings (Frame.encode (.settings own))

/-- The first stage. A name that is too long fails before anything is written. -/
def start (channel : Channel) (own : Settings) : Except Failure Opening :=
  match channel with
  | .plain => .ok (announce own)
  | .identity i =>
    if Identity.maxName < i.nameBytes.length then
      .error (.connectFailed (.identityTooLong i.nameBytes.length))
    else .ok (.hello i.hello)

def writing (out : Pipe) (bs : Bytes) (rest : Bytes → Opening) (done : Opening)
    (failed : PipeFault → Progress) : Option (Progress × Pipe) :=
  match out.write bs with
  | .broken => some (failed .broken, out)
  | .full => none
  | .partly [] out => some (.next done, out)
  | .partly left out => some (.next (rest left), out)

def reading (inn : Pipe) (size : Nat) (got : Bytes) (part : Bytes → Opening)
    (done : Bytes → Progress) :
    Option (Progress × Pipe) :=
  match inn.gather size got with
  | none => none
  | some (.all bs, inn) => some (done bs, inn)
  | some (.part bs, inn) => some (.next (part bs), inn)
  | some (.ended, inn) => some (.failed (.connectFailed (.handshakePipe .ended)), inn)

def handshakeFailed (fault : PipeFault) : Progress :=
  .failed (.connectFailed (.handshakePipe fault))

def readMagic (bs : Bytes) : Progress :=
  if bs = Identity.magic then .next (.nameSize []) else .failed (.connectFailed .badMagic)

def readNameSize (bs : Bytes) : Progress :=
  let size := Bytes.toWord bs
  if Identity.maxName < size then .failed (.connectFailed (.peerIdentityTooLong size))
  else .next (.name size [])

/-- Settles the identity check. `answer` is the verdict of the peer, if it came. An own rejection
comes first, then the verdict of the peer, then whether the own verdict was sent. -/
def settle (i : Identity) (own : Settings) (peer : String) (fault : Option PipeFault)
    (answer : Option UInt8) : Progress :=
  if !i.trusts peer then .failed (.authenticationFailed (.untrusted peer))
  else match answer with
    | none => handshakeFailed .ended
    | some v =>
      if v ≠ Identity.accepted then .failed (.authenticationFailed (.rejected peer i.name))
      else match fault with
        | some fault => handshakeFailed fault
        | none => .next (announce own)

def readSettings (maxBody : Nat) (inbox : Bytes) : Progress :=
  match Frame.decode maxBody inbox with
  | .frame (.settings s) _ rest => .established s rest
  | .frame f _ _ => .failed (.connectFailed (.settingsExpected f.kind))
  | .incomplete => .next (.peerSettings inbox)
  | .invalid e _ => .failed (.connectFailed (.frame e))

def step (channel : Channel) (own : Settings) (maxBody : Nat) (o : Opening) (out inn : Pipe) :
    Option (Progress × Pipe × Pipe) :=
  match o, channel with
  | .hello rest, _ =>
    (writing out rest .hello (.magic []) handshakeFailed).map fun (p, out) => (p, out, inn)
  | .magic got, _ => (reading inn 4 got .magic readMagic).map fun (p, inn) => (p, out, inn)
  | .nameSize got, _ => (reading inn 2 got .nameSize readNameSize).map fun (p, inn) => (p, out, inn)
  | .name size got, _ =>
    (reading inn size got (.name size) fun bs => .next (.verdict (Text.lossy bs))).map
      fun (p, inn) => (p, out, inn)
  | .verdict peer, .identity i =>
    (writing out [i.verdict peer] (fun _ => .verdict peer) (.answer peer none)
      fun fault => .next (.answer peer (some fault))).map fun (p, out) => (p, out, inn)
  | .answer peer fault, .identity i =>
    match inn.gather 1 [] with
    | some (.all (v :: _), inn) => some (settle i own peer fault (some v), out, inn)
    | some (.ended, inn) => some (settle i own peer fault none, out, inn)
    | _ => none
  | .verdict _, .plain | .answer .., .plain => some (.next (announce own), out, inn)
  | .settings rest, _ =>
    (writing out rest .settings (.peerSettings [])
      fun fault => .failed (.connectFailed (.pipe fault))).map
      fun (p, out) => (p, out, inn)
  | .peerSettings inbox, _ =>
    if inn.buffer.isEmpty then
      if inn.closed then some (.failed (.connectFailed .closedDuringSettings), out, inn) else none
    else
      let (bs, inn) := inn.readAll
      some (readSettings maxBody (inbox ++ bs), out, inn)

end Opening

end Multiplex
