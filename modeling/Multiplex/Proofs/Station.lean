import Multiplex.Endpoint

/-!
One end with the calls that wait on it, and everything that can happen to it, in any order.
-/

namespace Multiplex

namespace Pipe

def withRoom (p : Pipe) (room : Nat) : Pipe := { p with capacity := p.buffer.length + room }

/-- The pipe, as a reader sees it before which only the first `seen` bytes have come. -/
def front (p : Pipe) (seen : Nat) : Pipe :=
  { p with buffer := p.buffer.take seen, closed := p.closed && decide (p.buffer.length ≤ seen) }

/-- The pipe once a reader has made `q` of what it saw of it. -/
def after (p : Pipe) (seen : Nat) (q : Pipe) : Pipe :=
  { p with buffer := q.buffer ++ p.buffer.drop seen, closed := p.closed || q.closed }

theorem front_append_drop (p : Pipe) (seen : Nat) :
    (p.front seen).buffer ++ p.buffer.drop seen = p.buffer := List.take_append_drop seen p.buffer

/-- The end of a pipe shows only with all that is in it. -/
theorem ended_of_front {p : Pipe} {seen : Nat} (h : (p.front seen).ended = true) :
    p.ended = true := by
  simp only [ended,front,Bool.and_eq_true,decide_eq_true_eq,List.isEmpty_iff] at h ⊢
  obtain ⟨⟨hclosed,hlength⟩,hnil⟩ := h
  rw [List.take_of_length_le hlength] at hnil
  exact ⟨hclosed,hnil⟩

end Pipe

/-- The stream that a call is made on. -/
def Call.stream? : Call → Option Nat
  | .write i _ | .writeFinish i _ | .finish i | .flush i | .read i _ => some i
  | .accept | .ping _ | .close _ | .closed => none

/-- What can happen at one end. -/
inductive Event
  | connect (now : Nat)
  /-- Connecting is cut short. -/
  | cancelConnect
  /-- Nobody waits for the connection any more. -/
  | abandonConnect
  | create (d : Direction)
  | call (cancelled : Bool) (k : Call)
  /-- The call that waits at place `n` looks again. -/
  | look (cancelled : Bool) (n : Nat)
  /-- The call that waits at place `n` is cut short before it has looked again. -/
  | cancel (n : Nat)
  /-- The call that waits at place `n` is given up without a word. -/
  | drop (n : Nat)
  | abandonReads (i : Nat)
  | reset (i : Nat) (code : UInt64)
  | disposeStream (i : Nat)
  | dispose
  /-- The opening, the reader or a timer takes a step. -/
  | pull (now seen room : Nat)
  /-- The writer takes a step. -/
  | push (room : Nat)

/-- The stream that an event is asked of. -/
def Event.stream? : Event → Option Nat
  | .call _ k => k.stream?
  | .abandonReads i | .reset i _ | .disposeStream i => some i
  | .connect _ | .cancelConnect | .abandonConnect | .create _ | .look .. | .cancel _ | .drop _
  | .dispose | .pull .. | .push _ => none

/-- One end, with the calls that wait on it. -/
structure Station where
  endpoint : Endpoint
  waits : List Suspended := []

namespace Station

def connection (s : Station) : Connection := s.endpoint.connection

def withConnection (s : Station) (connection : Connection) : Station :=
  { s with endpoint := { s.endpoint with connection } }

/-- Takes over what a call came to: a connection, and perhaps something to wait for. -/
def settle (s : Station) : Outcome × Connection → Station
  | (.wait w, c) => { s.withConnection c with waits := s.waits ++ [⟨w, c.signal w⟩] }
  | (.done _, c) => s.withConnection c

theorem settle_endpoint (s : Station) (r : Outcome × Connection) :
    (s.settle r).endpoint = { s.endpoint with connection := r.2 } := by
  obtain ⟨_ | _,c⟩ := r <;> rfl

theorem settle_connection (s : Station) (r : Outcome × Connection) :
    (s.settle r).connection = r.2 := by
  rw [connection,settle_endpoint]

def release (s : Station) (n : Nat) : Station := { s with waits := s.waits.eraseIdx n }

/-- Whether an event is asked of a stream of the peer that nobody has accepted. Nobody has such a
stream to ask anything of. -/
def barred (s : Station) (e : Event) : Bool :=
  e.stream?.any fun i => s.connection.acceptQueue.contains i

/-- What an event leads to that leaves the pipes alone. -/
def serve (s : Station) : Event → Station
  | .connect now =>
    match s.endpoint.connect now with
    | .ok endpoint => { s with endpoint }
    | .error _ => s
  | .cancelConnect =>
    match s.endpoint.stage, s.endpoint.connected with
    | .opening .., none => { s with endpoint := s.endpoint.failConnect .cancelled }
    | _, _ => s
  | .create d =>
    match s.connection.createStream d with
    | .ok (_, c) => s.withConnection c
    | .error _ => s
  | .call cancelled k => s.settle (s.connection.call cancelled k)
  | .look cancelled n =>
    match s.waits[n]? with
    | some p => (s.release n).settle (s.connection.resume cancelled p.wait)
    | none => s
  | .cancel n =>
    match s.waits[n]? with
    | some p => (s.release n).withConnection (s.connection.cancel p.wait)
    | none => s
  | .drop n => s.release n
  | .abandonReads i => s.withConnection (s.connection.abandonReads i)
  | .reset i code => s.withConnection (s.connection.reset i code)
  | .disposeStream i => s.withConnection (s.connection.disposeStream i)
  | .dispose => s.withConnection s.connection.dispose
  | .abandonConnect | .pull .. | .push _ => s

/-- What an event leads to, with the pipes of the end. -/
def act (s : Station) (out inn : Pipe) : Event → Station × Pipe × Pipe
  | .abandonConnect =>
    match s.endpoint.stage with
    | .opening .. =>
      ({ s with endpoint := { s.endpoint with stage := .gone } }, out.close, inn.close)
    | .unopened | .running _ | .gone => (s, out, inn)
  | .pull now seen room =>
    match s.endpoint.pull now (out.withRoom room) (inn.front seen) with
    | some (endpoint, out, q) => ({ s with endpoint }, out, inn.after seen q)
    | none => (s, out, inn)
  | .push room =>
    match s.endpoint.push (out.withRoom room) with
    | some (endpoint, out) => ({ s with endpoint }, out, inn)
    | none => (s, out, inn)
  | e => (if s.barred e then s else s.serve e, out, inn)

structure Step where
  out : Pipe
  inn : Pipe
  event : Event

/-- An event while the pipes are empty. -/
def Step.quiet (event : Event) : Step := ⟨{ capacity := 0 }, { capacity := 0 }, event⟩

/-- The end reads frames, and may write as much as it likes. -/
def Step.hearing (frames : List Frame) : Step :=
  let bytes := frames.flatMap Frame.encode
  ⟨{ capacity := 0 }, { capacity := 0, buffer := bytes }, .pull 0 bytes.length 1024⟩

def step (s : Station) (t : Step) : Station := (s.act t.out t.inn t.event).1

/-- What an end comes to whose peer, on the other side of the pipes, does anything at all. -/
def run (s : Station) (steps : List Step) : Station := steps.foldl step s

end Station

/-- A connection to which nothing has happened. -/
def Connection.fresh (role : Role) (options : Options) (codes : CodeSpace) : Connection :=
  { role, options, codes }

/-- An end to which nothing has happened. -/
def Station.fresh (role : Role) (options : Options) (codes : CodeSpace) (channel : Channel) :
    Station :=
  { endpoint := .ofConnection (.fresh role options codes) channel }

/-- Connecting to a peer with the given settings. -/
def Station.meeting (peer : Settings) : List Station.Step :=
  [.quiet (.connect 0), .hearing [], .hearing [.settings peer]]

end Multiplex
