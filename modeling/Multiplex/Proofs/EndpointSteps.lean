import Multiplex.Proofs.Station

/-!
What works on the pipes of an end does one thing at a time.
-/

namespace Multiplex

namespace Endpoint

variable {e e' : Endpoint} {now : Nat} {out inn out' inn' : Pipe}

theorem letGo_connection (e : Endpoint) : e.letGo.connection = e.connection := by
  unfold letGo
  split <;> rfl

/-- What comes of the wish to connect. -/
inductive Connects (e : Endpoint) : Endpoint → Prop
  | start {o : Opening} {deadline : Nat} (early : e.connection.phase = .connecting)
      (stage : e.stage = .unopened)
      (h : Opening.start e.channel e.connection.options.settings = .ok o) :
      Connects e { e with stage := .opening o deadline }
  | fail {f : Failure} (early : e.connection.phase = .connecting) (stage : e.stage = .unopened)
      (h : Opening.start e.channel e.connection.options.settings = .error f) :
      Connects e (e.failConnect f)

theorem connects_of_connect (h : e.connect now = .ok e') : e.Connects e' := by
  unfold connect at h
  split at h
  · cases h
  · rename_i hp
    have early : e.connection.phase = .connecting := by simpa using hp
    split at h
    · rename_i stage
      split at h <;> rename_i hs <;> cases h
      · exact .start early stage hs
      · exact .fail early stage hs
    · cases h
    · cases h
    · cases h

/-- A step of anything but the writer. -/
inductive Pulls (e : Endpoint) (now : Nat) (out inn : Pipe) : Endpoint → Pipe → Pipe → Prop
  | leave (closed : e.connection.phase = .closed) :
      Pulls e now out inn e.letGo out.close inn.close
  | next {o o' : Opening} {deadline : Nat} {out' inn' : Pipe}
      (live : e.connection.phase ≠ .closed) (stage : e.stage = .opening o deadline)
      (step : o.step e.channel e.connection.options.settings e.connection.maxBody out inn =
        some (.next o', out', inn')) :
      Pulls e now out inn { e with stage := .opening o' deadline } out' inn'
  | refuse {o : Opening} {deadline : Nat} {f : Failure} {out' inn' : Pipe}
      (live : e.connection.phase ≠ .closed) (stage : e.stage = .opening o deadline)
      (step : o.step e.channel e.connection.options.settings e.connection.maxBody out inn =
        some (.failed f, out', inn')) :
      Pulls e now out inn (e.failConnect f) out' inn'
  | establish {o : Opening} {deadline : Nat} {peer : Settings} {inbox : Bytes} {out' inn' : Pipe}
      (live : e.connection.phase ≠ .closed) (stage : e.stage = .opening o deadline)
      (step : o.step e.channel e.connection.options.settings e.connection.maxBody out inn =
        some (.established peer inbox, out', inn')) :
      Pulls e now out inn (e.establish now peer inbox) out' inn'
  | late {o : Opening} {deadline : Nat} (live : e.connection.phase ≠ .closed)
      (stage : e.stage = .opening o deadline) :
      Pulls e now out inn (e.failConnect (.connectFailed .timedOut)) out inn
  | takeIn {r : Running} {idleDeadline : Option Nat} (live : e.connection.phase ≠ .closed)
      (stage : e.stage = .running r) (reading : r.reading = true) :
      Pulls e now out inn
        { e with
          connection := (e.connection.receive now (r.inbox ++ inn.buffer)).1
          stage := .running { r with
            inbox := (e.connection.receive now (r.inbox ++ inn.buffer)).2, idleDeadline } }
        out inn.readAll.2
  | endInput {r : Running} (live : e.connection.phase ≠ .closed) (stage : e.stage = .running r)
      (reading : r.reading = true) (ended : inn.ended = true) :
      Pulls e now out inn
        { e with
          connection := e.connection.endOfInput, stage := .running { r with reading := false } }
        out inn
  | idle {r : Running} (live : e.connection.phase ≠ .closed) (stage : e.stage = .running r) :
      Pulls e now out inn { e with connection := e.connection.abort .connectionIdle } out inn
  | beat {r : Running} {keepAlive : Option KeepAlive} (live : e.connection.phase ≠ .closed)
      (stage : e.stage = .running r) :
      Pulls e now out inn
        { e with
          connection := e.connection.enqueueControl (.ping (pingPayload now))
          stage := .running { r with keepAlive } }
        out inn

theorem pulls_of_read {r : Running} (live : e.connection.phase ≠ .closed)
    (stage : e.stage = .running r) (h : e.read r now inn = some (e', inn')) :
    Pulls e now out inn e' out inn' := by
  unfold read at h
  split at h
  · cases h
  · rename_i hr
    have reading : r.reading = true := by simpa using hr
    split at h
    · cases h
      exact .takeIn live stage reading
    · rename_i hempty
      split at h
      · rename_i hclosed
        cases h
        refine .endInput live stage reading ?_
        unfold Pipe.ended
        simpa [hclosed] using hempty
      · split at h
        · split at h
          · cases h
            exact .idle live stage
          · cases h
        · cases h

theorem pulls_of_pull (h : e.pull now out inn = some (e', out', inn')) :
    Pulls e now out inn e' out' inn' := by
  unfold pull at h
  split at h
  · cases h
  · split at h
    · rename_i closed
      cases h
      exact .leave closed
    · rename_i live
      split at h
      · rename_i stage
        unfold advance at h
        split at h
        · rename_i step
          cases h
          exact .next live stage step
        · rename_i step
          cases h
          exact .refuse live stage step
        · rename_i step
          cases h
          exact .establish live stage step
        · split at h
          · cases h
            exact .late live stage
          · cases h
      · rename_i stage
        split at h
        · rename_i hread
          cases h
          exact pulls_of_read live stage hread
        · obtain ⟨e₁,hb,he⟩ := Option.map_eq_some_iff.mp h
          cases he
          unfold beat at hb
          split at hb
          · split at hb
            · cases hb
              exact .beat live stage
            · cases hb
          · cases hb
      · cases h
      · cases h

/-- A step of the writer. -/
inductive Pushes (e : Endpoint) (out : Pipe) : Endpoint → Pipe → Prop
  | broken :
      Pushes e out { e with connection := e.connection.abort (.connectionLost (.pipe .broken)) } out
  | complete {r : Running} {b : Batch} {out' : Pipe} (live : e.connection.phase ≠ .closed)
      (stage : e.stage = .running r) (batch : r.batch = some b)
      (written : out.write b.bytes = .partly [] out') :
      Pushes e out
        { e with
          connection := e.connection.batchWritten b, stage := .running { r with batch := none } }
        out'
  | write {r : Running} {b : Batch} {rest : Bytes} {out' : Pipe}
      (live : e.connection.phase ≠ .closed) (stage : e.stage = .running r)
      (batch : r.batch = some b) (written : out.write b.bytes = .partly rest out') :
      Pushes e out
        { e with stage := .running { r with batch := some { b with bytes := rest } } } out'
  | ship {r : Running} {b : Batch} {c : Connection} (live : e.connection.phase ≠ .closed)
      (stage : e.stage = .running r) (batch : r.batch = none)
      (taken : e.connection.takeBatch = (some b, c)) :
      Pushes e out { e with connection := c, stage := .running { r with batch := some b } } out
  | shut {r : Running} (live : e.connection.phase ≠ .closed) (stage : e.stage = .running r)
      (batch : r.batch = none) (ready : e.connection.readyToShut = true) :
      Pushes e out { e with connection := e.connection.writesShutDown } out.close

theorem pushes_of_push (h : e.push out = some (e', out')) : Pushes e out e' out' := by
  unfold push at h
  split at h
  · rename_i stage
    split at h
    · cases h
    · rename_i live
      split at h
      · rename_i batch
        unfold writeBatch at h
        split at h
        · cases h
          exact .broken
        · cases h
        · rename_i written
          cases h
          exact .complete live stage batch written
        · rename_i written
          cases h
          exact .write live stage batch written
      · rename_i batch
        split at h
        · rename_i taken
          cases h
          exact .ship live stage batch taken
        · split at h
          · rename_i ready
            cases h
            exact .shut live stage batch ready
          · cases h
  · cases h
  · cases h
  · cases h

end Endpoint

namespace Station

def idle (s : Station) : Event → Bool
  | .call .. => false
  | .look _ n => s.waits[n]?.isNone
  | _ => true

/-- What an event leads to that leaves the pipes alone. -/
inductive Served (s : Station) : Event → Station → Prop
  | rest {e : Event} (h : s.idle e = true) : Served s e s
  | connect {now : Nat} {e : Endpoint} (h : s.endpoint.connect now = .ok e) :
      Served s (.connect now) { s with endpoint := e }
  | cancelConnect {o : Opening} {deadline : Nat} (stage : s.endpoint.stage = .opening o deadline) :
      Served s .cancelConnect { s with endpoint := s.endpoint.failConnect .cancelled }
  | create {d : Direction} {i : Nat} {c : Connection}
      (h : s.connection.createStream d = .ok (i, c)) :
      Served s (.create d) (s.withConnection c)
  | call (cancelled : Bool) (k : Call) :
      Served s (.call cancelled k) (s.settle (s.connection.call cancelled k))
  | look (cancelled : Bool) {n : Nat} {p : Suspended} (h : s.waits[n]? = some p) :
      Served s (.look cancelled n) ((s.release n).settle (s.connection.resume cancelled p.wait))
  | cancel {n : Nat} {p : Suspended} (h : s.waits[n]? = some p) :
      Served s (.cancel n) ((s.release n).withConnection (s.connection.cancel p.wait))
  | drop (n : Nat) : Served s (.drop n) (s.release n)
  | abandonReads (i : Nat) :
      Served s (.abandonReads i) (s.withConnection (s.connection.abandonReads i))
  | reset (i : Nat) (code : UInt64) :
      Served s (.reset i code) (s.withConnection (s.connection.reset i code))
  | disposeStream (i : Nat) :
      Served s (.disposeStream i) (s.withConnection (s.connection.disposeStream i))
  | dispose : Served s .dispose (s.withConnection s.connection.dispose)

theorem served (s : Station) (e : Event) : s.Served e (s.serve e) := by
  cases e with
  | connect now =>
    unfold serve
    dsimp only
    split
    · rename_i h
      exact .connect h
    · exact .rest rfl
  | cancelConnect =>
    unfold serve
    dsimp only
    split
    · rename_i stage _
      exact .cancelConnect stage
    · exact .rest rfl
  | create d =>
    unfold serve
    dsimp only
    split
    · rename_i h
      exact .create h
    · exact .rest rfl
  | look cancelled n =>
    unfold serve
    dsimp only
    split
    · rename_i h
      exact .look cancelled h
    · rename_i h
      exact .rest (by simp [idle,h])
  | cancel n =>
    unfold serve
    dsimp only
    split
    · rename_i h
      exact .cancel h
    · exact .rest rfl
  | call cancelled k => exact .call cancelled k
  | drop n => exact .drop n
  | abandonReads i => exact .abandonReads i
  | reset i code => exact .reset i code
  | disposeStream i => exact .disposeStream i
  | dispose => exact .dispose
  | abandonConnect | pull | push => exact .rest rfl

/-- What an event leads to, with the pipes of the end. -/
inductive Acted (s : Station) (out inn : Pipe) : Event → Station × Pipe × Pipe → Prop
  | rest {e : Event} (h : s.idle e = true ∨ s.barred e = true) : Acted s out inn e (s, out, inn)
  /-- The opening is given up. -/
  | leave {o : Opening} {deadline : Nat} (stage : s.endpoint.stage = .opening o deadline) :
      Acted s out inn .abandonConnect
        ({ s with endpoint := { s.endpoint with stage := .gone } }, out.close, inn.close)
  | pull {now seen room : Nat} {e : Endpoint} {out' q : Pipe}
      (h : s.endpoint.Pulls now (out.withRoom room) (inn.front seen) e out' q) :
      Acted s out inn (.pull now seen room) ({ s with endpoint := e }, out', inn.after seen q)
  | push {room : Nat} {e : Endpoint} {out' : Pipe}
      (h : s.endpoint.Pushes (out.withRoom room) e out') :
      Acted s out inn (.push room) ({ s with endpoint := e }, out', inn)
  | serve {e : Event} (h : s.barred e = false) : Acted s out inn e (s.serve e, out, inn)

theorem acted (s : Station) (out inn : Pipe) (e : Event) : s.Acted out inn e (s.act out inn e) := by
  unfold act
  split
  · split
    · rename_i stage
      exact .leave stage
    · exact .rest (.inl rfl)
    · exact .rest (.inl rfl)
    · exact .rest (.inl rfl)
  · split
    · rename_i h
      exact .pull (Endpoint.pulls_of_pull h)
    · exact .rest (.inl rfl)
  · split
    · rename_i h
      exact .push (Endpoint.pushes_of_push h)
    · exact .rest (.inl rfl)
  · split
    · rename_i h
      exact .rest (.inr h)
    · rename_i h
      exact .serve (by simpa using h)

end Station

end Multiplex
