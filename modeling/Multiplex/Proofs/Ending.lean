import Multiplex.Proofs.Conduct

/-!
What becomes of calls once their connection is closed. All of them have an answer but two.
-/

namespace Multiplex

def Outcome.isDone : Outcome → Bool
  | .done _ => true
  | .wait _ => false

namespace Connection

theorem isDone_fail (c : Connection) (e : Failure) : (c.fail e).1.isDone = true := rfl

theorem isDone_succeed (c : Connection) (a : Answer) : (c.succeed a).1.isDone = true := rfl

theorem isDone_queueEnd (c : Connection) (i : Nat) (id : StreamId) :
    (c.queueEnd i id).1.isDone = true := by
  unfold queueEnd
  split <;> rfl

theorem isDone_sendEnd (c : Connection) (i : Nat) : (c.sendEnd i).1.isDone = true := by
  unfold sendEnd
  split
  · rfl
  · split
    · rfl
    · split
      · rfl
      · rfl
      · exact c.isDone_queueEnd i _

theorem isDone_readOn {c : Connection} {i : Nat} {s : Stream} {fuel : Nat} {goal : ReadGoal}
    (hi : c.streams[i]? = some s) (hf : s.finReceived = true) (hl : s.inbound.length < fuel) :
    (c.readOn false i fuel goal).1.isDone = true := by
  -- each chunk that does not answer the read leaves one less to take
  induction fuel generalizing c s goal with
  | zero => exact absurd hl (Nat.not_lt_zero _)
  | succ fuel ih =>
    have hlook := c.dataLook i goal.limit
    generalize hx : c.lookData i goal.limit = r at hlook
    simp only [readOn,hx]
    cases hlook with
    | missing | failed => rfl
    | nothing hi' _ _ hf' =>
      cases hi.symm.trans hi'
      cases hf.symm.trans hf'
    | ended => cases goal <;> rfl
    | @chunk t t' chunk hi' hr ht =>
      cases hi.symm.trans hi'
      obtain ⟨u,hu,-,hfin,hin⟩ := streams_without hi ht
      have hnext (hcut : goal.limit ≠ some chunk.length) : u.inbound.length < fuel := by
        have hless := (Stream.takeChunk_length ht).resolve_right hcut
        rw [hin]
        omega
      cases goal with
      | upTo | chunk => rfl
      | exact missing done =>
        dsimp only
        split
        · rfl
        · rename_i hlt
          exact ih hu (hfin.trans hf) (hnext fun he => hlt (le_of_eq (Option.some.inj he)))
      | toEnd done => exact ih hu (hfin.trans hf) (hnext (Option.some_ne_none _).symm)

/-- Waits that no change of a closed connection ends. -/
def Stranded (c : Connection) : Wait → Prop
  | .data i _ => ∃ s, c.streams[i]? = some s ∧ s.id = none ∧ s.readError = none
  | .written i =>
    ∃ s, c.streams[i]? = some s ∧ s.error = none ∧ s.resetCode = none ∧ s.unwritten ≠ 0
  | .slot .. | .credit .. | .peerStream | .pong _ | .closed => False

section Closed

variable {c : Connection} (h : c.Sound) (hp : c.phase = .closed) {i : Nat} {s : Stream}
  {id : StreamId}

include h hp

theorem Sound.released_of_closed (hi : c.streams[i]? = some s) (hid : s.id = some id) :
    s.released = true := by
  by_contra hl
  exact (h.not_closed hi hid (Bool.eq_false_of_not_eq_true hl)).1 hp

theorem Sound.writeError_of_closed (hi : c.streams[i]? = some s) (hid : s.id = some id) :
    ∃ e, s.writeError = some e := by
  refine Option.ne_none_iff_exists'.mp fun hw => ?_
  have := (h.held hi hid).sound.live hw
  cases (h.released_of_closed hp hi hid).symm.trans this

theorem Sound.done_of_closed (hi : c.streams[i]? = some s) (hid : s.id = some id)
    (he : s.error = none) : s.localDone = true ∧ s.remoteDone = true := by
  rcases (h.held hi hid).sound.spent (h.released_of_closed hp hi hid) with hd | hd
  · simpa using hd
  · simp [he] at hd

theorem Sound.isDone_send (id : StreamId) (fin : Bool) (fuel : Nat) (data : Bytes)
    (hid : ∀ s, c.streams[i]? = some s → s.id.isSome) :
    (c.send false i id fin fuel data).1.isDone = true := by
  have hend : (if fin then c.sendEnd i else c.succeed .unit).1.isDone = true := by
    split
    · exact c.isDone_sendEnd i
    · rfl
  cases fuel with
  | zero =>
    unfold Connection.send
    exact hend
  | succ fuel =>
    cases data with
    | nil =>
      unfold Connection.send
      exact hend
    | cons b bs =>
      unfold Connection.send lookCredit
      cases hi : c.streams[i]? with
      | none => rfl
      | some s =>
        obtain ⟨id',hs⟩ := Option.isSome_iff_exists.mp (hid s hi)
        obtain ⟨e,he⟩ := h.writeError_of_closed hp hi hs
        simp only [he]
        rfl

theorem Sound.isDone_startAndSend (i : Nat) (data : Bytes) (fin : Bool) :
    (c.startAndSend false i data fin).1.isDone = true := by
  unfold startAndSend lookSlot
  cases hi : c.streams[i]? with
  | none => rfl
  | some s =>
    cases hs : s.id with
    | some id =>
      simp only [hs]
      unfold sendOn
      split
      · exact c.isDone_queueEnd i id
      · refine h.isDone_send hp id _ _ _ fun t ht => ?_
        cases hi.symm.trans ht
        simp [hs]
    | none =>
      cases hw : s.writeError with
      | some e => simp [hs,hw,fail,Outcome.isDone]
      | none => simp [hs,hw,hp,fail,Outcome.isDone]

theorem Sound.isDone_readFrom (i : Nat) (goal : ReadGoal) :
    (c.readFrom false i goal).1.isDone = true ↔ ¬c.Stranded (.data i goal) := by
  cases hi : c.streams[i]? with
  | none => simp [readFrom,readOn,lookData,hi,Stranded,fail,Outcome.isDone]
  | some s =>
    have hx : c.Stranded (.data i goal) ↔ s.id = none ∧ s.readError = none := by
      simp [Stranded,hi]
    rw [hx]
    unfold readFrom
    simp only [hi]
    cases hr : s.readError with
    | some e => simp [readOn,lookData,hi,hr,fail,Outcome.isDone]
    | none =>
      cases hs : s.id with
      | none =>
        have hfresh := (h.idle hi hs).1
        have ht : s.takeChunk goal.limit = none := Stream.takeChunk_eq_none_iff.mpr hfresh.inbound
        simp [readOn,lookData,hi,hr,ht,hfresh.finReceived,suspend,Outcome.isDone]
      | some id =>
        obtain ⟨hside,hterm,-⟩ := Stream.readError_eq_none_iff.mp hr
        obtain ⟨-,he,hreset⟩ := Stream.termination_eq_none_iff.mp hterm
        have hf : s.finReceived = true := by
          simpa [Stream.remoteDone,hside,hreset] using (h.done_of_closed hp hi hs he).2
        simp [isDone_readOn hi hf (Nat.lt_succ_self _)]

/-- What waits on a closed connection has an answer when it looks again, unless it is stranded. -/
theorem Sound.isDone_resume (w : Wait) : (c.resume false w).1.isDone = true ↔ ¬c.Stranded w := by
  cases w with
  | slot i data fin => simp [resume,Stranded,h.isDone_startAndSend hp i data fin]
  | credit i data fin =>
    simp only [Stranded,not_false_eq_true,iff_true]
    cases hid : c.streams[i]?.bind (·.id) with
    | none =>
      simp only [resume,hid]
      exact c.isDone_fail _
    | some id =>
      simp only [resume,hid]
      refine h.isDone_send hp id fin _ data fun s hi => ?_
      rw [hi] at hid
      simp [show s.id = some id from hid]
  | written i =>
    cases hi : c.streams[i]? with
    | none => simp [resume,lookWritten,Stranded,hi,fail,Outcome.isDone]
    | some s =>
      cases he : s.error <;> cases hr : s.resetCode <;> by_cases hu : s.unwritten = 0 <;>
        simp [resume,lookWritten,Stranded,hi,he,hr,hu,fail,succeed,suspend,Outcome.isDone]
  | data i goal => exact h.isDone_readFrom hp i goal
  | peerStream =>
    simp only [Stranded,not_false_eq_true,iff_true]
    cases hq : c.acceptQueue with
    | cons i rest =>
      simp only [resume,lookPeerStream,hq]
      exact isDone_succeed _ _
    | nil =>
      simp only [resume,lookPeerStream,hq,hp]
      exact c.isDone_fail _
  | pong before =>
    simp only [Stranded,not_false_eq_true,iff_true]
    unfold resume lookPong
    by_cases hb : before < c.metrics.pongs <;> simp [hb,hp,fail,succeed,Outcome.isDone]
  | closed =>
    simp only [Stranded,not_false_eq_true,iff_true]
    unfold resume lookClosed
    cases c.error <;> simp [hp,fail,succeed,Outcome.isDone]

end Closed

end Connection

/-- What a call waits for, if it looks at anything that may never come. -/
def Call.awaits : Call → Option Wait
  | .flush i => some (.written i)
  | .read _ (.upTo 0) | .read _ (.exact 0 _) => none
  | .read i goal => some (.data i goal)
  | .write .. | .writeFinish .. | .finish _ | .accept | .ping _ | .close _ | .closed => none

namespace Connection

theorem Sound.isDone_call {c : Connection} (h : c.Sound) (hp : c.phase = .closed) (k : Call) :
    (c.call false k).1.isDone = true ↔ ∀ w, k.awaits = some w → ¬c.Stranded w := by
  have hstart := h.isDone_startAndSend hp
  have hresume := h.isDone_resume hp
  cases k with
  | write i data =>
    simp only [call,Call.awaits,reduceCtorEq,false_implies,implies_true,iff_true]
    split
    · rfl
    · rfl
    · exact hstart i _ false
  | writeFinish i data =>
    simp only [call,Call.awaits,reduceCtorEq,false_implies,implies_true,iff_true]
    split
    · rfl
    · exact hstart i data true
  | finish i =>
    simp only [call,Call.awaits,reduceCtorEq,false_implies,implies_true,iff_true]
    split
    · rfl
    · split
      · rfl
      · exact hstart i [] true
  | flush i => simpa [call,Call.awaits] using hresume (.written i)
  | read i goal =>
    have hdata := hresume (.data i goal)
    rcases goal with (_ | max) | max | ⟨_ | missing,done⟩ | done
    · simp [call,Call.awaits,succeed,Outcome.isDone]
    · simpa [call,Call.awaits] using hdata
    · simpa [call,Call.awaits] using hdata
    · simp [call,Call.awaits,succeed,Outcome.isDone]
    · simpa [call,Call.awaits] using hdata
    · simpa [call,Call.awaits] using hdata
  | accept => simpa [call,Call.awaits,Stranded] using hresume .peerStream
  | ping now => simp [call,Call.awaits,hp,fail,Outcome.isDone]
  | close code => simpa [call,Call.awaits,hp,beginClose,Stranded] using hresume .closed
  | closed => simpa [call,Call.awaits,Stranded] using hresume .closed

end Connection

namespace Station

open Connection

/-- On a closed connection every wait and every call has an answer, except for reads of streams that
never started and flushes of streams with frames that were never written; and of the streams that
did start only those are concerned that had ended in both directions. -/
theorem closed_decides (role : Role) (options : Options) (codes : CodeSpace) (channel : Channel)
    (steps : List Step)
    (hn : ((fresh role options codes channel).run steps).connection.Numbered)
    (hp : ((fresh role options codes channel).run steps).connection.phase = .closed) :
    let c := ((fresh role options codes channel).run steps).connection
    (∀ w, (c.resume false w).1.isDone = true ↔ ¬c.Stranded w) ∧
      (∀ k : Call, (c.call false k).1.isDone = true ↔ ∀ w, k.awaits = some w → ¬c.Stranded w) ∧
      ∀ (i : Nat) (s : Stream), c.streams[i]? = some s → s.id.isSome → c.Stranded (.written i) →
        s.localDone = true ∧ s.remoteDone = true := by
  intro c
  have h : c.Sound := (Fresh.intro ..).sound hn
  refine ⟨h.isDone_resume hp,h.isDone_call hp,fun i s hi hid hw => ?_⟩
  obtain ⟨id,hs⟩ := Option.isSome_iff_exists.mp hid
  obtain ⟨t,ht,he,-,-⟩ := hw
  cases hi.symm.trans ht
  exact h.done_of_closed hp hi hs he

/-- A read waits on a stream that has not started, a flush on one whose frames the writer has taken,
and the connection is given up. -/
def givenUp : List Step :=
  meeting {} ++ [.quiet (.create .bidirectional), .quiet (.call false (.read 0 (.chunk 8))),
    .quiet (.create .unidirectional), .quiet (.call false (.writeFinish 1 [1, 2, 3])),
    .quiet (.push 1), .quiet (.call false (.flush 1)), .quiet .dispose]

/-- Both go on waiting. -/
theorem dispose_strands :
    let s := (fresh .client {} .direct .plain).run givenUp
    s.connection.phase = .closed ∧ s.waits.map (·.wait) = [.data 0 (.chunk 8), .written 1] ∧
      s.waits.map (fun p => (s.connection.resume false p.wait).1.isDone) = [false, false] := by
  decide +kernel

theorem closed_decides_givenUp :
    ((fresh .client {} .direct .plain).run givenUp).connection.Numbered ∧
      ((fresh .client {} .direct .plain).run givenUp).connection.phase = .closed ∧
      (((fresh .client {} .direct .plain).run givenUp).connection.call false .accept).1.isDone =
        true := by
  have hn : ((fresh .client {} .direct .plain).run givenUp).connection.Numbered := by decide +kernel
  have hp : ((fresh .client {} .direct .plain).run givenUp).connection.phase = .closed := by
    decide +kernel
  refine ⟨hn,hp,((closed_decides .client {} .direct .plain givenUp hn hp).2.1 .accept).mpr ?_⟩
  intro w hw
  cases hw

end Station

end Multiplex
