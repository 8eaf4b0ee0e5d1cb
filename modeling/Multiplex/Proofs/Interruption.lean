import Multiplex.Proofs.Funding
import Multiplex.Proofs.Lifecycle
import Multiplex.Proofs.Pausing
import Multiplex.Proofs.Register

/-!
What becomes of a stream when a call on it is cut short by its token.
-/

namespace Multiplex

open Connection

theorem Stream.state_of_ended {s : Stream} (h : s.resetCode.isSome ∨ s.error.isSome) :
    s.state = .reset := by
  unfold state
  rcases h with h | h <;> simp [h]

namespace Connection

section Barren

variable {c c' : Connection} {meant : Prop}

/-- There are no streams on a connection that was never established, and in particular on one that
was cancelled. -/
structure Unbegun (c : Connection) : Prop where
  connecting : c.phase = .connecting → c.streams = []
  cancelled : c.error = some .cancelled → c.phase = .closed ∧ c.streams = []

theorem Deed.unbegun (hd : Deed meant c c') (h : c.Unbegun) : c'.Unbegun := by
  have hkept (hp : c.phase ≠ .active) (hs : c.streams = []) : c'.streams = [] := by
    have hids := (hd.frozen hp).ids
    rw [ids,ids,hs] at hids
    exact List.map_eq_nil_iff.mp hids
  have hsame (hx : c'.error = c.error) (he : c'.error = some .cancelled) :
      c'.phase = .closed ∧ c'.streams = [] := by
    obtain ⟨hp,hs⟩ := h.cancelled (hx.symm.trans he)
    exact ⟨(hd.closed hp).1,hkept (by simp [hp]) hs⟩
  rcases hd.wears with ⟨-,hp',hx⟩ | hw
  · exact ⟨fun hp => by simp [hp] at hp',hsame hx⟩
  · refine ⟨fun hp' => ?_,fun he => ?_⟩
    · have hp : c.phase = .connecting := not_not.mp fun hp => hw.phase.not_connecting hp hp'
      exact hkept (by simp [hp]) (h.connecting hp)
    · rcases hw.error with hx | ⟨-,hclosed,e,hx,-,early⟩
      · exact hsame hx he
      · have hp := early (Option.some.inj (hx.symm.trans he))
        exact ⟨hclosed,hkept (by simp [hp]) (h.connecting hp)⟩

theorem Deeds.unbegun (hd : Deeds meant c c') (h : c.Unbegun) : c'.Unbegun := by
  induction hd with
  | refl => exact h
  | tail _ hd ih => exact hd.unbegun ih

theorem Unbegun.calm {i : Nat} {s : Stream} (h : c.Unbegun) (hi : c.streams[i]? = some s) :
    c.closedError ≠ .cancelled := by
  intro hx
  unfold closedError at hx
  split at hx
  · rename_i he
    rw [(h.cancelled (hx ▸ he)).2] at hi
    cases hi
  · split at hx <;> cases hx

end Barren

section Reset

variable {c : Connection} {i : Nat} {s : Stream} (code : UInt64) {w : Wait}

theorem reset_of_ended (hi : c.streams[i]? = some s)
    (h : s.resetCode.isSome ∨ s.error.isSome ∨ s.released = true) : c.reset i code = c := by
  unfold reset
  simp only [hi]
  rw [if_pos]
  simpa [or_assoc] using h

/-- What was queued to overtake data, and the record of it. -/
def urgent (c : Connection) : List Frame × List Frame := (c.controlQueue, c.journal.control)

theorem urgent_enqueueClose (c : Connection) (code : UInt64) :
    (c.enqueueClose code).urgent = c.urgent := by
  unfold enqueueClose
  split <;> rfl

theorem urgent_finishIfClosed (c : Connection) : c.finishIfClosed.urgent = c.urgent := by
  unfold finishIfClosed
  split <;> rfl

theorem urgent_progressClose (c : Connection) : c.progressClose.urgent = c.urgent := by
  unfold progressClose
  split
  · rfl
  · have hanswer : (if c.closeReceived.isSome && !c.closeSent then c.enqueueClose 0 else c).urgent =
        c.urgent := by
      split
      · exact c.urgent_enqueueClose 0
      · rfl
    generalize (if c.closeReceived.isSome && !c.closeSent then c.enqueueClose 0 else c) = x
      at hanswer
    refine (urgent_finishIfClosed _).trans ?_
    split <;> exact hanswer

/-- What goes with the end of a stream is put behind the data. -/
theorem urgent_maybeRelease (c : Connection) (i : Nat) : (c.maybeRelease i).urgent = c.urgent := by
  unfold maybeRelease
  split
  · rfl
  · split
    · rfl
    · split
      · rfl
      · dsimp only
        rw [urgent_progressClose,setActive_eq]
        rfl

/-- The stream at place `i`, with the id that it has if it has started, was just reset. The frame
that says so is the last one that was queued to overtake data. -/
structure ResetBy (c : Connection) (i : Nat) (id? : Option StreamId) (code wire : UInt64) :
    Prop where
  marked : ∃ s, c.streams[i]? = some s ∧ s.id = id? ∧ s.resetCode = some code
  said : ∀ id, id? = some id → c.controlQueue.getLast? = some (.reset id wire) ∧
    c.journal.control.head? = some (.reset id wire)

theorem Sound.resetBy (h : c.Sound) (hi : c.streams[i]? = some s) (hr : s.resetCode = none)
    (he : s.error = none) (hl : s.released = false) :
    (c.reset i code).ResetBy i s.id code (c.codes.toWire code) := by
  have hmark : (s.markReset code).resetCode = some code := by simp [Stream.markReset,hr]
  unfold Connection.reset
  simp only [hi,hr,he,hl]
  rw [if_neg (by simp)]
  cases hid : s.id with
  | none =>
    split
    · exact ⟨⟨_,getElem?_modify_self hi _,hid,hmark⟩,by simp⟩
    · unfold sendReset
      simp only [getElem?_modify_self hi,Stream.markReset_id,hid]
      exact ⟨⟨_,getElem?_modify_self (getElem?_modify_self hi _) _,hid,hmark⟩,by simp⟩
  | some id =>
    obtain ⟨hp,hw⟩ := h.not_closed hi hid hl
    rw [if_neg hp]
    unfold sendReset
    have hi₁ := getElem?_modify_self hi (·.markReset code)
    simp only [hi₁,Stream.markReset_id,Stream.markReset_released,hid,hl]
    rw [if_neg (by simp)]
    generalize hc₂ : (c.modify i (·.markReset code)).enqueueControl _ = c₂
    have hsaid : c₂.urgent = (c.controlQueue ++ [.reset id (c.codes.toWire code)],
        .reset id (c.codes.toWire code) :: c.journal.control) := by
      subst hc₂
      rw [Connection.enqueueControl,if_neg (by simp [Connection.modify,hp,hw])]
      rfl
    have hi₂ : c₂.streams[i]? = some (s.markReset code) := by
      rw [← hc₂,enqueueControl_eq]
      exact hi₁
    rw [purge_notify_eq hi₂]
    generalize hc₃ : ({ c₂ with streams := _, dataQueue := _, metrics := _ } : Connection) = c₃
    have hi₃ : c₃.streams[i]? = some (c₂.cleared i (s.markReset code)) := by
      rw [← hc₃]
      exact List.getElem?_set_self (List.getElem?_eq_some_iff.mp hi₂).1
    have hsaid₃ : (c₃.maybeRelease i).urgent = c₂.urgent := by
      rw [urgent_maybeRelease,← hc₃]
      rfl
    obtain ⟨hi₄,-⟩ := streams_maybeRelease hi₃ hid
    rw [hsaid] at hsaid₃
    obtain ⟨hqueue,hrecord⟩ := Prod.mk.inj hsaid₃
    refine ⟨⟨_,getElem?_modify_self hi₄ _,?_,?_⟩,fun id' hid' => ?_⟩
    · rw [Stream.settle_agrees]
      exact hid
    · rw [Stream.settle_agrees]
      exact hmark
    · cases hid'
      exact ⟨by rw [notifyStream,Connection.modify,hqueue]; simp,
        by rw [notifyStream,Connection.modify,hrecord]; rfl⟩

theorem cancel_of_isSlot (c : Connection) (h : w.isSlot = true) : c.cancel w = c := by
  cases w with
  | slot => rfl
  | credit | written | data | peerStream | pong | closed => cases h

/-- What it means for a stream to be cut short: it had completed both sides, or it is reset now. -/
theorem Sound.cancel_cases (h : c.Sound) (hi : c.streams[i]? = some s) (hw : w.stream? = some i)
    (hslot : w.isSlot = false) :
    let code := c.codes.resetCode .cancelled
    (c.cancel w = c ∧ s.localDone = true ∧ s.remoteDone = true ∧ s.resetCode = none ∧
        s.error = none) ∨
      c.cancel w = c ∧ (s.resetCode.isSome ∨ s.error.isSome) ∨
      (c.cancel w).ResetBy i s.id code (c.codes.toWire code) := by
  intro code
  have hreset : c.cancel w = c.reset i code := by
    cases w with
    | slot => cases hslot
    | credit | written | data =>
      cases hw
      rfl
    | peerStream | pong | closed => cases hw
  rw [hreset]
  by_cases hended : s.resetCode.isSome ∨ s.error.isSome
  · exact .inr (.inl ⟨reset_of_ended code hi (hended.elim .inl (.inr ∘ .inl)),hended⟩)
  · obtain ⟨hr,he⟩ : s.resetCode = none ∧ s.error = none := by simpa using hended
    by_cases hl : s.released = true
    · refine .inl ⟨reset_of_ended code hi (.inr (.inr hl)),?_⟩
      obtain ⟨id,hid⟩ : ∃ id, s.id = some id := by
        refine Option.ne_none_iff_exists'.mp fun hnone => ?_
        cases ((h.idle hi hnone).1.released).symm.trans hl
      have hspent := (h.held hi hid).sound.spent hl
      simp only [he,Option.isSome_none,Bool.false_eq_true,or_false,Bool.and_eq_true] at hspent
      exact ⟨hspent.1,hspent.2,hr,he⟩
    · exact .inr (.inr (h.resetBy code hi hr he (Bool.eq_false_of_not_eq_true hl)))

end Reset

section Ended

variable {c c' : Connection} {i : Nat}

def Ended (c : Connection) (i : Nat) : Prop :=
  ∃ s, c.streams[i]? = some s ∧ (s.resetCode.isSome ∨ s.error.isSome)

theorem Ended.modify (h : c.Ended i) {j : Nat} {f : Stream → Stream}
    (hf : ∀ s, c.streams[j]? = some s → s.resetCode.isSome ∨ s.error.isSome →
      (f s).resetCode.isSome ∨ (f s).error.isSome) : (c.modify j f).Ended i := by
  obtain ⟨s,hi,hs⟩ := h
  by_cases hj : j = i
  · subst hj
    exact ⟨f s,getElem?_modify_self hi f,hf s hi hs⟩
  · exact ⟨s,by simpa [Connection.modify,hj] using hi,hs⟩

theorem Ended.of_streams (h : c.Ended i) (hs : c'.streams = c.streams) : c'.Ended i := by
  obtain ⟨s,hi,he⟩ := h
  exact ⟨s,hs ▸ hi,he⟩

theorem Edit.ended (he : Edit c c') (h : c.Ended i) : c'.Ended i := by
  cases he with
  | rest _ streams => exact h.of_streams streams
  | tend hf =>
    refine h.modify fun s hs => ?_
    simp only [Option.isSome_iff_ne_none]
    exact Or.imp (mt (hf s hs).reset) (mt (hf s hs).error)
  | add _ =>
    obtain ⟨s,hi,hs⟩ := h
    exact ⟨s,getElem?_append_of_some _ hi,hs⟩
  | purge => exact h.modify fun _ _ => id
  | say | discard => exact h

theorem Entries.ended {here : Option Nat} (he : Entries here c c') (h : c.Ended i) :
    c'.Ended i := by
  induction he with
  | refl => exact h
  | tail _ he ih =>
    cases he with
    | edit he => exact he.ended ih
    | queue => exact ih.modify fun _ _ => id

theorem Ended.batchWritten (h : c.Ended i) (b : Batch) : (c.batchWritten b).Ended i := by
  have hfold (l : List Nat) (c : Connection) (h : c.Ended i) :
      (l.foldl frameWritten c).Ended i := by
    induction l generalizing c with
    | nil => exact h
    | cons j l ih =>
      refine ih _ (h.modify fun s _ hs => ?_)
      dsimp only
      split <;> exact hs
  exact hfold _ _ (h.of_streams rfl)

theorem ResetBy.ended {id? : Option StreamId} {code wire : UInt64} (h : c.ResetBy i id? code wire) :
    c.Ended i := by
  obtain ⟨s,hi,-,hr⟩ := h.marked
  exact ⟨s,hi,.inl (by simp [hr])⟩

theorem Sound.cut_off {c₁ : Connection} {s : Stream} {w : Wait} (h : c.Sound)
    (hi : c.streams[i]? = some s) (hd : Deeds False c c₁) (hn : c₁.Numbered)
    (hw : w.stream? = some i) (hslot : w.isSlot = false) (hp : c₁ = c ∨ Pauses i c w c₁) :
    let code := c.codes.resetCode .cancelled
    (c₁.cancel w = c ∧ s.localDone = true ∧ s.remoteDone = true ∧ s.resetCode = none ∧
        s.error = none) ∨
      (c₁.cancel w).Ended i ∧ (s.resetCode = none → s.error = none →
        ∃ id?, (c₁.cancel w).ResetBy i id? code (c.codes.toWire code)) := by
  rcases hp with rfl | hp
  · rcases h.cancel_cases hi hw hslot with hdone | ⟨hsame,hended⟩ | hreset
    · exact .inl hdone
    · rw [hsame]
      exact .inr ⟨⟨s,hi,hended⟩,fun hr he => by simp [hr,he] at hended⟩
    · exact .inr ⟨hreset.ended,fun _ _ => ⟨_,hreset⟩⟩
  · obtain ⟨s₁,hi₁,hr₁,he₁,hsame⟩ := hp.unended hslot
    rw [← hd.later.codes]
    rcases (hd.sound h hn).cancel_cases hi₁ hw hslot with ⟨hc,hl,hr,hrest⟩ | ⟨-,hended⟩ | hreset
    · obtain rfl := hsame hl hr
      cases hi.symm.trans hi₁
      exact .inl ⟨hc,hl,hr,hrest⟩
    · simp [hr₁,he₁] at hended
    · exact .inr ⟨hreset.ended,fun _ _ => ⟨_,hreset⟩⟩

theorem Ended.refuses (h : c.Ended i) (cancelled : Bool) (data : Bytes) :
    (∃ e, c.call cancelled (.write i data) = (.done (.error e), c)) ∧
      ∃ e, c.call cancelled (.writeFinish i data) = (.done (.error e), c) := by
  obtain ⟨s,hi,hs⟩ := h
  have herror : ∃ e, c.writeError i = some e := by
    simp only [Connection.writeError,hi,← Option.ne_none_iff_exists']
    intro hw
    obtain ⟨-,-,he,hr,-⟩ := Stream.writeError_eq_none_iff.mp hw
    simp [he,hr] at hs
  obtain ⟨e,he⟩ := herror
  simp only [call,he]
  exact ⟨⟨e,rfl⟩,e,rfl⟩

end Ended

end Connection

namespace Station

variable {s : Station} {i : Nat}

theorem ended_after (t : Step) (h : s.connection.Ended i) : (s.step t).connection.Ended i := by
  have hd := s.act_dispatches t.out t.inn t.event
  cases hd with
  | rest entries => exact entries.ended h
  | greet _ entries => exact entries.ended h
  | ship _ _ taken =>
    obtain ⟨_,_,_,hc⟩ := takeBatch_eq taken
    exact h.of_streams (congrArg (·.streams) hc)
  | write _ _ _ connection => exact h.of_streams (congrArg (·.streams) connection)
  | complete _ _ _ connection =>
    rw [Station.connection,Station.step,connection]
    exact h.batchWritten _

theorem ended_later (steps : List Step) (h : s.connection.Ended i) :
    (s.run steps).connection.Ended i := by
  induction steps using List.reverseRecOn with
  | nil => exact h
  | append_singleton steps t ih =>
    rw [run_concat]
    exact ended_after t ih

/-- A call on the stream at place `i` that an event lets run, and what it comes to. -/
inductive Turn (s : Station) (i : Nat) : Event → Outcome × Connection → Prop
  | call {cancelled : Bool} {k : Call} (on : k.stream? = some i)
      (free : s.barred (.call cancelled k) = false) :
      Turn s i (.call cancelled k) (s.connection.call cancelled k)
  | look {cancelled : Bool} {n : Nat} {p : Suspended} (waits : s.waits[n]? = some p)
      (on : p.wait.stream? = some i) :
      Turn s i (.look cancelled n) (s.connection.resume cancelled p.wait)
  | cancel {n : Nat} {p : Suspended} (waits : s.waits[n]? = some p) (on : p.wait.stream? = some i) :
      Turn s i (.cancel n) (.done (.error .cancelled), s.connection.cancel p.wait)

/-- Whether the call that an event lets run has to wait for its stream to start. -/
def awaitsSlot (s : Station) : Event → Bool
  | .call _ k => (s.connection.call false k).1.wait?.any Wait.isSlot
  | .look _ n =>
    s.waits[n]?.any fun p => (s.connection.resume false p.wait).1.wait?.any Wait.isSlot
  | .cancel n => s.waits[n]?.any fun p => p.wait.isSlot
  | _ => false

section Turn

variable {c' : Connection} {e : Event} {stream : Stream}

theorem Turn.step_eq {t : Step} {turn : Outcome × Connection} (h : s.Turn i t.event turn) :
    (s.step t).connection = turn.2 := by
  obtain ⟨out,inn,e⟩ := t
  cases h with
  | call on free =>
    rw [Register.step_serve s rfl,if_neg (by simp [free])]
    exact settle_connection s _
  | look waits on =>
    rw [Register.step_look waits]
    exact settle_connection _ _
  | cancel waits on =>
    rw [Register.step_cancel waits]
    rfl

/-- A call that ends as cancelled was cut short where it would have waited, unless its stream had
failed so before. -/
theorem Turn.cut (h : s.Turn i e (.done (.error .cancelled), c'))
    (hi : s.connection.streams[i]? = some stream) (calm : s.connection.closedError ≠ .cancelled) :
    (stream.error = some .cancelled ∧ s.awaitsSlot e = false) ∨
    ∃ w c₁, c' = c₁.cancel w ∧ w.stream? = some i ∧ s.awaitsSlot e = w.isSlot ∧
      (c₁ = s.connection ∨ Pauses i s.connection w c₁) ∧ Deeds False s.connection c₁ := by
  generalize hturn : (Outcome.done (.error .cancelled), c') = turn at h
  cases h with
  | @call cancelled k on _ =>
    have hcut : s.connection.call false k = (.done (.error .cancelled), c') ∨
        ∃ w c₁, s.connection.call false k = (.wait w, c₁) ∧ c' = c₁.cancel w := by
      cases cancelled with
      | false => exact .inl hturn.symm
      | true => exact interrupt_eq ((call_true _ k).symm.trans hturn.symm)
    rcases hcut with hx | ⟨w,c₁,hx,hc⟩
    · exact .inl ⟨cancelled_of_call calm hi on hx,by simp [awaitsSlot,hx,Outcome.wait?]⟩
    · have hp := pauses_call on hx
      refine .inr ⟨w,c₁,hc,hp.stream,by simp [awaitsSlot,hx,Outcome.wait?],.inr hp,?_⟩
      have hd : Deeds False s.connection (s.connection.call false k).2 :=
        ((evolves_call s.connection false k).mono And.left).deeds
      rwa [hx] at hd
  | @look cancelled n p waits on =>
    have hcut : s.connection.resume false p.wait = (.done (.error .cancelled), c') ∨
        ∃ w c₁, s.connection.resume false p.wait = (.wait w, c₁) ∧ c' = c₁.cancel w := by
      cases cancelled with
      | false => exact .inl hturn.symm
      | true => exact interrupt_eq ((resume_true _ p.wait).symm.trans hturn.symm)
    rcases hcut with hx | ⟨w,c₁,hx,hc⟩
    · exact .inl ⟨cancelled_of_resume calm hi on hx,by simp [awaitsSlot,waits,hx,Outcome.wait?]⟩
    · have hp := pauses_resume on hx
      refine .inr ⟨w,c₁,hc,hp.stream,by simp [awaitsSlot,waits,hx,Outcome.wait?],.inr hp,?_⟩
      have hd := ((evolves_resume s.connection false p.wait).mono
        fun hx : s.connection.Ready ∧ False => hx.2.elim).deeds
      rwa [hx] at hd
  | @cancel n p waits on =>
    exact .inr ⟨p.wait,s.connection,(Prod.mk.inj hturn).2,on,by simp [awaitsSlot,waits],.inl rfl,
      .refl⟩

end Turn

theorem Fresh.unbegun {s : Station} (h : s.Fresh) (steps : List Step) :
    (s.run steps).connection.Unbegun :=
  (h.deeds steps).unbegun
    (h.connection fun _ _ _ => ⟨fun _ => rfl,by simp [Connection.fresh]⟩)

variable (role : Role) (options : Options) (codes : CodeSpace) (channel : Channel)

/-- A call on a stream that is cut short by its token while it waits for anything but the start of
the stream ends the stream for good, unless that had completed both sides. If the stream had not
ended before, it is reset with the code for what is cancelled, and the peer is told if it knows the
stream. A call that waits for the start of its stream leaves everything as it was. -/
theorem cancelled_call_resets (steps more : List Step) (t : Step) {i : Nat} {stream : Stream}
    {c' : Connection}
    (hn : ((fresh role options codes channel).run (steps ++ t :: more)).connection.Numbered)
    (hi : ((fresh role options codes channel).run steps).connection.streams[i]? = some stream)
    (hturn : ((fresh role options codes channel).run steps).Turn i t.event
      (.done (.error .cancelled), c')) :
    let s := (fresh role options codes channel).run steps
    let later := ((fresh role options codes channel).run (steps ++ t :: more)).connection
    ((fresh role options codes channel).run (steps ++ [t])).connection = c' ∧
    (s.awaitsSlot t.event = true → c' = s.connection) ∧
    (s.awaitsSlot t.event = false →
      (c' = s.connection ∧ stream.localDone = true ∧ stream.remoteDone = true ∧
        stream.resetCode = none ∧ stream.error = none) ∨
      ∃ stream', c'.streams[i]? = some stream' ∧ stream'.state = .reset ∧
        (∀ cancelled data,
          (∃ e, later.call cancelled (.write i data) = (.done (.error e), later)) ∧
          ∃ e, later.call cancelled (.writeFinish i data) = (.done (.error e), later)) ∧
        (stream.resetCode = none → stream.error = none →
          stream'.resetCode = some (codes.resetCode .cancelled) ∧
          ∀ id, stream'.id = some id →
            c'.controlQueue.getLast? =
              some (.reset id (codes.toWire (codes.resetCode .cancelled))) ∧
            c'.journal.control.head? =
              some (.reset id (codes.toWire (codes.resetCode .cancelled))))) := by
  intro s later
  have hfresh := Fresh.intro role options codes channel
  have hafter : ((fresh role options codes channel).run (steps ++ [t])).connection = c' := by
    rw [run_concat]
    exact hturn.step_eq
  have hsplit : steps ++ t :: more = steps ++ [t] ++ more := List.append_cons steps t more
  have hn' : c'.Numbered := by
    rw [hsplit] at hn
    exact hafter ▸ hfresh.numbered hn
  have hs : s.connection.Sound := hfresh.sound (hfresh.numbered hn)
  have hcodes : s.connection.codes = codes := (hfresh.deeds steps).later.codes
  -- what has ended takes no more data at any later time
  have hlasting (hended : c'.Ended i) : later.Ended i := by
    have hrun := ended_later (s := (fresh role options codes channel).run (steps ++ [t])) more
      (hafter.symm ▸ hended)
    rwa [← run_append,← hsplit] at hrun
  refine ⟨hafter,?_⟩
  rcases hturn.cut hi ((hfresh.unbegun steps).calm hi) with
    ⟨hfail,hslot⟩ | ⟨w,c₁,rfl,hw,hslot,hpause,hd⟩
  · -- the stream had failed before the call
    refine ⟨fun hx => absurd (hslot.symm.trans hx) (by simp),fun _ => .inr ?_⟩
    have hended : c'.Ended i := by
      rw [← hafter,run_concat]
      exact ended_after t ⟨stream,hi,.inr (by simp [hfail])⟩
    obtain ⟨stream',hi',he⟩ := id hended
    refine ⟨stream',hi',Stream.state_of_ended he,(hlasting hended).refuses,fun _ hnone => ?_⟩
    cases hfail.symm.trans hnone
  · refine ⟨fun hx => ?_,fun hx => ?_⟩ <;> rw [hslot] at hx
    · rcases hpause with rfl | hpause
      · exact cancel_of_isSlot _ hx
      · cases hpause with
        | slot => rfl
        | credit | written | data => cases hx
    · have hn₁ : c₁.Numbered := hn'.of_later (Moves.kept (moves_cancel c₁ w)).later
      refine (hs.cut_off hi hd hn₁ hw hx hpause).imp_right fun ⟨hended,hreset⟩ => ?_
      rw [hcodes] at hreset
      obtain ⟨stream',hi',he⟩ := id hended
      refine ⟨stream',hi',Stream.state_of_ended he,(hlasting hended).refuses,fun hr he => ?_⟩
      obtain ⟨id?,⟨t',ht',hid,hcode⟩,hsaid⟩ := hreset hr he
      cases hi'.symm.trans ht'
      exact ⟨hcode,fun id hx => hsaid id (hid.symm.trans hx)⟩

/-- A read on a stream that has started waits for data. -/
def listening : List Step :=
  meeting {} ++ [.quiet (.create .bidirectional), .quiet (.call false (.write 0 [1])),
    .quiet (.call false (.read 0 (.upTo 8)))]

/-- The read is cut short. -/
theorem cancelled_call_resets_listening :
    let s := fresh .client {} .direct .plain
    let c := (s.run (listening ++ [.quiet (.cancel 0)])).connection
    c.Numbered ∧ (s.run listening).Turn 0 (.cancel 0) (.done (.error .cancelled), c) ∧
      c.controlQueue.getLast? = some (.reset ⟨0⟩ 1) ∧
      ∀ data, ∃ e, c.call false (.write 0 data) = (.done (.error e), c) := by
  intro s c
  have hn : c.Numbered := by decide +kernel
  have hwait : (s.run listening).waits[0]? = some ⟨.data 0 (.upTo 8), 0⟩ := by decide +kernel
  have hopen : (s.run listening).connection.streams[0]?.map
      (fun t => (t.remoteDone, t.resetCode, t.error)) = some (false, none, none) := by
    decide +kernel
  obtain ⟨stream,hi,hstream⟩ := Option.map_eq_some_iff.mp hopen
  obtain ⟨hdone,hr,he⟩ : stream.remoteDone = false ∧ stream.resetCode = none ∧
      stream.error = none := by simpa using hstream
  have hturn : (s.run listening).Turn 0 (.cancel 0) (.done (.error .cancelled), _) :=
    .cancel hwait rfl
  obtain ⟨hafter,-,hrest⟩ := cancelled_call_resets .client {} .direct .plain listening []
    (.quiet (.cancel 0)) hn hi hturn
  rw [← hafter] at hturn hrest
  rcases hrest (by decide +kernel) with ⟨-,-,hd,-⟩ | ⟨stream',hi',-,hrefused,hreset⟩
  · cases hdone.symm.trans hd
  · have hid : c.streams[0]?.map (·.id) = some (some ⟨0⟩) := by decide +kernel
    rw [hi',Option.map_some,Option.some.injEq] at hid
    exact ⟨hn,hturn,((hreset hr he).2 _ hid).1,fun data => (hrefused false data).1⟩

/-- The peer takes one stream of a kind, and a write on a second one waits for its start. -/
def crowded : List Step :=
  meeting { maxUnidirectional := 1 } ++ [.quiet (.create .unidirectional),
    .quiet (.create .unidirectional), .quiet (.call false (.write 0 [1])),
    .quiet (.call false (.write 1 [2]))]

/-- The write is cut short and says so, but its stream is not reset: once the first stream has
ended, data goes out on it. -/
theorem cancelled_start_keeps_stream :
    let s := fresh .client {} .direct .plain
    let c := (s.run (crowded ++ [.quiet (.cancel 0)])).connection
    let later :=
      (s.run (crowded ++ [.quiet (.cancel 0), .quiet (.call false (.finish 0))])).connection
    (s.run crowded).Turn 1 (.cancel 0) (.done (.error .cancelled), c) ∧
      c.streams[1]?.map (·.state) = some .idle ∧
      (later.call false (.write 1 [3])).1.result? = some (.ok .unit) := by
  intro s c later
  have hwait : (s.run crowded).waits[0]? = some ⟨.slot 1 [2] false, 0⟩ := by decide +kernel
  have hturn : (s.run crowded).Turn 1 (.cancel 0) (.done (.error .cancelled), _) :=
    .cancel hwait rfl
  have hc : c = (s.run crowded).connection.cancel (.slot 1 [2] false) := by
    have hstep := hturn.step_eq (t := .quiet (.cancel 0))
    rw [← run_concat] at hstep
    dsimp only at hstep
    exact hstep
  rw [← hc] at hturn
  exact ⟨hturn,by decide +kernel,by decide +kernel⟩

end Station

end Multiplex
