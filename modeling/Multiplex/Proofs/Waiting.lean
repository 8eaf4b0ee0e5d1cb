import Multiplex.Proofs.Signals
import Multiplex.Proofs.Ending

/-!
A call that has to wait is left with nothing it could go on with, and as long as it is not told to
look again nothing comes of what it waits for.
-/

namespace Multiplex

namespace Connection

variable {i : Nat} {s : Stream} {c c' : Connection}

def wanted (c : Connection) (data : Bytes) : UInt64 :=
  UInt64.ofNat (min data.length c.peer.maxFrame.toNat)

def blocked (c : Connection) : Wait → Bool
  | .slot i _ _ => (c.lookSlot i).1.isNone
  | .credit i data _ => (c.lookCredit i (c.wanted data)).1.isNone
  | .written i => (c.lookWritten i).isNone
  | .data i goal => (c.lookData i goal.limit).1.isNone
  | .peerStream => c.lookPeerStream.1.isNone
  | .pong before => (c.lookPong before).isNone
  | .closed => c.lookClosed.isNone

/-- Waits with an end that nothing has signalled: a stream was given up before it had started, or it
was ended while more was to be sent, with frames that are not written yet. -/
def Overlooked (c : Connection) : Wait → Prop
  | .slot i _ _ => ∃ s, c.streams[i]? = some s ∧ s.id = none ∧
      (s.resetCode.isSome ∨ s.disposed.isSome)
  | .credit i _ _ => ∃ s, c.streams[i]? = some s ∧ s.finQueued = true ∧ s.termination = none ∧
      s.unwritten ≠ 0
  | .written _ | .data .. | .peerStream | .pong _ | .closed => False

/-- Nothing has come of what a wait is for, as far as it is signalled. -/
def Still (c : Connection) : Wait → Prop
  | .slot i _ _ =>
    c.phase = .active ∧ ∃ s, c.streams[i]? = some s ∧ s.id = none ∧ c.Full s.direction
  | .credit i data _ => ∃ s, c.streams[i]? = some s ∧ s.hasWriteSide = true ∧ s.termination = none ∧
      (s.credit.available = 0 ∨ c.wanted data = 0) ∧ (s.finQueued = true → s.unwritten ≠ 0)
  | .written i =>
    ∃ s, c.streams[i]? = some s ∧ s.error = none ∧ s.resetCode = none ∧ s.unwritten ≠ 0
  | .data i _ => ∃ s, c.streams[i]? = some s ∧ s.readError = none ∧ s.inbound = [] ∧
      s.finReceived = false
  | .peerStream => c.phase = .active ∧ c.acceptQueue = []
  | .pong before => c.phase ≠ .closed ∧ c.metrics.pongs ≤ before
  | .closed => c.phase ≠ .closed

section Quiet

variable (h : TellsAll c c')

include h

theorem Tells.quiet_stream (hi : c.streams[i]? = some s) (hq : i ∉ c.acceptQueue)
    (hs : ∀ s', c'.streams[i]? = some s' → s'.changes = s.changes) :
    ∃ s', c'.streams[i]? = some s' ∧ s'.direction = s.direction ∧ s'.remote = s.remote ∧
      s.Quiet s' := by
  obtain ⟨s',hi',ht⟩ := h.streams hi
  exact ⟨s',hi',ht.direction,ht.remote,ht.silent (by simpa using hq) (hs s' hi')⟩

theorem Tells.signal_le (w : Wait) (hw : ∀ i, w.stream? = some i → ∃ s, c.streams[i]? = some s) :
    c.signal w ≤ c'.signal w := by
  have hstream (i : Nat) (hx : w.stream? = some i) :
      c.signal (.written i) ≤ c'.signal (.written i) := by
    obtain ⟨s,hi⟩ := hw i hx
    obtain ⟨s',hi',ht⟩ := h.streams hi
    simp only [signal,hi,hi']
    exact ht.grows
  cases w with
  | credit i | written i | data i => exact hstream i rfl
  | slot | peerStream | pong | closed => exact h.grows

/-- As long as the signal of a wait is not raised, nothing comes of it. -/
theorem Still.tells {w : Wait} (hw : c.Still w) (hq : ∀ i, w.stream? = some i → i ∉ c.acceptQueue)
    (hs : c'.signal w = c.signal w) : c'.Still w := by
  have hchanges {i : Nat} {s : Stream} (hi : c.streams[i]? = some s)
      (hx : c'.signal (.written i) = c.signal (.written i)) :
      ∀ s', c'.streams[i]? = some s' → s'.changes = s.changes := by
    intro s' hi'
    simpa only [signal,hi,hi'] using hx
  cases w with
  | slot i data fin =>
    obtain ⟨ha,s,hi,hid,hf⟩ := hw
    have hquiet := h.silent id hs
    obtain ⟨s',hi',ht⟩ := h.streams hi
    refine ⟨hquiet.active ha,s',hi',hquiet.idle ha hi hi' hid hf,?_⟩
    rw [ht.direction]
    exact hquiet.full ha _ hf
  | credit i data fin =>
    obtain ⟨s,hi,hside,hterm,hcredit,hfin⟩ := hw
    obtain ⟨s',hi',hd,hr,hx⟩ := h.quiet_stream hi (hq i rfl) (hchanges hi hs)
    obtain ⟨h₁,h₂,h₃⟩ := Stream.termination_eq_none_iff.mp hterm
    have hpeer : c'.peer = c.peer := h.peer fun he => by simp [he] at hi
    refine ⟨s',hi',?_,Stream.termination_eq_none_iff.mpr
      ⟨hx.disposed.trans h₁,hx.error.trans h₂,hx.resetCode.trans h₃⟩,?_,?_⟩
    · simpa [Stream.hasWriteSide,hd,hr] using hside
    · refine hcredit.imp hx.credit fun hz => ?_
      rw [wanted,hpeer]
      exact hz
    · intro hfin'
      rcases hx.finQueued with hy | hy
      · exact hx.unwritten (hfin (hy ▸ hfin'))
      · exact hy
  | written i =>
    obtain ⟨s,hi,he,hr,hu⟩ := hw
    obtain ⟨s',hi',-,-,hx⟩ := h.quiet_stream hi (hq i rfl) (hchanges hi hs)
    exact ⟨s',hi',hx.error.trans he,hx.resetCode.trans hr,hx.unwritten hu⟩
  | data i goal =>
    obtain ⟨s,hi,hr,hin,hf⟩ := hw
    obtain ⟨s',hi',hd,hrem,hx⟩ := h.quiet_stream hi (hq i rfl) (hchanges hi hs)
    obtain ⟨hside,hterm,hab⟩ := Stream.readError_eq_none_iff.mp hr
    obtain ⟨h₁,h₂,h₃⟩ := Stream.termination_eq_none_iff.mp hterm
    refine ⟨s',hi',Stream.readError_eq_none_iff.mpr ⟨?_,Stream.termination_eq_none_iff.mpr
      ⟨hx.disposed.trans h₁,hx.error.trans h₂,hx.resetCode.trans h₃⟩,hx.abandoned.trans hab⟩,
      hx.inbound hin,hx.finReceived.trans hf⟩
    simpa [Stream.hasReadSide,hd,hrem] using hside
  | peerStream =>
    have hquiet := h.silent id hs
    exact ⟨hquiet.active hw.1,hquiet.acceptQueue hw.2⟩
  | pong before =>
    have hquiet := h.silent id hs
    exact ⟨hquiet.running hw.1,hquiet.pongs.le.trans hw.2⟩
  | closed => exact (h.silent id hs).running hw

end Quiet

theorem consume_eq_zero_iff (credit : SendCredit) (wanted : UInt64) :
    (credit.consume wanted).1 = 0 ↔ credit.available = 0 ∨ wanted = 0 := by
  rw [show (credit.consume wanted).1 =
    if wanted ≤ credit.available then wanted else credit.available from rfl]
  split
  · rename_i hle
    refine ⟨.inr,?_⟩
    rintro (hz | hz)
    · rw [hz] at hle
      exact UInt64.le_zero_iff.mp hle
    · exact hz
  · rename_i hle
    refine ⟨.inl,?_⟩
    rintro (hz | hz)
    · exact hz
    · rw [hz] at hle
      exact absurd UInt64.zero_le hle

/-- Whoever looks again has to go on waiting, unless the end of the wait was overlooked. -/
theorem Still.blocked_iff (hs : c.Sound) {w : Wait} (h : c.Still w) :
    c.blocked w = true ↔ ¬c.Overlooked w := by
  cases w with
  | slot i data fin =>
    obtain ⟨ha,s,hi,hid,hf⟩ := h
    obtain ⟨hfresh,hremote⟩ := hs.idle hi hid
    have hover : c.Overlooked (.slot i data fin) ↔ s.resetCode.isSome ∨ s.disposed.isSome := by
      simp [Overlooked,hi,hid]
    have hfull : c.tryOpen i s.direction = none := if_pos hf
    have hside : s.hasWriteSide = true := by simp [Stream.hasWriteSide,hremote]
    rw [hover]
    cases hw : s.writeError with
    | some e =>
      simp only [blocked,lookSlot,hi,hid,hw,Option.isNone_some,Bool.false_eq_true,false_iff,not_not]
      by_contra hx
      simp only [not_or,Option.not_isSome_iff_eq_none] at hx
      have := Stream.writeError_eq_none_iff.mpr ⟨hside,hx.2,hfresh.error,hx.1,hfresh.finQueued⟩
      cases hw.symm.trans this
    | none =>
      obtain ⟨-,hd,-,hr,-⟩ := Stream.writeError_eq_none_iff.mp hw
      simp [blocked,lookSlot,hi,hid,hw,ha,hfull,hd,hr]
  | credit i data fin =>
    obtain ⟨s,hi,hside,hterm,hcredit,hfin⟩ := h
    have hover : c.Overlooked (.credit i data fin) ↔ s.finQueued = true := by
      simp only [Overlooked,hi,Option.some.injEq,exists_eq_left']
      exact ⟨And.left,fun hx => ⟨hx,hterm,hfin hx⟩⟩
    obtain ⟨h₁,h₂,h₃⟩ := Stream.termination_eq_none_iff.mp hterm
    have htaken := (consume_eq_zero_iff s.credit (c.wanted data)).mpr hcredit
    rw [hover]
    cases hq : s.finQueued with
    | true =>
      have hw : s.writeError = some .writesClosed := by simp [Stream.writeError,hside,hterm,hq]
      simp [blocked,lookCredit,hi,hw]
    | false =>
      have hw := Stream.writeError_eq_none_iff.mpr ⟨hside,h₁,h₂,h₃,hq⟩
      simp [blocked,lookCredit,hi,hw,htaken]
  | written i =>
    obtain ⟨s,hi,he,hr,hu⟩ := h
    simp [blocked,lookWritten,Overlooked,hi,he,hr,hu]
  | data i goal =>
    obtain ⟨s,hi,hr,hin,hf⟩ := h
    have ht : s.takeChunk goal.limit = none := Stream.takeChunk_eq_none_iff.mpr hin
    simp [blocked,lookData,Overlooked,hi,hr,ht,hf]
  | peerStream => simp [blocked,lookPeerStream,Overlooked,h.1,h.2]
  | pong before => simp [blocked,lookPong,Overlooked,h.1,Nat.not_lt.mpr h.2]
  | closed =>
    have hp : c.phase ≠ .closed := h
    simp [blocked,lookClosed,Overlooked,hp]

end Connection

end Multiplex
