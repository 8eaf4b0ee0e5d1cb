import Multiplex.Proofs.Changes
import Multiplex.Proofs.Wakeups

/-!
How calls on a stream come to an end that their token cuts short.
-/

namespace Multiplex

def Wait.isSlot : Wait → Bool
  | .slot .. => true
  | .credit .. | .written _ | .data .. | .peerStream | .pong _ | .closed => false

namespace Connection

def interrupt : Outcome × Connection → Outcome × Connection
  | (.wait w, c) => (.done (.error .cancelled), c.cancel w)
  | (.done result, c) => (.done result, c)

section Fired

variable (i : Nat)

theorem resume_true (c : Connection) (w : Wait) :
    c.resume true w = interrupt (c.resume false w) := by
  cases (sendLaw_true w.stream?).resolves c fun _ _ _ _ => trivial with
  | wait _ _ eq | fail _ _ eq | succeed _ eq =>
    rw [eq true,eq false]
    rfl

theorem call_true (c : Connection) (k : Call) : c.call true k = interrupt (c.call false k) := by
  cases c.taken k with
  | succeed _ eq | refused _ eq =>
    rw [eq true,eq false]
    rfl
  | look _ eq =>
    rw [eq true,eq false]
    exact resume_true _ _

end Fired

end Connection

namespace Stream

variable {s : Stream}

/-- A stream that was reset or given up has ended with its code, and not with its failure. -/
theorem error_of_termination (h : s.termination = some .cancelled) : s.error = some .cancelled := by
  unfold termination at h
  split at h
  · cases h
  · split at h
    · rename_i he
      rwa [he]
    · cases hr : s.resetCode <;> rw [hr] at h <;> cases h

theorem error_of_writeError (h : s.writeError = some .cancelled) : s.error = some .cancelled := by
  unfold writeError at h
  split at h
  · cases h
  · split at h
    · rename_i ht
      exact error_of_termination (ht.trans h)
    · split at h <;> cases h

theorem error_of_readError (h : s.readError = some .cancelled) : s.error = some .cancelled := by
  unfold readError at h
  split at h
  · cases h
  · split at h
    · rename_i ht
      exact error_of_termination (ht.trans h)
    · split at h <;> cases h

end Stream

namespace Connection

section Unfired

variable {c c' : Connection} {i : Nat} {s : Stream} {id : StreamId} {data : Bytes} {fin : Bool}

/-- No failure comes up, neither of the stream at place `i` nor of the connection. -/
structure Calm (i : Nat) (c c' : Connection) : Prop where
  closed : c'.closedError = c.closedError
  error : c'.streams[i]?.map Stream.error = c.streams[i]?.map Stream.error

theorem Calm.refl (i : Nat) (c : Connection) : Calm i c c := ⟨rfl,rfl⟩

theorem Calm.trans {c'' : Connection} (h : Calm i c c') (h' : Calm i c' c'') : Calm i c c'' :=
  ⟨h'.closed.trans h.closed,h'.error.trans h.error⟩

theorem Calm.of_modify {j : Nat} {f : Stream → Stream} (hs : c'.streams = c.streams.modify j f)
    (hc : c'.closedError = c.closedError)
    (hf : ∀ s, c.streams[j]? = some s → (f s).error = s.error) : Calm i c c' := by
  refine ⟨hc,?_⟩
  rw [hs,List.getElem?_modify]
  cases hi : c.streams[i]? with
  | none => rfl
  | some s =>
    by_cases hij : j = i
    · subst hij
      simp [hf s hi]
    · simp [hij]

/-- Whether changes of a kind are no failure. -/
def Kind.Calm : Kind → Prop
  | .rest | .tend _ | .use _ | .queue _ | .accept => True
  | _ => False

theorem Change.calm {k : Kind} {w : Word} (h : Change c k w c') (hk : k.Calm) : Calm i c c' := by
  cases h with
  | note | ring | occupy | vacate | pong | control | say | complete | accept => exact ⟨rfl,rfl⟩
  | tend hs => exact .of_modify rfl rfl fun s hi => (hs s hi).abides.error
  | use hs => exact .of_modify rfl rfl fun s hi => (hs s hi).abides.error
  | purge | name | queue => exact .of_modify rfl rfl fun _ _ => rfl
  | add | arrive | endInput | ship | count | written | turn | reason | fail | hail | discard
  | forget => exact hk.elim

theorem Runs.calm (h : Changes Kind.Calm c c') : Calm i c c' :=
  h.keep trivial (.refl i) .trans Change.calm

theorem cancelled_of_resume {w : Wait} (calm : c.closedError ≠ .cancelled)
    (hi : c.streams[i]? = some s)
    (hw : w.stream? = some i) (h : c.resume false w = (.done (.error .cancelled), c')) :
    s.error = some .cancelled := by
  -- what a call does before it ends is no failure
  have hcalm : SendLaw w.stream? (Changes Kind.Calm) :=
    Runs.sends (fun _ => trivial) (fun _ => trivial) fun _ => trivial
  cases hcalm.resolves c fun _ _ _ hq => .accepted trivial hq with
  | wait _ _ eq | succeed _ eq => cases (eq false).symm.trans h
  | @fail e c₁ run fails eq =>
    obtain ⟨hdone,-⟩ := Prod.mk.inj ((eq false).symm.trans h)
    have he : e = .cancelled := Except.error.inj (Outcome.done.inj hdone)
    have herror {j : Nat} {t : Stream} (place : w.stream? = some j) (ht : c₁.streams[j]? = some t)
        (hx : t.error = some .cancelled) : s.error = some .cancelled := by
      cases hw.symm.trans place
      have hrun := (Runs.calm run (i := i)).error
      rw [ht,hi] at hrun
      exact (Option.some.inj hrun).symm.trans hx
    cases fails with
    | closed => exact absurd ((Runs.calm run (i := i)).closed.symm.trans he) calm
    | write place ht hx => exact herror place ht (Stream.error_of_writeError (he ▸ hx))
    | read place ht hx => exact herror place ht (Stream.error_of_readError (he ▸ hx))
    | stream place ht hx => exact herror place ht (he ▸ hx)
    | connection hx =>
      subst hx
      cases hw
    | aborted | unexpectedEnd | notEstablished => cases he

theorem cancelled_of_call {k : Call} (calm : c.closedError ≠ .cancelled)
    (hi : c.streams[i]? = some s)
    (hk : k.stream? = some i) (h : c.call false k = (.done (.error .cancelled), c')) :
    s.error = some .cancelled := by
  cases c.taken k with
  | succeed _ eq => cases (eq false).symm.trans h
  | refused hw eq =>
    obtain ⟨he,-⟩ := Prod.mk.inj ((eq false).symm.trans h)
    obtain rfl := Except.error.inj (Outcome.done.inj he)
    have hwrite := hw i hk
    simp only [Connection.writeError,hi] at hwrite
    exact Stream.error_of_writeError hwrite
  | look begins eq =>
    have hresume := (eq false).symm.trans h
    have hw := begins.stream?.trans hk
    cases begins with
    | accept | ping | close | closed => cases hk
    | write | writeFinish | finish | flush | read => exact cancelled_of_resume calm hi hw hresume

end Unfired

/-- What a call on the stream at place `i` waits for, and what it leaves of the connection `c` until
then. -/
inductive Pauses (i : Nat) (c : Connection) : Wait → Connection → Prop
  | slot (data : Bytes) (fin : Bool) : Pauses i c (.slot i data fin) c
  | credit {c₁ : Connection} {s : Stream} (data : Bytes) (fin : Bool) (hi : c₁.streams[i]? = some s)
      (hw : s.writeError = none) : Pauses i c (.credit i data fin) c₁
  | written {s : Stream} (hi : c.streams[i]? = some s) (he : s.error = none)
      (hr : s.resetCode = none) : Pauses i c (.written i) c
  | data {c₁ : Connection} {s : Stream} (goal : ReadGoal) (hi : c₁.streams[i]? = some s)
      (hr : s.readError = none) (unended : s.finReceived = false) : Pauses i c (.data i goal) c₁

section Pauses

variable {c c₀ c' : Connection} {i : Nat} {s : Stream} {id : StreamId} {data : Bytes} {fin : Bool}
  {w : Wait}

theorem Stalls.pauses {w₀ : Wait} (h : Stalls c w₀ w c') (hw : w₀.stream? = some i) :
    Pauses i c w c' := by
  cases h with
  | slot =>
    cases hw
    exact .slot _ _
  | credit hx hi writable =>
    rcases hx with rfl | rfl <;> cases hw <;> exact .credit _ _ hi writable
  | written hi he hr =>
    cases hw
    exact .written hi he hr
  | data hi hr _ unended =>
    cases hw
    exact .data _ hi hr unended
  | peerStream | pong | closed => cases hw

theorem pauses_resume {w₀ : Wait} (hw : w₀.stream? = some i)
    (h : c.resume false w₀ = (.wait w, c')) : Pauses i c w c' :=
  (stalls_of_resume h).pauses hw

theorem pauses_call {k : Call} (hk : k.stream? = some i) (h : c.call false k = (.wait w, c')) :
    Pauses i c w c' := by
  obtain ⟨_,_,begins,stalls⟩ := stalls_of_call h
  have hpause := stalls.pauses (begins.stream?.trans hk)
  cases begins with
  | accept | ping | close | closed => cases hk
  | write | writeFinish | finish | flush | read => exact hpause

/-- A call that waits for anything but the start of its stream waits on a stream that has not ended,
and if that is complete, the call has done nothing yet. -/
theorem Pauses.unended (h : Pauses i c w c') (hslot : w.isSlot = false) :
    ∃ s, c'.streams[i]? = some s ∧ s.resetCode = none ∧ s.error = none ∧
      (s.localDone = true → s.remoteDone = true → c' = c) := by
  cases h with
  | slot => cases hslot
  | @credit _ s _ _ hi hw =>
    obtain ⟨hside,-,he,hr,hq⟩ := Stream.writeError_eq_none_iff.mp hw
    exact ⟨s,hi,hr,he,fun hd _ => by simp [Stream.localDone,hside,hq,hr] at hd⟩
  | @written s hi he hr => exact ⟨s,hi,hr,he,fun _ _ => rfl⟩
  | @data _ s _ hi hread unended =>
    obtain ⟨hside,hterm,-⟩ := Stream.readError_eq_none_iff.mp hread
    obtain ⟨-,he,hr⟩ := Stream.termination_eq_none_iff.mp hterm
    exact ⟨s,hi,hr,he,fun _ hd => by simp [Stream.remoteDone,hside,unended,hr] at hd⟩

theorem Pauses.stream (h : Pauses i c w c') : w.stream? = some i := by
  cases h <;> rfl

theorem interrupt_eq {r : Outcome × Connection}
    (h : interrupt r = (.done (.error .cancelled), c')) :
    r = (.done (.error .cancelled), c') ∨ ∃ w c₁, r = (.wait w, c₁) ∧ c' = c₁.cancel w := by
  obtain ⟨_ | w,c₁⟩ := r
  · exact .inl h
  · exact .inr ⟨w,c₁,rfl,(Prod.mk.inj h).2.symm⟩

end Pauses

end Connection

end Multiplex
