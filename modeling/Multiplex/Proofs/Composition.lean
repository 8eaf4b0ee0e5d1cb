import Multiplex.Proofs.Station
import Multiplex.Proofs.Stream

/-!
How what a connection does with its input, and to close, is put together. A relation that can be
chained, and that holds of the parts of what a frame does, holds of all that comes in.
-/

namespace Multiplex

namespace Connection

variable {R : Connection → Connection → Prop}

/-- What holds of each part of what a frame of the peer does. -/
structure FrameLaw (R : Connection → Connection → Prop) : Prop where
  refl (c : Connection) : R c c
  trans {c c' c'' : Connection} : R c c' → R c' c'' → R c c''
  skip (c : Connection) (next : PerDirection Nat) : R c { c with nextRemote := next }
  say (c : Connection) (f : Frame) : R c (c.enqueueControl f)
  surface (c : Connection) (id : StreamId) : R c (c.surface id).2
  data {c c' : Connection} {i : Nat} {id : StreamId} {fin : Bool} {data : Bytes} :
    c.receiveData i id fin data = .ok c' → R c c'
  grant (c : Connection) (i : Nat) (n : UInt64) :
    R c (c.modify i fun s => { s with credit := s.credit.grant n }.notify)
  reset (c : Connection) (i : Nat) (code : UInt64) : R c (c.receiveReset i code)
  pong (c : Connection) (now : Nat) (v : UInt64) : R c (c.handle now (.pong v)).2
  close {c c' : Connection} {code : UInt64} : c.receiveClose code = .ok c' → R c c'

namespace FrameLaw

theorem openRemote (h : FrameLaw R) (c : Connection) (id : StreamId) :
    R c (c.openRemote id).2 := by
  unfold Connection.openRemote
  split
  · exact h.refl c
  · dsimp only
    split
    · split <;> exact h.refl c
    · split
      · exact h.refl c
      · split
        · exact h.trans (h.skip c _) (h.say _ _)
        · split
          · exact h.skip c _
          · exact h.trans (h.skip c _) (h.surface _ id)

theorem resetTarget (h : FrameLaw R) (c : Connection) (id : StreamId) :
    R c (c.resetTarget id).2 := by
  unfold Connection.resetTarget
  split
  · exact h.refl c
  · dsimp only
    split
    · exact h.refl c
    · split
      · exact h.skip c _
      · exact h.openRemote c id

theorem orElse (h : FrameLaw R) {c : Connection} {r : Except Violation Connection}
    (hr : ∀ c', r = .ok c' → R c c') : R c (c.orElse r).2 := by
  cases r with
  | error v => exact h.refl c
  | ok c' => exact hr c' rfl

theorem handle (h : FrameLaw R) (c : Connection) (now : Nat) (f : Frame) :
    R c (c.handle now f).2 := by
  cases f with
  | stream id fin data =>
    have hopen := h.openRemote c id
    unfold Connection.handle
    dsimp only
    split <;> rename_i ho <;> rw [ho] at hopen
    · exact h.trans hopen (h.orElse fun c' hr => h.data hr)
    · exact hopen
    · exact hopen
  | windowUpdate id n =>
    unfold Connection.handle
    dsimp only
    split
    · exact h.grant c _ n
    · exact h.refl c
  | reset id wire =>
    have htarget := h.resetTarget c id
    unfold Connection.handle
    dsimp only
    split <;> rename_i ht <;> rw [ht] at htarget
    · exact h.trans htarget (h.reset _ _ _)
    · exact htarget
    · exact htarget
  | ping v => exact h.say c _
  | pong v => exact h.pong c now v
  | settings s => exact h.refl c
  | close wire => exact h.orElse fun c' hr => h.close hr

end FrameLaw

/-- What holds of each part of a graceful close. -/
structure ClosingLaw (R : Connection → Connection → Prop) : Prop where
  refl (c : Connection) : R c c
  trans {c c' c'' : Connection} : R c c' → R c' c'' → R c c''
  answer (c : Connection) (code : UInt64) : c.closeSent = false → R c (c.enqueueClose code)
  shut (c : Connection) : c.phase = .closing → c.table = [] → c.closeSent = true →
    c.closeReceived.isSome → R c { c with shutdownWrites := true }
  finish (c : Connection) : c.table = [] → R c c.finishIfClosed

namespace ClosingLaw

theorem progressClose (h : ClosingLaw R) (c : Connection) : R c c.progressClose := by
  unfold Connection.progressClose
  split
  · exact h.refl c
  · rename_i hp
    obtain ⟨hc,ht⟩ : c.phase = .closing ∧ c.table = [] := by simpa using hp
    -- the answer to CLOSE, then the end of writing, then the end of all
    have hanswer : ∃ x,
        (if c.closeReceived.isSome && !c.closeSent then c.enqueueClose 0 else c) = x ∧
        R c x ∧ x.phase = .closing ∧ x.table = [] := by
      refine ⟨_,rfl,?_⟩
      split
      · rename_i hs
        refine ⟨h.answer c 0 (by simpa using (Bool.and_eq_true_iff.mp hs).2),?_⟩
        unfold enqueueClose
        split <;> exact ⟨hc,ht⟩
      · exact ⟨h.refl c,hc,ht⟩
    obtain ⟨x,hx,hr,hcx,htx⟩ := hanswer
    have hshut : ∃ y, (if x.closeSent && x.closeReceived.isSome then
        { x with shutdownWrites := true } else x) = y ∧ R x y ∧ y.table = [] := by
      refine ⟨_,rfl,?_⟩
      split
      · rename_i hs
        obtain ⟨hs,ha⟩ := Bool.and_eq_true_iff.mp hs
        exact ⟨h.shut x hcx htx hs ha,htx⟩
      · exact ⟨h.refl x,htx⟩
    obtain ⟨y,hy,hry,hty⟩ := hshut
    simp only [hx,hy]
    exact h.trans (h.trans hr hry) (h.finish y hty)

theorem beginClose (h : ClosingLaw R) {c : Connection}
    (mark : ∀ x : Connection, R x { x with closedLocally := true }) (code : UInt64)
    (wane : c.phase ≠ .closed → ∀ x : Connection, x.phase = c.phase →
      R x { x with phase := .closing }.refusePending.notify) : R c (c.beginClose code) := by
  unfold Connection.beginClose
  split
  · exact h.refl c
  · rename_i hlive
    have hmark : ∃ x, (if c.closeReceived.isNone then { c with closedLocally := true } else c) = x ∧
        R c x ∧ x.phase = c.phase := by
      refine ⟨_,rfl,?_⟩
      split
      · exact ⟨mark c,rfl⟩
      · exact ⟨h.refl c,rfl⟩
    obtain ⟨x,hx,hr,hpx⟩ := hmark
    have hsay : ∃ y, (if x.closeSent then x else x.enqueueClose code) = y ∧ R x y ∧
        y.phase = x.phase := by
      refine ⟨_,rfl,?_⟩
      split
      · exact ⟨h.refl x,rfl⟩
      · rename_i hs
        refine ⟨h.answer x code (by simpa using hs),?_⟩
        unfold enqueueClose
        split <;> rfl
    obtain ⟨y,hy,hry,hpy⟩ := hsay
    simp only [hx,hy]
    exact h.trans (h.trans hr hry)
      (h.trans (wane hlive y (hpy.trans hpx)) (h.progressClose _))

end ClosingLaw

inductive Receives (c : Connection) (i : Nat) (fin : Bool) (data : Bytes) : Connection → Prop
  | missing (hi : c.streams[i]? = none) : Receives c i fin data c
  | taken {s : Stream} {window : ReceiveWindow} {c' : Connection} (hi : c.streams[i]? = some s)
      (unended : s.finReceived = false)
      (he : (c.enqueueControl? (s.afterData window fin data).1).modify i
        (fun _ => (s.afterData window fin data).2.notify) = c') :
      Receives c i fin data (if fin then c'.maybeRelease i else c')

theorem receives {c c' : Connection} {i : Nat} {id : StreamId} {fin : Bool} {data : Bytes}
    (h : c.receiveData i id fin data = .ok c') : Receives c i fin data c' := by
  unfold receiveData at h
  split at h
  · cases h
    exact .missing ‹_›
  · split at h
    · cases h
    · split at h
      · cases h
      · rename_i hf
        split at h
        · cases h
        · cases h
          exact .taken ‹_› (Bool.eq_false_of_not_eq_true hf) rfl

theorem receive_induct {now : Nat} (last : ∀ c, R c c)
    (taken : ∀ {c c₁ c' : Connection} {f : Frame} {size : Nat},
      (c.hear f size).handle now f = (none, c₁) → R c₁ c' → R c c')
    (breach : ∀ {c c₁ : Connection} {f : Frame} {size : Nat} {v : Violation},
      (c.hear f size).handle now f = (some v, c₁) → R c (c₁.abort (.protocolViolation v)))
    (invalid : ∀ c e, R c (c.abort (.protocolViolation (.frame e)))) (c : Connection)
    (inbox : Bytes) : R c (c.receive now inbox).1 := by
  induction hn : inbox.length using Nat.strongRecOn generalizing c inbox with
  | ind n ih =>
    rw [receive]
    split
    · rename_i f size rest hd
      have hlt := Frame.decode_frame_length hd
      split
      · rename_i hh
        exact taken hh (ih rest.length (hn ▸ hlt) _ rest rfl)
      · rename_i hh
        exact breach hh
    · exact last c
    · exact invalid c _

theorem FrameLaw.receive (h : FrameLaw R) (hear : ∀ c f size, R c (c.hear f size))
    (abort : ∀ c e, R c (c.abort e)) (c : Connection) (now : Nat) (inbox : Bytes) :
    R c (c.receive now inbox).1 := by
  have hframe {c c₁ : Connection} {f : Frame} {size : Nat} {v : Option Violation}
      (hx : (c.hear f size).handle now f = (v, c₁)) : R c c₁ := by
    have hh := h.trans (hear c f size) (h.handle _ now f)
    rwa [hx] at hh
  exact receive_induct h.refl (fun hx hr => h.trans (hframe hx) hr)
    (fun hx => h.trans (hframe hx) (abort _ _)) (fun c e => abort c _) c inbox

end Connection

end Multiplex
