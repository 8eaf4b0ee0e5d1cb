import Multiplex.Proofs.Changes
import Multiplex.Proofs.Waiting
import Multiplex.Proofs.Journal

/-!
A connection that begins to close leaves the streams that were started on it alone, except those of
the peer that nobody accepted.
-/

namespace Multiplex.Connection

/-- The frames that were queued for the stream at place `i`, newest first. -/
def queuedFor (c : Connection) (i : Nat) : List Outgoing :=
  c.journal.data.filter fun q => q.owner = some i

section Spares

variable {i j : Nat} {c c' c'' : Connection}

/-- What leaves the stream at place `i` alone. The connection can only come to its end here if its
writes are shut. -/
structure Spares (i : Nat) (c c' : Connection) : Prop where
  stream : c'.streams[i]? = c.streams[i]?
  queued : c'.queuedFor i = c.queuedFor i
  peer : c'.peer = c.peer
  writesShut : c'.writesShut = c.writesShut
  phase : c.writesShut = false → c'.phase = c.phase

theorem Spares.refl (i : Nat) (c : Connection) : Spares i c c := ⟨rfl,rfl,rfl,rfl,fun _ => rfl⟩

theorem Spares.trans (h : Spares i c c') (h' : Spares i c' c'') : Spares i c c'' :=
  ⟨h'.stream.trans h.stream,h'.queued.trans h.queued,h'.peer.trans h.peer,
    h'.writesShut.trans h.writesShut,
    fun hw => (h'.phase (h.writesShut.trans hw)).trans (h.phase hw)⟩

theorem spares_modify (c : Connection) (hj : j ≠ i) (f : Stream → Stream) :
    Spares i c (c.modify j f) :=
  ⟨by simp [Connection.modify,hj],rfl,rfl,rfl,fun _ => rfl⟩

/-- Whether changes of a kind leave the stream at place `i` alone. -/
def Kind.Spares (i : Nat) : Kind → Prop
  | .rest | .accept => True
  | .tend j => j ≠ i
  | _ => False

theorem Change.spares {k : Kind} {w : Word} (h : Change c k w c') (hk : k.Spares i) :
    c.Spares i c' := by
  cases h with
  | note | ring | occupy | vacate | pong | control | accept => exact ⟨rfl,rfl,rfl,rfl,fun _ => rfl⟩
  | say =>
    refine ⟨rfl,?_,rfl,rfl,fun _ => rfl⟩
    simp [queuedFor,append,Journal.noteData]
  | complete hw => exact ⟨rfl,rfl,rfl,rfl,fun hx => absurd (hw.symm.trans hx) (by decide)⟩
  | tend => exact c.spares_modify hk _
  | purge => exact ⟨(c.spares_modify hk _).stream,rfl,rfl,rfl,fun _ => rfl⟩
  | use | name | queue | add | arrive | endInput | ship | count | written | turn | reason | fail
  | hail | discard | forget => exact hk.elim

theorem Runs.spares (h : Changes (Kind.Spares i) c c') : Spares i c c' :=
  h.keep trivial (.refl i) .trans Change.spares

theorem spares_progressClose (i : Nat) (c : Connection) : Spares i c c.progressClose :=
  (Runs.progressClose .refl).spares

theorem beginClose_spares (c : Connection) (code : UInt64) (h : i ∉ c.acceptQueue) :
    (c.beginClose code).streams[i]? = c.streams[i]? ∧
    (c.beginClose code).queuedFor i = c.queuedFor i ∧ (c.beginClose code).peer = c.peer ∧
    (c.phase ≠ .closed → c.writesShut = false → (c.beginClose code).phase = .closing) := by
  unfold beginClose
  split
  · rename_i hp
    exact ⟨rfl,rfl,rfl,fun hx => absurd hp hx⟩
  · have hsay : ∃ x,
        (let c₁ := if c.closeReceived.isNone then { c with closedLocally := true } else c
        if c₁.closeSent then c₁ else c₁.enqueueClose code) = x ∧ Spares i c x ∧
        x.acceptQueue = c.acceptQueue := by
      refine ⟨_,rfl,?_⟩
      have hmark : Spares i c
          (if c.closeReceived.isNone then { c with closedLocally := true } else c) ∧
          (if c.closeReceived.isNone then { c with closedLocally := true } else c).acceptQueue =
            c.acceptQueue := by
        split
        · exact ⟨⟨rfl,rfl,rfl,rfl,fun _ => rfl⟩,rfl⟩
        · exact ⟨.refl i c,rfl⟩
      generalize (if c.closeReceived.isNone then { c with closedLocally := true } else c) = c₁
        at hmark
      dsimp only
      split
      · exact hmark
      · refine ⟨hmark.1.trans (Runs.enqueueClose .refl code).spares,?_⟩
        rw [enqueueClose_eq]
        exact hmark.2
    obtain ⟨x,he,hx,hq⟩ := hsay
    dsimp only at he ⊢
    rw [he]
    have hrefuse : Spares i { x with phase := .closing }
        ({ x with phase := .closing }.refusePending.notify).progressClose := by
      have hrefuse : Changes (Kind.Spares i) _ { x with phase := .closing }.refusePending :=
        .refusePending .refl trivial fun j hj hji => h (hji ▸ hq ▸ hj)
      exact hrefuse.notify.progressClose.spares
    exact ⟨hrefuse.stream.trans hx.stream,hrefuse.queued.trans hx.queued,hrefuse.peer.trans hx.peer,
      fun _ hw => hrefuse.phase (hx.writesShut.trans hw)⟩

theorem receiveClose_spares (c : Connection) (code : UInt64) {d : Connection}
    (h : c.receiveClose code = .ok d) (i : Nat) :
    d.streams[i]? = c.streams[i]? ∧ d.queuedFor i = c.queuedFor i ∧ d.peer = c.peer ∧
    (c.writesShut = false → d.phase = if c.phase = .active then .closing else c.phase) := by
  unfold receiveClose at h
  split at h
  · cases h
  · obtain rfl := Except.ok.inj h
    have hspares (x : Connection) : Spares i x x.notify.progressClose := by
      have hsame : Changes (Kind.Spares i) x x := .refl
      exact hsame.notify.progressClose.spares
    replace hspares := hspares (if c.phase = .active then
      { c with closeReceived := some code, phase := .closing }
      else { c with closeReceived := some code })
    by_cases hp : c.phase = .active
    · simp only [if_pos hp] at hspares ⊢
      exact ⟨hspares.stream,hspares.queued,hspares.peer,hspares.phase⟩
    · simp only [if_neg hp] at hspares ⊢
      exact ⟨hspares.stream,hspares.queued,hspares.peer,hspares.phase⟩

end Spares

section Matched

variable {i : Nat} {u v : List Outgoing} {c d : Connection} {cancelled : Bool} {id : StreamId}

/-- Two connections have the same stream at place `i`, and have queued the same for it since what
they had queued was `u` and `v`. -/
structure Matched (i : Nat) (u v : List Outgoing) (c d : Connection) : Prop where
  stream : d.streams[i]? = c.streams[i]?
  queued : ∃ qs, c.queuedFor i = qs ++ u ∧ d.queuedFor i = qs ++ v

/-- The stream has started, and both connections are in use. -/
structure Paired (i : Nat) (u v : List Outgoing) (c d : Connection) : Prop
    extends Matched i u v c d where
  started : ∃ s, c.streams[i]? = some s ∧ s.id.isSome
  peer : d.peer = c.peer
  live : c.phase ≠ .closed ∧ d.phase ≠ .closed

/-- Two calls end alike, and unless they were cut short, they leave the same. -/
structure Alike (i : Nat) (u v : List Outgoing) (cancelled : Bool) (r q : Outcome × Connection) :
    Prop where
  outcome : q.1 = r.1
  matched : cancelled = false → Matched i u v r.2 q.2

theorem Paired.modify (h : Paired i u v c d) (f : Stream → Stream)
    (hf : ∀ s, c.streams[i]? = some s → (f s).id = s.id) :
    Paired i u v (c.modify i f) (d.modify i f) := by
  obtain ⟨s,hi,hs⟩ := h.started
  have hc := getElem?_modify_self hi f
  have hd := getElem?_modify_self (h.stream.trans hi) f
  exact ⟨⟨hd.trans hc.symm,h.queued⟩,⟨f s,hc,by rwa [hf s hi]⟩,h.peer,h.live⟩

theorem Paired.append (h : Paired i u v c d) (f : Frame) :
    Paired i u v (c.append ⟨f, some i⟩) (d.append ⟨f, some i⟩) := by
  obtain ⟨qs,hc,hd⟩ := h.queued
  refine { h with toMatched := ⟨h.stream,⟨f, some i⟩ :: qs,?_,?_⟩ }
  · rw [queuedFor] at hc
    simp [queuedFor,Connection.append,Journal.noteData,hc]
  · rw [queuedFor] at hd
    simp [queuedFor,Connection.append,Journal.noteData,hd]

theorem Paired.enqueueControl? (h : Paired i u v c d) (f : Option Frame) :
    Paired i u v (c.enqueueControl? f) (d.enqueueControl? f) := by
  obtain ⟨_,-,hc⟩ := c.enqueueControl?_cases f
  obtain ⟨_,-,hd⟩ := d.enqueueControl?_cases f
  rw [hc,hd]
  exact { h with toMatched := ⟨h.stream,h.queued⟩ }

theorem streams_maybeRelease {s : Stream} (hi : c.streams[i]? = some s) (hid : s.id = some id) :
    (c.maybeRelease i).streams[i]? = some s.settle ∧
      (c.maybeRelease i).queuedFor i = c.queuedFor i := by
  unfold maybeRelease
  rw [hi]
  dsimp only
  rw [hid]
  dsimp only
  split
  · rename_i hr
    refine ⟨?_,rfl⟩
    rw [hi]
    unfold Stream.settle
    split
    · rename_i hd
      rw [hd] at hr
      obtain hr : s.released = true := by simpa using hr
      rw [← hr]
    · rfl
  · rename_i hr
    obtain ⟨-,hd⟩ : s.released = false ∧ (s.localDone && s.remoteDone) = true := by simpa using hr
    have hp := spares_progressClose i
    refine ⟨(hp _).stream.trans ?_,(hp _).queued.trans ?_⟩
    · rw [setActive_eq]
      unfold Stream.settle
      rw [if_pos hd]
      exact getElem?_modify_self hi _
    · rw [setActive_eq]
      rfl

theorem Paired.maybeRelease (h : Paired i u v c d) :
    Matched i u v (c.maybeRelease i) (d.maybeRelease i) := by
  obtain ⟨s,hi,hs⟩ := h.started
  obtain ⟨id,hid⟩ := Option.isSome_iff_exists.mp hs
  obtain ⟨hc,hqc⟩ := streams_maybeRelease hi hid
  obtain ⟨hd,hqd⟩ := streams_maybeRelease (h.stream.trans hi) hid
  exact ⟨hd.trans hc.symm,by rw [hqc,hqd]; exact h.queued⟩

theorem Paired.suspend (h : Paired i u v c d) (cancelled : Bool) (w : Wait) :
    Alike i u v cancelled (c.suspend cancelled w) (d.suspend cancelled w) := by
  cases cancelled with
  | false => exact ⟨rfl,fun _ => h.toMatched⟩
  | true => exact ⟨rfl,nofun⟩

theorem Matched.alike (h : Matched i u v c d) (o : Outcome) :
    Alike i u v cancelled (o, c) (o, d) := ⟨rfl,fun _ => h⟩

section

variable (h : Paired i u v c d)

include h

theorem Paired.lookCredit (n : UInt64) : ∃ r c' d',
    c.lookCredit i n = (r, c') ∧ d.lookCredit i n = (r, d') ∧ Paired i u v c' d' := by
  obtain ⟨s,hi,hs⟩ := h.started
  unfold Connection.lookCredit
  rw [h.stream,hi]
  dsimp only
  cases s.writeError with
  | some e => exact ⟨_,c,d,rfl,rfl,h⟩
  | none =>
    dsimp only
    split
    · exact ⟨_,c,d,rfl,rfl,h⟩
    · exact ⟨_,_,_,rfl,rfl,h.modify _ fun _ _ => rfl⟩

theorem Paired.lookData (limit : Option Nat) : ∃ r c' d',
    c.lookData i limit = (r, c') ∧ d.lookData i limit = (r, d') ∧ Paired i u v c' d' := by
  obtain ⟨s,hi,hs⟩ := h.started
  unfold Connection.lookData
  rw [h.stream,hi]
  dsimp only
  cases s.readError with
  | some e => exact ⟨_,c,d,rfl,rfl,h⟩
  | none =>
    dsimp only
    split
    · rename_i chunk s' htake
      refine ⟨_,_,_,rfl,rfl,(h.modify _ fun t ht => ?_).enqueueControl? _⟩
      cases hi.symm.trans ht
      obtain ⟨_,rfl,-⟩ := Stream.takeChunk_spec htake
      exact (Stream.consumed_agrees _ _).id
    · split
      · exact ⟨_,_,_,rfl,rfl,h.modify _ fun _ _ => rfl⟩
      · exact ⟨_,c,d,rfl,rfl,h⟩

theorem Paired.queue (id : StreamId) (data : Bytes) (fin : Bool) :
    (∃ e, c.queue i id data fin = .error e ∧ d.queue i id data fin = .error e) ∨
    ∃ c' d', c.queue i id data fin = .ok c' ∧ d.queue i id data fin = .ok d' ∧
      Matched i u v c' d' ∧ (fin = false → Paired i u v c' d') := by
  obtain ⟨s,hi,hs⟩ := h.started
  unfold Connection.queue
  rw [if_neg h.live.1,if_neg h.live.2,h.stream,hi]
  dsimp only
  cases s.writeError with
  | some e => exact .inl ⟨e,rfl,rfl⟩
  | none =>
    right
    have hnoted := h.modify (fun s => { s with finQueued := fin }.noteSent data) fun _ _ => rfl
    have hcounted := hnoted.modify (fun s => { s with unwritten := s.unwritten + 1 }) fun _ _ => rfl
    have hsent := hcounted.append (.stream id fin data)
    cases fin with
    | false => exact ⟨_,_,rfl,rfl,hsent.toMatched,fun _ => hsent⟩
    | true => exact ⟨_,_,rfl,rfl,hsent.maybeRelease,nofun⟩

theorem Paired.queueEnd (id : StreamId) :
    Alike i u v cancelled (c.queueEnd i id) (d.queueEnd i id) := by
  unfold Connection.queueEnd
  obtain ⟨e,hc,hd⟩ | ⟨c',d',hc,hd,hm,-⟩ := h.queue id [] true
  · rw [hc,hd]
    exact h.alike _
  · rw [hc,hd]
    exact hm.alike _

theorem Paired.sendEnd : Alike i u v cancelled (c.sendEnd i) (d.sendEnd i) := by
  obtain ⟨s,hi,hs⟩ := h.started
  obtain ⟨id,hid⟩ := Option.isSome_iff_exists.mp hs
  unfold Connection.sendEnd
  rw [h.stream,hi]
  dsimp only
  split
  · exact h.alike _
  · cases s.writeError with
    | some e => exact h.alike _
    | none =>
      rw [hid]
      exact h.queueEnd id

theorem Paired.send (id : StreamId) (fin : Bool) (fuel : Nat) (data : Bytes) :
    Alike i u v cancelled (c.send cancelled i id fin fuel data)
      (d.send cancelled i id fin fuel data) := by
  have hend {c d : Connection} (h : Paired i u v c d) : Alike i u v cancelled
      (if fin then c.sendEnd i else c.succeed .unit)
      (if fin then d.sendEnd i else d.succeed .unit) := by
    split
    · exact h.sendEnd
    · exact h.alike _
  induction fuel generalizing c d data with
  | zero => exact hend h
  | succ fuel ih =>
    cases data with
    | nil => exact hend h
    | cons b bs =>
      unfold Connection.send
      rw [h.peer]
      obtain ⟨r,c₁,d₁,hc,hd,h₁⟩ :=
        h.lookCredit (UInt64.ofNat (min (b :: bs).length c.peer.maxFrame.toNat))
      rw [hc,hd]
      rcases r with _ | e | n
      · exact h₁.suspend cancelled _
      · exact h₁.alike _
      · dsimp only
        obtain ⟨e,hc,hd⟩ | ⟨c₂,d₂,hc,hd,-,h₂⟩ := h₁.queue id ((b :: bs).take n) false
        · rw [hc,hd]
          exact h₁.alike _
        · rw [hc,hd]
          exact ih (h₂ rfl) _

theorem Paired.startAndSend (data : Bytes) (fin : Bool) :
    Alike i u v cancelled (c.startAndSend cancelled i data fin)
      (d.startAndSend cancelled i data fin) := by
  obtain ⟨s,hi,hs⟩ := h.started
  obtain ⟨id,hid⟩ := Option.isSome_iff_exists.mp hs
  have hslot (x : Connection) (hx : x.streams[i]? = some s) :
      x.lookSlot i = (some (.ok id), x) := by
    unfold Connection.lookSlot
    rw [hx]
    dsimp only
    rw [hid]
  unfold Connection.startAndSend
  rw [hslot c hi,hslot d (h.stream.trans hi)]
  dsimp only
  unfold sendOn
  split
  · exact h.queueEnd id
  · exact h.send id fin _ _

theorem Paired.readOn (fuel : Nat) (goal : ReadGoal) :
    Alike i u v cancelled (c.readOn cancelled i fuel goal) (d.readOn cancelled i fuel goal) := by
  induction fuel generalizing c d goal with
  | zero => exact h.suspend cancelled _
  | succ fuel ih =>
    unfold Connection.readOn
    obtain ⟨r,c₁,d₁,hc,hd,h₁⟩ := h.lookData goal.limit
    rw [hc,hd]
    rcases r with _ | e | _ | chunk
    · exact h₁.suspend cancelled _
    · exact h₁.alike _
    · cases goal <;> exact h₁.alike _
    · cases goal with
      | upTo | chunk => exact h₁.alike _
      | exact missing done =>
        dsimp only
        split
        · exact h₁.alike _
        · exact ih h₁ _
      | toEnd done => exact ih h₁ _

theorem Paired.readFrom (goal : ReadGoal) :
    Alike i u v cancelled (c.readFrom cancelled i goal) (d.readFrom cancelled i goal) := by
  unfold Connection.readFrom
  rw [h.stream]
  exact h.readOn _ goal

theorem Paired.resume {w : Wait} (hw : w.stream? = some i) :
    Alike i u v cancelled (c.resume cancelled w) (d.resume cancelled w) := by
  obtain ⟨s,hi,hs⟩ := h.started
  obtain ⟨id,hid⟩ := Option.isSome_iff_exists.mp hs
  cases w with
  | peerStream | pong | closed => cases hw
  | slot j data fin =>
    cases hw
    exact h.startAndSend data fin
  | credit j data fin =>
    cases hw
    simp only [Connection.resume,h.stream,hi,Option.bind_some,hid]
    exact h.send id fin _ data
  | written j =>
    obtain rfl := Option.some.inj hw
    have hlook : d.lookWritten j = c.lookWritten j := by
      unfold lookWritten
      rw [h.stream,hi]
    simp only [Connection.resume,hlook]
    rcases c.lookWritten j with _ | e | _
    · exact h.suspend cancelled _
    · exact h.alike _
    · exact h.alike _
  | data j goal =>
    cases hw
    exact h.readFrom goal

theorem Paired.call {k : Call} (hk : k.stream? = some i) :
    Alike i u v cancelled (c.call cancelled k) (d.call cancelled k) := by
  obtain ⟨s,hi,hs⟩ := h.started
  have hwrite : d.writeError i = c.writeError i := by
    unfold Connection.writeError
    rw [h.stream,hi]
  have hfin : d.finQueued i = c.finQueued i := by
    unfold Connection.finQueued
    rw [h.stream,hi]
  cases k with
  | accept | ping | close | closed => cases hk
  | write j data =>
    obtain rfl := Option.some.inj hk
    simp only [Connection.call,hwrite]
    cases c.writeError j with
    | some e => exact h.alike _
    | none =>
      cases data with
      | nil => exact h.alike _
      | cons b bs => exact h.startAndSend _ _
  | writeFinish j data =>
    obtain rfl := Option.some.inj hk
    simp only [Connection.call,hwrite]
    cases c.writeError j with
    | some e => exact h.alike _
    | none => exact h.startAndSend _ _
  | finish j =>
    obtain rfl := Option.some.inj hk
    simp only [Connection.call,hwrite,hfin]
    split
    · exact h.alike _
    · cases c.writeError j with
      | some e => exact h.alike _
      | none => exact h.startAndSend _ _
  | flush j =>
    obtain rfl := Option.some.inj hk
    exact h.resume (w := .written j) rfl
  | read j goal =>
    cases hk
    cases goal with
    | upTo n =>
      cases n with
      | zero => exact h.alike _
      | succ n => exact h.readFrom _
    | exact n done =>
      cases n with
      | zero => exact h.alike _
      | succ n => exact h.readFrom _
    | chunk | toEnd => exact h.readFrom _

theorem Paired.receiveData (id : StreamId) (fin : Bool) (data : Bytes) :
    (d.receiveData i id fin data).map (·.streams[i]?) =
      (c.receiveData i id fin data).map (·.streams[i]?) := by
  obtain ⟨s,hi,hs⟩ := h.started
  unfold Connection.receiveData
  rw [h.stream,hi]
  dsimp only
  split
  · rfl
  · split
    · rfl
    · cases s.window.receive data.length with
      | error e => rfl
      | ok w =>
        have hgrown := (h.enqueueControl? (s.afterData w fin data).1).modify
          (fun _ => (s.afterData w fin data).2.notify) fun t ht => by
            rw [enqueueControl?_eq] at ht
            cases hi.symm.trans ht
            exact (s.grows_afterData w fin data).id
        cases fin with
        | false => exact congrArg Except.ok hgrown.stream
        | true => exact congrArg Except.ok hgrown.maybeRelease.stream

end

/-- What goes on with the stream at place `i` on the connection `d` as it would on `c`: calls on it,
calls that wait on it, and data that comes in. Calls that are not cut short leave the same stream,
and queue the same frames. -/
structure Continues (i : Nat) (c d : Connection) : Prop where
  calls : ∀ (k : Call) (cancelled : Bool), k.stream? = some i →
    Alike i (c.queuedFor i) (d.queuedFor i) cancelled (c.call cancelled k) (d.call cancelled k)
  waits : ∀ (w : Wait) (cancelled : Bool), w.stream? = some i →
    Alike i (c.queuedFor i) (d.queuedFor i) cancelled (c.resume cancelled w) (d.resume cancelled w)
  data : ∀ (id : StreamId) (fin : Bool) (data : Bytes),
    (d.receiveData i id fin data).map (·.streams[i]?) =
      (c.receiveData i id fin data).map (·.streams[i]?)

/-- A stream that has started is all that its calls depend on. -/
theorem continues_of_eq {s : Stream} (hi : c.streams[i]? = some s) (hs : s.id.isSome)
    (hstream : d.streams[i]? = c.streams[i]?) (hpeer : d.peer = c.peer) (hc : c.phase ≠ .closed)
    (hd : d.phase ≠ .closed) : Continues i c d := by
  have h : Paired i (c.queuedFor i) (d.queuedFor i) c d :=
    ⟨⟨hstream,[],rfl,rfl⟩,⟨s,hi,hs⟩,hpeer,hc,hd⟩
  exact ⟨fun _ _ => h.call,fun _ _ => h.resume,h.receiveData⟩

end Matched

end Multiplex.Connection
