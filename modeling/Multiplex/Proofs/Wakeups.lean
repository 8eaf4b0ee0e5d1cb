import Multiplex.Proofs.Waiting

/-!
A call that waits and is not told to look again has nothing to look at, with two exceptions.
-/

namespace Multiplex

variable {c c' : Connection}

namespace Connection

variable {w : Wait} {cancelled : Bool}

theorem not_wait_of_isDone {r : Outcome × Connection} (hd : r.1.isDone = true)
    (h : r = (.wait w, c')) : False := by
  rw [h] at hd
  cases hd

theorem Stalls.still {w w' : Wait} (h : Stalls c w w' c') : c'.Still w' := by
  cases h with
  | slot hi hid hp hl => exact ⟨hp,_,hi,hid,hl⟩
  | credit hw hi writable short =>
    obtain ⟨hside,hd,he,hr,hq⟩ := Stream.writeError_eq_none_iff.mp writable
    refine ⟨_,hi,hside,Stream.termination_eq_none_iff.mpr ⟨hd,he,hr⟩,
      (consume_eq_zero_iff _ _).mp short,fun hx => ?_⟩
    cases hq.symm.trans hx
  | written hi he hr hu => exact ⟨_,hi,he,hr,hu⟩
  | data hi hr empty unended => exact ⟨_,hi,hr,empty,unended⟩
  | peerStream hp hq => exact ⟨hp,hq⟩
  | pong hp hb => exact ⟨hp,hb⟩
  | closed hp => exact hp

theorem still_resume (w' : Wait) (h : c.resume cancelled w' = (.wait w, c')) :
    c'.Still w ∧ w.stream? = w'.stream? :=
  ⟨(stalls_of_resume h).still,(stalls_of_resume h).stream?⟩

theorem still_call {k : Call} (h : c.call cancelled k = (.wait w, c')) :
    c'.Still w ∧ w.stream? = k.stream? := by
  obtain ⟨_,_,begins,stalls⟩ := stalls_of_call h
  exact ⟨stalls.still,stalls.stream?.trans begins.stream?⟩

/-- Nobody waits on a stream that does not exist. -/
theorem stream_of_call_wait {k : Call} {i : Nat} (h : c.call cancelled k = (.wait w, c'))
    (hk : k.stream? = some i) : ∃ s, c.streams[i]? = some s := by
  refine Option.ne_none_iff_exists'.mp fun hi => not_wait_of_isDone ?_ h
  cases k with
  | write j data | writeFinish j data =>
    cases hk
    simp [call,writeError,hi,fail,Outcome.isDone]
  | finish j =>
    cases hk
    simp [call,writeError,finQueued,hi,fail,Outcome.isDone]
  | flush j =>
    cases hk
    simp [call,resume,lookWritten,hi,fail,Outcome.isDone]
  | read j goal =>
    cases hk
    rcases goal with (_ | max) | max | ⟨_ | missing,done⟩ | done <;>
      simp [call,resume,readFrom,readOn,lookData,hi,fail,succeed,Outcome.isDone]
  | accept | ping | close | closed => cases hk

end Connection

namespace Endpoint

open Connection

variable {e : Endpoint}

/-- Before a connection is established there are no streams on it. -/
theorem Meets.tells (hs : e.connection.Sound) (hst : e.Staged) (h : e.Meets c) :
    TellsAll e.connection c := by
  cases h with
  | same => exact .refl _ _ _
  | meet live stage peer =>
    have hp := (hst.opening stage live).1
    have hnone := (hs.unopened hp).1
    refine ⟨fun hi => ⟨_,hi,.refl _ _⟩,.inl,fun hx => absurd hnone hx,le_rfl,fun _ _ => ?_⟩
    refine ⟨fun _ => rfl,fun _ hx => (by cases hx),rfl,id,?_,?_⟩
    · intro hx
      cases hp.symm.trans hx
    · intro hx
      cases hp.symm.trans hx

end Endpoint

namespace Station

variable {s : Station}

open Connection

/-- A call that waits: if it has not been told to look again, nothing has come of its wait. -/
structure Heeded (c : Connection) (p : Suspended) : Prop where
  seen : p.seen ≤ c.signal p.wait
  still : c.signal p.wait = p.seen → c.Still p.wait
  accepted : ∀ i, p.wait.stream? = some i → i ∉ c.acceptQueue
  stream : ∀ i, p.wait.stream? = some i → ∃ s, c.streams[i]? = some s

def Attended (s : Station) : Prop := ∀ p ∈ s.waits, Heeded s.connection p

theorem Heeded.tells {p : Suspended} (h : Heeded c p) (ht : TellsAll c c') : Heeded c' p := by
  have hle := ht.signal_le p.wait h.stream
  have hseen := h.seen
  refine ⟨hseen.trans hle,fun hs => ?_,?_,?_⟩
  · exact Still.tells ht (h.still (by omega)) h.accepted (by omega)
  · intro i hi hq
    obtain ⟨s,hs⟩ := h.stream i hi
    rcases ht.unaccepted hq with hx | hx
    · exact h.accepted i hi hx
    · cases hs.symm.trans hx
  · intro i hi
    obtain ⟨s,hs⟩ := h.stream i hi
    obtain ⟨s',hs',-⟩ := ht.streams hs
    exact ⟨s',hs'⟩

theorem Attended.become {s s' : Station} (h : s.Attended) (hw : s'.waits = s.waits)
    (ht : TellsAll s.connection s'.connection) : s'.Attended := by
  intro p hp
  rw [hw] at hp
  exact (h p hp).tells ht

theorem Attended.release (h : s.Attended) (n : Nat) : (s.release n).Attended :=
  fun p hp => h p (List.mem_of_mem_eraseIdx hp)

/-- What a call came to is taken over; a call that waits has just looked. -/
theorem Attended.settle (h : s.Attended) {r : Outcome × Connection} (ht : TellsAll s.connection r.2)
    (hw : ∀ w, r = (.wait w, r.2) → r.2.Still w ∧
      ∀ i, w.stream? = some i → i ∉ s.connection.acceptQueue ∧
        ∃ t, s.connection.streams[i]? = some t)
    : (s.settle r).Attended := by
  obtain ⟨_ | w,c⟩ := r
  · exact h.become rfl ht
  · obtain ⟨hstill,hstream⟩ := hw w rfl
    intro p hp
    rcases List.mem_append.mp hp with hp | hp
    · exact (h p hp).tells ht
    · rw [List.mem_singleton.mp hp]
      refine ⟨le_rfl,fun _ => hstill,fun i hi hq => ?_,fun i hi => ?_⟩
      · obtain ⟨hx,t,hi'⟩ := hstream i hi
        rcases ht.unaccepted hq with hy | hy
        · exact hx hy
        · cases hi'.symm.trans hy
      · obtain ⟨-,t,hi'⟩ := hstream i hi
        obtain ⟨t',ht',-⟩ := ht.streams hi'
        exact ⟨t',ht'⟩

theorem tells_act (hs : s.connection.Sound) (hst : s.endpoint.Staged) (out inn : Pipe) (e : Event) :
    TellsAll s.connection (s.act out inn e).1.connection := by
  obtain ⟨c,hm,hc⟩ := s.changes_act out inn e
  exact TellsAll.trans (hm.tells hs hst) hc.tells

theorem Attended.serve (h : s.Attended) {e : Event} (hb : s.barred e = false) :
    (s.serve e).Attended := by
  have ht : TellsAll s.connection (s.serve e).connection := (s.changes_serve e).tells
  have hs := s.served e
  generalize s.serve e = s' at hs ht
  cases hs with
  | call cancelled k =>
    refine h.settle (tells_call _ cancelled k) fun w hw => ?_
    obtain ⟨hstill,hstream⟩ := still_call hw
    refine ⟨hstill,fun i hi => ?_⟩
    have hk := hstream.symm.trans hi
    refine ⟨fun hq => ?_,stream_of_call_wait hw hk⟩
    simp [barred,Event.stream?,hk,hq] at hb
  | @look cancelled n p hp =>
    have hheeded := h p (List.mem_of_getElem? hp)
    refine (h.release n).settle (tells_resume _ cancelled p.wait) fun w hw => ?_
    obtain ⟨hstill,hstream⟩ := still_resume p.wait hw
    refine ⟨hstill,fun i hi => ?_⟩
    have hk := hstream.symm.trans hi
    exact ⟨hheeded.accepted i hk,hheeded.stream i hk⟩
  | cancel => exact (h.release _).become rfl ht
  | drop n => exact h.release n
  | rest => exact h
  | connect | cancelConnect | create | abandonReads | reset | disposeStream | dispose =>
    exact h.become rfl ht

theorem Attended.act (h : s.Attended) (hs : s.connection.Sound) (hst : s.endpoint.Staged)
    (out inn : Pipe) (e : Event) : (s.act out inn e).1.Attended := by
  have ht := tells_act hs hst out inn e
  have ha := s.acted out inn e
  generalize s.act out inn e = r at ha ht
  cases ha with
  | rest => exact h
  | leave | pull | push => exact h.become rfl ht
  | serve hb => exact h.serve hb

theorem Fresh.attended {s : Station} (h : s.Fresh) {steps : List Step}
    (hn : (s.run steps).connection.Numbered) : (s.run steps).Attended := by
  induction steps using List.reverseRecOn with
  | nil =>
    intro p hp
    cases h
    cases hp
  | append_singleton steps t ih =>
    have hn' := h.numbered hn
    rw [run_concat]
    exact (ih hn').act (h.sound hn') (h.staged steps) t.out t.inn t.event

variable (role : Role) (options : Options) (codes : CodeSpace) (channel : Channel)

/-- A call that waits and has not been told to look again would have to go on waiting, whatever the
peer has done, unless the end of its wait was overlooked. -/
theorem wakeups_complete (steps : List Step)
    (hn : ((fresh role options codes channel).run steps).connection.Numbered) :
    let s := (fresh role options codes channel).run steps
    ∀ p ∈ s.waits, s.connection.signal p.wait = p.seen →
      (s.connection.blocked p.wait = true ↔ ¬s.connection.Overlooked p.wait) := by
  intro s p hp hs
  have hfresh := Fresh.intro role options codes channel
  exact ((hfresh.attended hn p hp).still hs).blocked_iff (hfresh.sound hn)

/-- A stream is reset while a write on it waits for the only place to become free. -/
def resetBeforeStart : List Step :=
  meeting { maxUnidirectional := 1 } ++ [.quiet (.create .unidirectional),
    .quiet (.call false (.write 0 [1])), .quiet (.create .unidirectional),
    .quiet (.call false (.write 1 [2])), .quiet (.reset 1 7)]

/-- A stream is ended while a write on it waits for credit. -/
def endedWhileWriting : List Step :=
  meeting { window := 2 } ++ [.quiet (.create .unidirectional),
    .quiet (.call false (.write 0 [1, 2, 3])), .quiet (.call false (.finish 0))]

/-- Neither write is told, though both have an answer. -/
theorem waits_overlooked :
    let s := (fresh .client {} .direct .plain).run resetBeforeStart
    let t := (fresh .client {} .direct .plain).run endedWhileWriting
    (s.waits.map (·.wait) = [.slot 1 [2] false] ∧
      s.waits.map (fun p => decide (s.connection.signal p.wait = p.seen)) = [true] ∧
      s.waits.map (fun p => s.connection.blocked p.wait) = [false]) ∧
    (t.waits.map (·.wait) = [.credit 0 [3] false] ∧
      t.waits.map (fun p => decide (t.connection.signal p.wait = p.seen)) = [true] ∧
      t.waits.map (fun p => t.connection.blocked p.wait) = [false]) := by
  decide +kernel

/-- Before the stream is ended, the write on it has to wait. -/
theorem wakeups_complete_blocked :
    let s := (fresh .client {} .direct .plain).run (endedWhileWriting.dropLast)
    s.connection.Numbered ∧ ∃ p ∈ s.waits, s.connection.signal p.wait = p.seen ∧
      ¬s.connection.Overlooked p.wait := by
  intro s
  have hn : s.connection.Numbered := by decide +kernel
  have hp : s.waits[0]?.any (fun p => decide (s.connection.signal p.wait = p.seen) &&
      s.connection.blocked p.wait) = true := by decide +kernel
  obtain ⟨p,hi,hx⟩ := (Option.any_eq_true _ _).mp hp
  simp only [Bool.and_eq_true,decide_eq_true_eq] at hx
  have hm := List.mem_of_getElem? hi
  exact ⟨hn,p,hm,hx.1,(wakeups_complete .client {} .direct .plain endedWhileWriting.dropLast hn p hm
    hx.1).mp hx.2⟩

end Station

end Multiplex
