import Multiplex.Proofs.Changes
import Multiplex.Proofs.Conduct

/-!
Streams of the peer come to whoever accepts them in the order they surfaced, as long as the end of
the input has not been seen.
-/

namespace Multiplex

structure Roll where
  /-- The streams of the peer, in the order they surfaced. -/
  arrivals : List Nat
  /-- Those of them that nobody has accepted. -/
  pending : List Nat
  /-- Whether the end of the input was seen. -/
  ended : Bool

def Roll.admitted (r : Roll) (new : List Nat) : Roll :=
  { r with arrivals := r.arrivals ++ new, pending := r.pending ++ new }

theorem Roll.admitted_nil (r : Roll) : r.admitted [] = r := by
  simp [admitted]

theorem Roll.admitted_append (r : Roll) (new more : List Nat) :
    (r.admitted new).admitted more = r.admitted (new ++ more) := by
  simp [admitted]

namespace Connection

section Roll

variable (c : Connection) (i : Nat) {c' : Connection}

def arrivals : List Nat := ((c.streams.map (·.remote)).zipIdx.filter (·.1)).map (·.2)

def roll : Roll := ⟨c.arrivals, c.acceptQueue, c.readEnded⟩

theorem arrivals_nodup : c.arrivals.Nodup := by
  have hall : ((c.streams.map (·.remote)).zipIdx.map (·.2)).Nodup := by
    rw [List.zipIdx_map_snd]
    exact List.nodup_range'
  exact hall.sublist (List.filter_sublist.map _)

theorem arrivals_congr {c : Connection} (h : c'.streams.map (·.remote) = c.streams.map (·.remote)) :
    c'.arrivals = c.arrivals := by
  unfold arrivals
  rw [h]

theorem roll_modify {f : Stream → Stream}
    (hf : ∀ s, c.streams[i]? = some s → (f s).remote = s.remote) :
    (c.modify i f).roll = c.roll := by
  have hsame : (c.modify i f).arrivals = c.arrivals := by
    apply arrivals_congr
    apply List.ext_getElem?
    intro n
    simp only [modify,List.getElem?_map,List.getElem?_modify]
    cases hn : c.streams[n]? with
    | none => rfl
    | some s =>
      by_cases hi : i = n
      · subst hi
        simp [hf s hn]
      · simp [hi]
  unfold roll
  rw [hsame]
  rfl

variable {c i} {c'' : Connection} {k : Kind} {w : Word}

def Kind.Rolls : Kind → Prop
  | .arrive | .accept | .endInput => False
  | _ => True

theorem Change.roll (h : Change c k w c') (hk : k.Rolls) : c'.roll = c.roll := by
  cases h with
  | note | ring | occupy | vacate | pong | control | say | complete | turn | reason | discard
  | count => rfl
  | tend hs => exact c.roll_modify _ fun s hi => (hs s hi).abides.remote
  | use hs => exact c.roll_modify _ fun s hi => (hs s hi).abides.remote
  | purge | name | queue | fail | hail | forget => exact c.roll_modify _ fun _ _ => rfl
  | written =>
    refine c.roll_modify _ fun _ _ => ?_
    dsimp only
    split <;> rfl
  | ship =>
    unfold takeBatch
    split <;> rfl
  | add => simp [Connection.roll,arrivals,List.zipIdx_append,Stream.fresh]
  | arrive | accept | endInput => exact hk.elim

theorem Runs.roll (h : Changes Kind.Rolls c c') : c'.roll = c.roll :=
  h.keep (R := fun c c' => c'.roll = c.roll) trivial (fun _ => rfl)
    (fun h h' => h'.trans h) Change.roll

/-- The connection holds what it held, and streams of the peer that surfaced. -/
def Admits (c c' : Connection) : Prop := ∃ new, c'.roll = c.roll.admitted new

theorem Admits.of_eq (h : c'.roll = c.roll) : Admits c c' := ⟨[],by rw [h,Roll.admitted_nil]⟩

theorem Admits.trans (h : Admits c c') (h' : Admits c' c'') : Admits c c'' := by
  obtain ⟨new,hn⟩ := h
  obtain ⟨more,hm⟩ := h'
  exact ⟨new ++ more,by rw [hm,hn,Roll.admitted_append]⟩

def Kind.Admits : Kind → Prop
  | .accept | .endInput => False
  | _ => True

theorem Change.admits (h : Change c k w c') (hk : k.Admits) : c.Admits c' := by
  cases k with
  | rest | tend | use | queue | add | ship | fate => exact .of_eq (h.roll trivial)
  | arrive =>
    obtain ⟨id⟩ := h
    exact ⟨[c.streams.length],by
      simp [Connection.roll,arrivals,List.zipIdx_append,Stream.fresh,Roll.admitted]⟩
  | accept | endInput => exact hk.elim

theorem Runs.admits (h : Changes Kind.Admits c c') : Admits c c' :=
  h.keep trivial (fun _ => .of_eq rfl) .trans Change.admits

end Roll

section Abort

variable {c : Connection}

theorem abort_of_error_eq_none {e : Failure} (h : (c.abort e).error = none) : c.abort e = c := by
  by_cases hp : c.phase = .closed
  · rw [abort,if_pos hp]
  · rw [abort_eq c e hp] at h
    cases h

theorem admits_receive {now : Nat} {inbox : Bytes} (h : (c.receive now inbox).1.error = none) :
    Admits c (c.receive now inbox).1 := by
  have hframe {c c₁ : Connection} {f : Frame} {size : Nat} {v : Option Violation}
      (hx : (c.hear f size).handle now f = (v, c₁)) : Admits c c₁ := by
    have hh : Admits c ((c.hear f size).handle now f).2 :=
      ((Runs.frames (fun _ => trivial) trivial trivial).handle (c.hear f size) now f).admits
    rwa [hx] at hh
  refine receive_induct (R := fun c c' => c'.error = none → Admits c c') ?_ ?_ ?_ ?_ c inbox h
  · exact fun _ _ => .of_eq rfl
  · exact fun hx hr he => (hframe hx).trans (hr he)
  · intro _ c₁ _ _ v hx he
    rw [abort_of_error_eq_none he]
    exact hframe hx
  · intro c e he
    rw [abort_of_error_eq_none he]
    exact .of_eq rfl

end Abort

section Calls

variable (c : Connection)

theorem roll_resume (cancelled : Bool) {w : Wait} (hw : w ≠ .peerStream) :
    (c.resume cancelled w).2.roll = c.roll :=
  ((Runs.calls (fun _ => trivial) (fun _ => trivial) (fun _ => trivial) cancelled).resume c
    fun hx => absurd hx hw).roll

theorem roll_call (cancelled : Bool) {k : Call} (ha : k ≠ .accept) (hc : ∀ code, k ≠ .close code) :
    (c.call cancelled k).2.roll = c.roll :=
  ((Runs.calls (fun _ => trivial) (fun _ => trivial) (fun _ => trivial) cancelled).call c
    (fun hx => absurd hx ha) (fun _ _ => .enqueueControl .refl _)
    fun code hx => absurd hx (hc code)).roll

end Calls

section Error

variable {c c' : Connection} {meant : Prop}

theorem Deed.flawless (h : Deed meant c c') (he : c'.error = none) : c.error = none := by
  rcases h.wears with ⟨-,-,hs⟩ | h
  · exact hs.symm.trans he
  · rcases h.error with hs | ⟨-,-,e,hs,-⟩
    · exact hs.symm.trans he
    · cases hs.symm.trans he

theorem Deeds.flawless (h : Deeds meant c c') (he : c'.error = none) : c.error = none := by
  induction h with
  | refl => exact he
  | tail _ hd ih => exact ih (hd.flawless he)

end Error

theorem roll_failStreams (c : Connection) (e : Failure) :
    (c.failStreams e).roll = { c.roll with pending := [] } := by
  have hfold (l : List (StreamId × Nat)) (c : Connection) :
      (l.foldl (fun c entry =>
        c.modify entry.2 fun s => { s.fail e with released := true }.notify) c).roll = c.roll := by
    induction l generalizing c with
    | nil => rfl
    | cons entry l ih =>
      rw [List.foldl_cons,ih]
      exact c.roll_modify entry.2 fun _ _ => rfl
  have hroll := hfold c.table c
  simp only [roll,Roll.mk.injEq] at hroll ⊢
  exact ⟨hroll.1,rfl,hroll.2.2⟩

end Connection

def Outcome.accepted : Outcome → List Nat
  | .done (.ok (.stream i)) => [i]
  | _ => []

namespace Roll

/-- What one step of an end does to its roll; it hands out the streams in the middle. -/
inductive Turns (r : Roll) : List Nat → Roll → Prop
  | arrive (new : List Nat) (reads : new = [] ∨ r.ended = false) : Turns r [] (r.admitted new)
  | accept {i : Nat} {rest : List Nat} (h : r.pending = i :: rest) :
      Turns r [i] { r with pending := rest }
  | lose (reads : r.ended = false) : Turns r [] { r with pending := [], ended := true }

theorem Turns.of_eq {r r' : Roll} (h : r' = r) : Turns r [] r' := by
  rw [h]
  have hrefl := Turns.arrive (r := r) [] (.inl rfl)
  rwa [admitted_nil] at hrefl

end Roll

namespace Connection

variable {c : Connection}

theorem turns_accept (c : Connection) (cancelled : Bool) :
    c.roll.Turns (c.resume cancelled .peerStream).1.accepted
      (c.resume cancelled .peerStream).2.roll := by
  unfold resume lookPeerStream
  cases hq : c.acceptQueue with
  | cons i rest => exact .accept (r := c.roll) hq
  | nil =>
    have hwait : c.roll.Turns (c.suspend cancelled .peerStream).1.accepted
        (c.suspend cancelled .peerStream).2.roll := by
      unfold suspend
      split <;> exact .of_eq rfl
    cases hp : c.phase with
    | active => exact hwait
    | connecting | closing | closed => exact .of_eq rfl

theorem Admits.turns {c' : Connection} (h : Admits c c') (reads : c.readEnded = false) :
    c.roll.Turns [] c'.roll := by
  obtain ⟨new,hn⟩ := h
  rw [hn]
  exact .arrive new (.inr reads)

theorem turns_abort {e : Failure} (h : (c.abort e).error = none) :
    c.roll.Turns [] (c.abort e).roll := by
  rw [abort_of_error_eq_none h]
  exact .of_eq rfl

theorem turns_endOfInput (reads : c.readEnded = false) (h : c.endOfInput.error = none) :
    c.roll.Turns [] c.endOfInput.roll := by
  unfold endOfInput at h ⊢
  split
  · exact .of_eq rfl
  · rename_i hp
    rw [if_neg hp] at h
    split
    · rw [(Runs.progressClose .refl).roll,roll_failStreams]
      exact .lose reads
    · rename_i hc
      rw [hc] at h
      exact turns_abort h

end Connection

namespace Endpoint

open Connection

variable {e e' : Endpoint} {out inn out' inn' : Pipe} {now : Nat}

theorem Pulls.turns (h : e.Staged) (hx : Pulls e now out inn e' out' inn')
    (he : e'.connection.error = none) : e.connection.roll.Turns [] e'.connection.roll := by
  cases hx with
  | leave => exact .of_eq (congrArg roll e.letGo_connection)
  | next => exact .of_eq rfl
  | refuse | late | idle => exact turns_abort he
  | @establish _ _ peer _ _ _ live stage =>
    exact (admits_receive (c := { e.connection with peer, phase := .active }) he).turns
      (h.opening stage live).2
  | takeIn _ stage reading =>
    exact (admits_receive he).turns (h.reading (by simp [stage]) (by simpa [stage] using reading))
  | endInput _ stage reading =>
    exact turns_endOfInput (h.reading (by simp [stage]) (by simpa [stage] using reading)) he
  | beat => exact .of_eq (Runs.enqueueControl .refl _).roll

theorem Pushes.turns (hx : Pushes e out e' out') (he : e'.connection.error = none) :
    e.connection.roll.Turns [] e'.connection.roll := by
  cases hx with
  | broken => exact turns_abort he
  | complete => exact .of_eq (Runs.batchWritten trivial _).roll
  | write => exact .of_eq rfl
  | ship _ _ _ taken =>
    have hbatch := Change.roll (.ship (c := e.connection)) trivial
    rw [taken] at hbatch
    exact .of_eq hbatch
  | shut => exact .of_eq (Runs.writesShutDown trivial).roll

end Endpoint

namespace Station

variable {s : Station} {e : Event} {t : Step}

open Connection Endpoint

/-- The streams that an event hands out to whoever accepts them. -/
def hands (s : Station) : Event → List Nat
  | .call cancelled .accept => (s.connection.call cancelled .accept).1.accepted
  | .look cancelled n =>
    match s.waits[n]? with
    | some ⟨.peerStream, _⟩ => (s.connection.resume cancelled .peerStream).1.accepted
    | _ => []
  | _ => []

/-- The streams that are accepted in the course of a run, in that order. -/
def accepted (s : Station) : List Step → List Nat
  | [] => []
  | t :: steps => s.hands t.event ++ (s.step t).accepted steps

theorem accepted_concat (s : Station) (steps : List Step) (t : Step) :
    s.accepted (steps ++ [t]) = s.accepted steps ++ (s.run steps).hands t.event := by
  induction steps generalizing s with
  | nil => simp [accepted,run]
  | cons u steps ih =>
    rw [List.cons_append,accepted,ih,accepted,List.append_assoc]
    rfl

theorem hands_of_idle (h : s.idle e = true) : s.hands e = [] := by
  cases e with
  | call => cases h
  | look => simp_all [idle,hands]
  | _ => rfl

theorem turns_serve (hc : ∀ cancelled code, e ≠ .call cancelled (.close code))
    (he : (s.serve e).connection.error = none) :
    s.connection.roll.Turns (s.hands e) (s.serve e).connection.roll := by
  have hs := s.served e
  generalize s.serve e = s' at hs he
  cases hs with
  | rest hx =>
    rw [hands_of_idle hx]
    exact .of_eq rfl
  | connect hx =>
    cases connects_of_connect hx with
    | start => exact .of_eq rfl
    | fail => exact turns_abort he
  | create hx => exact .of_eq (Runs.createStream trivial hx).roll
  | call cancelled k =>
    simp only [Station.connection,settle_endpoint]
    cases k with
    | accept => exact turns_accept s.connection cancelled
    | close code => exact absurd rfl (hc cancelled code)
    | write | writeFinish | finish | flush | read | ping | closed =>
      exact .of_eq (roll_call _ cancelled (by simp) (by simp))
  | @look cancelled _ p hp =>
    obtain ⟨w,seen⟩ := p
    simp only [hands,hp,Station.connection,settle_endpoint]
    cases w with
    | peerStream => exact turns_accept s.connection cancelled
    | slot | credit | written | data | pong | closed =>
      exact .of_eq (roll_resume _ cancelled (by simp))
  | cancel => exact .of_eq (Runs.cancel (fun _ => trivial) _).roll
  | abandonReads i => exact .of_eq (Runs.abandonReads trivial).roll
  | reset i code => exact .of_eq (Runs.reset trivial code).roll
  | disposeStream i => exact .of_eq (Runs.disposeStream trivial).roll
  | cancelConnect | dispose => exact turns_abort he
  | drop => exact .of_eq rfl

/-- Nobody asks anything of a stream that is not accepted, so such an event hands nothing out. -/
theorem hands_of_barred (h : s.barred e = true) : s.hands e = [] := by
  cases e with
  | call cancelled k =>
    cases k with
    | accept => cases h
    | write | writeFinish | finish | flush | read | ping | close | closed => rfl
  | look => cases h
  | _ => rfl

theorem turns_step (h : s.endpoint.Staged)
    (hc : ∀ cancelled code, t.event ≠ .call cancelled (.close code))
    (he : (s.step t).connection.error = none) :
    s.connection.roll.Turns (s.hands t.event) (s.step t).connection.roll := by
  obtain ⟨out,inn,e⟩ := t
  have ha := s.acted out inn e
  unfold step at he ⊢
  dsimp only at he hc ⊢
  generalize s.act out inn e = r at ha he
  cases ha with
  | rest hx =>
    rw [hx.elim hands_of_idle hands_of_barred]
    exact .of_eq rfl
  | leave => exact .of_eq rfl
  | pull hx => exact hx.turns h he
  | push hx => exact hx.turns he
  | serve => exact turns_serve hc he

variable (role : Role) (options : Options) (codes : CodeSpace) (channel : Channel)

/-- How a run stands with the streams of the peer. -/
structure Tally (s : Station) (steps : List Step) : Prop where
  /-- All of them were accepted or wait for it. -/
  whole : (s.run steps).connection.readEnded = false →
    (s.run steps).connection.arrivals = s.accepted steps ++ (s.run steps).connection.acceptQueue
  empty : (s.run steps).connection.readEnded = true → (s.run steps).connection.acceptQueue = []
  /-- Those that waited when the end of the input was seen are accepted by nobody. -/
  lost : (s.run steps).connection.readEnded = true →
    ∃ before t after, steps = before ++ t :: after ∧
    (s.run before).connection.readEnded = false ∧
    (s.run (before ++ [t])).connection.readEnded = true ∧
    s.accepted steps = s.accepted before ∧
    (s.run steps).connection.arrivals =
      s.accepted before ++ (s.run before).connection.acceptQueue

theorem Tally.concat {steps : List Step} (h : s.Tally steps)
    (ht : (s.run steps).connection.roll.Turns ((s.run steps).hands t.event)
      (s.run (steps ++ [t])).connection.roll) : s.Tally (steps ++ [t]) := by
  have haccepted := s.accepted_concat steps t
  generalize hroll : (s.run (steps ++ [t])).connection.roll = r at ht
  generalize (s.run steps).hands t.event = given at haccepted ht
  have harrivals : (s.run (steps ++ [t])).connection.arrivals = r.arrivals :=
    congrArg Roll.arrivals hroll
  have hpending : (s.run (steps ++ [t])).connection.acceptQueue = r.pending :=
    congrArg Roll.pending hroll
  have hended : (s.run (steps ++ [t])).connection.readEnded = r.ended := congrArg Roll.ended hroll
  cases ht with
  | arrive new reads =>
    rw [List.append_nil] at haccepted
    refine ⟨fun hr => ?_,fun hr => ?_,fun hr => ?_⟩
    · rw [harrivals,hpending,haccepted]
      have hwhole := h.whole (hended.symm.trans hr)
      simp only [Roll.admitted,roll,hwhole,List.append_assoc]
    · have hr' : (s.run steps).connection.readEnded = true := hended.symm.trans hr
      obtain rfl := reads.resolve_right (by simp [roll,hr'])
      rw [hpending,Roll.admitted_nil]
      exact h.empty hr'
    · have hr' : (s.run steps).connection.readEnded = true := hended.symm.trans hr
      obtain rfl := reads.resolve_right (by simp [roll,hr'])
      obtain ⟨before,u,after,hsplit,hb,ha,hacc,harr⟩ := h.lost hr'
      refine ⟨before,u,after ++ [t],by simp [hsplit],hb,ha,haccepted.trans hacc,?_⟩
      rw [harrivals,Roll.admitted_nil]
      exact harr
  | @accept i rest hp =>
    have hr' : (s.run steps).connection.readEnded = false := by
      refine Bool.eq_false_of_not_eq_true fun hr => ?_
      have hnil : (s.run steps).connection.roll.pending = [] := h.empty hr
      cases hp.symm.trans hnil
    refine ⟨fun _ => ?_,fun hr => ?_,fun hr => ?_⟩
    · have hqueue : (s.run steps).connection.acceptQueue = i :: rest := hp
      rw [harrivals,hpending,haccepted]
      simp only [roll,h.whole hr',hqueue,List.append_assoc,List.singleton_append]
    · rw [hended] at hr
      exact absurd (hr'.symm.trans hr) (by simp)
    · rw [hended] at hr
      exact absurd (hr'.symm.trans hr) (by simp)
  | lose reads =>
    rw [List.append_nil] at haccepted
    refine ⟨fun hr => ?_,fun _ => hpending,fun _ => ?_⟩
    · cases hended.symm.trans hr
    · exact ⟨steps,t,[],rfl,reads,hended,haccepted,harrivals.trans (h.whole reads)⟩

theorem Fresh.tally {s : Station} (h : s.Fresh) {steps : List Step}
    (hc : ∀ t ∈ steps, ∀ cancelled code, t.event ≠ .call cancelled (.close code))
    (he : (s.run steps).connection.error = none) : s.Tally steps := by
  induction steps using List.reverseRecOn with
  | nil =>
    cases h
    refine ⟨fun _ => rfl,fun hr => ?_,fun hr => ?_⟩ <;> cases hr
  | append_singleton steps t ih =>
    have hstaged := h.staged steps
    rw [run_concat] at he
    have hbefore := Deeds.flawless (does_act hstaged t.out t.inn t.event).1 he
    have hturns := turns_step hstaged (hc t (by simp)) he
    rw [← run_concat] at hturns
    exact (ih (fun u hu => hc u (by simp [hu])) hbefore).concat hturns

/-- The streams of the peer are accepted in the order they surfaced, each by one call, as long as
this end does not close and the connection is not given up. Whatever waits to be accepted when the
end of the input is seen is thrown away then, and nothing else ever is. -/
theorem accepts_in_order (steps : List Step)
    (hc : ∀ t ∈ steps, ∀ cancelled code, t.event ≠ .call cancelled (.close code))
    (he : ((fresh role options codes channel).run steps).connection.error = none) :
    let s := fresh role options codes channel
    let c := (s.run steps).connection
    c.arrivals.Nodup ∧
    (c.readEnded = false → c.arrivals = s.accepted steps ++ c.acceptQueue) ∧
    (c.readEnded = true → c.acceptQueue = [] ∧ ∃ before t after, steps = before ++ t :: after ∧
      (s.run before).connection.readEnded = false ∧
      (s.run (before ++ [t])).connection.readEnded = true ∧
      s.accepted steps = s.accepted before ∧
      c.arrivals = s.accepted before ++ (s.run before).connection.acceptQueue) := by
  intro s c
  have htally := (Fresh.intro role options codes channel).tally hc he
  exact ⟨c.arrivals_nodup,htally.whole,fun hr => ⟨htally.empty hr,htally.lost hr⟩⟩

/-- The peer opens two streams, ends both, says CLOSE and hangs up. One of them was accepted. -/
def visit : List Step :=
  meeting {} ++ [.hearing [.stream ⟨3⟩ true [1], .stream ⟨7⟩ true [2]],
    .quiet (.call false .accept),
    .hearing [.close 0], ⟨{ capacity := 0 }, { capacity := 0, closed := true }, .pull 0 0 0⟩,
    .quiet (.call false .accept)]

theorem accepts_in_order_visit :
    let s := fresh .client {} .direct .plain
    let c := (s.run visit).connection
    (∀ t ∈ visit, ∀ cancelled code, t.event ≠ .call cancelled (.close code)) ∧ c.error = none ∧
      c.readEnded = true ∧ c.arrivals = [0, 1] ∧ s.accepted visit = [0] ∧
      ∃ before t after, visit = before ++ t :: after ∧
        (s.run before).connection.readEnded = false ∧ s.accepted visit = s.accepted before ∧
        c.arrivals = s.accepted before ++ (s.run before).connection.acceptQueue := by
  intro s c
  have hc : ∀ t ∈ visit, ∀ cancelled code, t.event ≠ .call cancelled (.close code) := by
    simp [visit,meeting,Step.hearing,Step.quiet]
  have he : c.error = none := by decide +kernel
  have hr : c.readEnded = true := by decide +kernel
  obtain ⟨-,-,hlost⟩ := accepts_in_order .client {} .direct .plain visit hc he
  obtain ⟨-,before,t,after,hsplit,hb,-,hacc,harr⟩ := hlost hr
  exact ⟨hc,he,hr,by decide +kernel,by decide +kernel,before,t,after,hsplit,hb,hacc,harr⟩

/-- A stream whose data and end came before the CLOSE of the peer cannot be accepted once the peer
has hung up. -/
theorem hangup_loses_streams :
    let s := fresh .client {} .direct .plain
    let c := (s.run visit).connection
    c.error = none ∧ c.arrivals = [0, 1] ∧ s.accepted visit = [0] ∧ c.acceptQueue = [] ∧
      (c.streams[1]?.any fun t => t.finReceived && t.resetCode.isNone && t.error.isNone) = true ∧
      c.closedError = .closedByPeer 0 := by
  refine ⟨?_,?_,?_,?_,?_,?_⟩ <;> decide +kernel

end Station

end Multiplex
