import Multiplex.Proofs.Moves
import Multiplex.Proofs.Station

/-!
How calls come to an end. A call looks for what it needs, goes on with what it finds, and stops at
the first look that shows nothing; a token that has fired only matters where the call would wait.
-/

namespace Multiplex

def Wait.stream? : Wait → Option Nat
  | .slot i _ _ | .credit i _ _ | .written i | .data i _ => some i
  | .peerStream | .pong _ | .closed => none

/-- Whether a call that waits for a slot will have something to send. -/
def Wait.Meant (w : Wait) : Prop :=
  ∀ i data fin, w = .slot i data fin → data ≠ [] ∨ fin = true

def Wait.mute : Wait → Bool
  | .slot .. | .credit .. => false
  | .written _ | .data .. | .peerStream | .pong _ | .closed => true

theorem Stream.takeChunk_length {s s₁ : Stream} {limit : Option Nat} {chunk : Bytes}
    (h : s.takeChunk limit = some (chunk, s₁)) :
    s₁.inbound.length < s.inbound.length ∨ limit = some chunk.length := by
  unfold takeChunk at h
  split at h
  · cases h
  · rename_i c rest hin
    cases h
    exact .inl (by simp [hin])
  · rename_i c rest max hin
    split at h
    · cases h
      exact .inl (by simp [hin])
    · cases h
      right
      rw [List.length_take]
      congr 1
      omega

namespace Connection

variable {cancelled fin : Bool} {k : Call} {c' : Connection} {w' : Wait}

section Looks

variable (c : Connection) (i : Nat)

/-- What a look for a slot finds. -/
inductive SlotLook : Look StreamId × Connection → Prop
  | missing (hi : c.streams[i]? = none) : SlotLook (some (.error c.closedError), c)
  | started {s : Stream} {id : StreamId} (hi : c.streams[i]? = some s) (hid : s.id = some id) :
      SlotLook (some (.ok id), c)
  | failed {s : Stream} {e : Failure} (hi : c.streams[i]? = some s) (hid : s.id = none)
      (hw : s.writeError = some e) : SlotLook (some (.error e), c)
  | inactive {s : Stream} (hi : c.streams[i]? = some s) (hid : s.id = none) :
      SlotLook (some (.error c.closedError), c)
  | full {s : Stream} (hi : c.streams[i]? = some s) (hid : s.id = none) (hp : c.phase = .active)
      (hl : (c.peer.maxStreams s.direction).toNat ≤ c.activeLocal.get s.direction) :
      SlotLook (none, c)
  | starts {s : Stream} {id : StreamId} {c' : Connection} (hi : c.streams[i]? = some s)
      (hid : s.id = none) (hw : s.writeError = none) (hp : c.phase = .active)
      (ho : c.tryOpen i s.direction = some c')
      (hi' : c'.streams[i]? = some { s with id := some id }) : SlotLook (some (.ok id), c')

theorem slotLook : SlotLook c i (c.lookSlot i) := by
  unfold lookSlot
  split
  · exact .missing ‹_›
  · rename_i s hi
    split
    · exact .started hi ‹_›
    · exact .failed hi ‹_› ‹_›
    · rename_i hid hw
      split
      · exact .inactive hi hid
      · rename_i hp
        have hp : c.phase = .active := by simpa using hp
        split
        · rename_i ho
          refine .full hi hid hp ?_
          unfold tryOpen at ho
          split at ho
          · assumption
          · cases ho
        · rename_i c' ho
          have hi' : c'.streams[i]? = some { s with id := some (.ofParts
              (.ofNat (c.nextLocal.get s.direction)) s.direction c.role) } := by
            unfold tryOpen at ho
            split at ho
            · cases ho
            · cases ho
              rw [setActive_eq]
              exact getElem?_modify_self hi _
          rw [hi']
          exact .starts hi hid hw hp ho hi'

/-- What a look for credit finds. -/
inductive CreditLook (wanted : UInt64) : Look Nat × Connection → Prop
  | missing (hi : c.streams[i]? = none) : CreditLook wanted (some (.error c.closedError), c)
  | failed {s : Stream} {e : Failure} (hi : c.streams[i]? = some s) (hw : s.writeError = some e) :
      CreditLook wanted (some (.error e), c)
  | short {s : Stream} (hi : c.streams[i]? = some s) (hw : s.writeError = none)
      (hz : (s.credit.consume wanted).1 = 0) : CreditLook wanted (none, c)
  | taken {s : Stream} (hi : c.streams[i]? = some s) (hw : s.writeError = none)
      (hz : (s.credit.consume wanted).1 ≠ 0) : CreditLook wanted
        (some (.ok (s.credit.consume wanted).1.toNat),
          c.modify i fun t => { t with credit := (s.credit.consume wanted).2 })

theorem creditLook (wanted : UInt64) : CreditLook c i wanted (c.lookCredit i wanted) := by
  unfold lookCredit
  split
  · exact .missing ‹_›
  · rename_i s hi
    split
    · exact .failed hi ‹_›
    · rename_i hw
      dsimp only
      split
      · exact .short hi hw ‹_›
      · exact .taken hi hw ‹_›

/-- The connection once a chunk has been taken off the stream that is `s` without it. -/
def without (s : Stream) (chunk : Bytes) : Connection :=
  (c.modify i fun _ => ((s.noteTaken chunk).consumed chunk.length).2).enqueueControl?
    ((s.noteTaken chunk).consumed chunk.length).1

/-- What a look for data finds. -/
inductive DataLook (limit : Option Nat) : Look (Option Bytes) × Connection → Prop
  | missing (hi : c.streams[i]? = none) : DataLook limit (some (.error c.closedError), c)
  | failed {s : Stream} {e : Failure} (hi : c.streams[i]? = some s) (hr : s.readError = some e) :
      DataLook limit (some (.error e), c)
  | chunk {s s' : Stream} {chunk : Bytes} (hi : c.streams[i]? = some s) (hr : s.readError = none)
      (ht : s.takeChunk limit = some (chunk, s')) :
      DataLook limit (some (.ok (some chunk)), c.without i s' chunk)
  | ended {s : Stream} (hi : c.streams[i]? = some s) (hr : s.readError = none)
      (ht : s.takeChunk limit = none) (hf : s.finReceived = true) :
      DataLook limit (some (.ok none), c.modify i Stream.noteEnd)
  | nothing {s : Stream} (hi : c.streams[i]? = some s) (hr : s.readError = none)
      (ht : s.takeChunk limit = none) (hf : s.finReceived = false) : DataLook limit (none, c)

theorem dataLook (limit : Option Nat) : DataLook c i limit (c.lookData i limit) := by
  unfold lookData
  split
  · exact .missing ‹_›
  · rename_i s hi
    split
    · exact .failed hi ‹_›
    · rename_i hr
      split
      · exact .chunk hi hr ‹_›
      · rename_i ht
        split
        · exact .ended hi hr ht ‹_›
        · rename_i hf
          exact .nothing hi hr ht (by simpa using hf)

variable {c i} in
theorem streams_without {s s' : Stream} {limit : Option Nat} {chunk : Bytes}
    (hi : c.streams[i]? = some s) (ht : s.takeChunk limit = some (chunk, s')) :
    ∃ t, (c.without i s' chunk).streams[i]? = some t ∧ t.error = s.error ∧
      t.finReceived = s.finReceived ∧ t.inbound = s'.inbound := by
  have hagrees := (s'.noteTaken chunk).consumed_agrees chunk.length
  have hin := (s'.noteTaken chunk).consumed_inbound chunk.length
  refine ⟨_,?_,hagrees.error.trans ?_,hagrees.finReceived.trans ?_,hin⟩
  · rw [without,enqueueControl?_eq]
    exact getElem?_modify_self hi _
  · obtain ⟨rest,rfl,-⟩ := Stream.takeChunk_spec ht
    rfl
  · obtain ⟨rest,rfl,-⟩ := Stream.takeChunk_spec ht
    rfl

def enqueued (id : StreamId) (data : Bytes) (fin : Bool) : Connection :=
  (c.modify i fun s => { s with finQueued := fin }.noteSent data).enqueueData i
    (.stream id fin data)

/-- What becomes of a frame of data. -/
inductive Queues (id : StreamId) (data : Bytes) (fin : Bool) : Except Failure Connection → Prop
  | closed : Queues id data fin (.error c.closedError)
  | failed {s : Stream} {e : Failure} (hi : c.streams[i]? = some s) (hw : s.writeError = some e) :
      Queues id data fin (.error e)
  | queued {s : Stream} (hi : c.streams[i]? = some s) (hw : s.writeError = none)
      (hp : c.phase ≠ .closed) : Queues id data fin
        (.ok (if fin then (c.enqueued i id data fin).maybeRelease i else c.enqueued i id data fin))

theorem queues (id : StreamId) (data : Bytes) (fin : Bool) :
    Queues c i id data fin (c.queue i id data fin) := by
  unfold queue
  split
  · exact .closed
  · split
    · exact .closed
    · split
      · exact .failed ‹_› ‹_›
      · exact .queued ‹_› ‹_› ‹_›

end Looks

/-- What holds of each look of a call on the stream `here`, or of one on no stream. -/
structure LookLaw (here : Option Nat) (R : Connection → Connection → Prop) : Prop where
  refl (c : Connection) : R c c
  trans {c c' c'' : Connection} : R c c' → R c' c'' → R c c''
  start {i : Nat} {c c' : Connection} {s : Stream} (place : here = some i)
    (hi : c.streams[i]? = some s) (ho : c.tryOpen i s.direction = some c') : R c c'
  spend {i : Nat} {c : Connection} {s : Stream} {wanted : UInt64} (place : here = some i)
    (hi : c.streams[i]? = some s) (hz : (s.credit.consume wanted).1 ≠ 0) :
    R c (c.modify i fun t => { t with credit := (s.credit.consume wanted).2 })
  take {i : Nat} {c : Connection} {s s' : Stream} {limit : Option Nat} {chunk : Bytes}
    (place : here = some i) (hi : c.streams[i]? = some s)
    (ht : s.takeChunk limit = some (chunk, s')) : R c (c.without i s' chunk)
  see {i : Nat} (place : here = some i) (c : Connection) : R c (c.modify i Stream.noteEnd)

/-- What holds of each look of a call and of what it sends. -/
structure SendLaw (here : Option Nat) (R : Connection → Connection → Prop) : Prop
    extends LookLaw here R where
  put {i : Nat} {c : Connection} {s : Stream} (place : here = some i) (hi : c.streams[i]? = some s)
    (hw : s.writeError = none) (id : StreamId) (data : Bytes) (fin : Bool) :
    R c (c.enqueued i id data fin)
  release {i : Nat} (place : here = some i) (c : Connection) : R c (c.maybeRelease i)

/-- What holds of each part of a call. -/
structure CallLaw (cancelled : Bool) (here : Option Nat) (R : Connection → Connection → Prop) : Prop
    extends SendLaw here R where
  suspend (c : Connection) (w : Wait) : R c (c.suspend cancelled w).2

/-- Where a call stops that looked at the connection `c` for what it waits for: what it waits for
then, and the connection that it leaves. -/
inductive Stalls (c : Connection) : Wait → Wait → Connection → Prop
  | slot {i : Nat} {data : Bytes} {fin : Bool} {s : Stream} (hi : c.streams[i]? = some s)
      (hid : s.id = none) (hp : c.phase = .active)
      (hl : (c.peer.maxStreams s.direction).toNat ≤ c.activeLocal.get s.direction) :
      Stalls c (.slot i data fin) (.slot i data fin) c
  | credit {w : Wait} {i : Nat} {data rest : Bytes} {fin : Bool} {s : Stream} {c' : Connection}
      (hw : w = .slot i data fin ∨ w = .credit i data fin) (hi : c'.streams[i]? = some s)
      (writable : s.writeError = none) (short : (s.credit.consume
        (.ofNat (min rest.length c'.peer.maxFrame.toNat))).1 = 0) :
      Stalls c w (.credit i rest fin) c'
  | written {i : Nat} {s : Stream} (hi : c.streams[i]? = some s) (he : s.error = none)
      (hr : s.resetCode = none) (hu : s.unwritten ≠ 0) : Stalls c (.written i) (.written i) c
  | data {i : Nat} {goal goal' : ReadGoal} {s : Stream} {c' : Connection}
      (hi : c'.streams[i]? = some s) (hr : s.readError = none) (empty : s.inbound = [])
      (unended : s.finReceived = false) : Stalls c (.data i goal) (.data i goal') c'
  | peerStream (hp : c.phase = .active) (hq : c.acceptQueue = []) :
      Stalls c .peerStream .peerStream c
  | pong {before : Nat} (hp : c.phase ≠ .closed) (hb : c.metrics.pongs ≤ before) :
      Stalls c (.pong before) (.pong before) c
  | closed (hp : c.phase ≠ .closed) : Stalls c .closed .closed c

/-- Why a call fails that waits for `w`. -/
inductive Fails (c : Connection) (w : Wait) : Failure → Prop
  | closed : Fails c w c.closedError
  | write {i : Nat} {s : Stream} {e : Failure} (place : w.stream? = some i)
      (hi : c.streams[i]? = some s) (hw : s.writeError = some e) : Fails c w e
  | read {i : Nat} {s : Stream} {e : Failure} (place : w.stream? = some i)
      (hi : c.streams[i]? = some s) (hr : s.readError = some e) : Fails c w e
  | stream {i : Nat} {s : Stream} {e : Failure} (place : w.stream? = some i)
      (hi : c.streams[i]? = some s) (he : s.error = some e) : Fails c w e
  | aborted (code : UInt64) : Fails c w (.streamAborted code)
  | unexpectedEnd : Fails c w .unexpectedEnd
  | notEstablished : Fails c w (.invalidState .notEstablished)
  | connection {e : Failure} (hw : w = .closed) (he : c.error = some e) : Fails c w e

/-- How a call goes on that waits for `w` and looks at the connection `c`: what it does is an `R`,
and its token only matters if it would have to wait. -/
inductive Resolves (R : Connection → Connection → Prop) (c : Connection) (w : Wait)
    (f : Bool → Outcome × Connection) : Prop
  | wait {w' : Wait} {c' : Connection} (run : R c c') (stalls : Stalls c w w' c')
      (eq : ∀ cancelled, f cancelled = c'.suspend cancelled w')
  | fail {e : Failure} {c' : Connection} (run : R c c') (fails : c'.Fails w e)
      (eq : ∀ cancelled, f cancelled = c'.fail e)
  | succeed {a : Answer} {c' : Connection} (run : R c c')
      (eq : ∀ cancelled, f cancelled = c'.succeed a)

variable {R : Connection → Connection → Prop} {c c₀ : Connection} {i : Nat} {w : Wait}

namespace LookLaw

variable {here : Option Nat} (h : LookLaw here R) (place : here = some i)

include h place

theorem slot (c : Connection) : R c (c.lookSlot i).2 := by
  have hl := c.slotLook i
  generalize c.lookSlot i = r at hl
  cases hl with
  | starts hi hid hw hp ho => exact h.start place hi ho
  | missing | started | failed | inactive | full => exact h.refl c

theorem credit (c : Connection) (wanted : UInt64) : R c (c.lookCredit i wanted).2 := by
  have hl := c.creditLook i wanted
  generalize c.lookCredit i wanted = r at hl
  cases hl with
  | taken hi hw hz => exact h.spend place hi hz
  | missing | failed | short => exact h.refl c

theorem data (c : Connection) (limit : Option Nat) : R c (c.lookData i limit).2 := by
  have hl := c.dataLook i limit
  generalize c.lookData i limit = r at hl
  cases hl with
  | chunk hi hr ht => exact h.take place hi ht
  | ended => exact h.see place c
  | missing | failed | nothing => exact h.refl c

theorem readOn {goal₀ : ReadGoal} (hw : w = .data i goal₀) (run : R c₀ c) {fuel : Nat}
    (enough : ∀ s, c.streams[i]? = some s → s.inbound.length < fuel) (hpos : 0 < fuel)
    (goal : ReadGoal) : Resolves R c₀ w fun cancelled => c.readOn cancelled i fuel goal := by
  -- as long as chunks are taken, fewer are left than steps
  induction fuel generalizing c goal with
  | zero => cases hpos
  | succ fuel ih =>
    have hrun := h.trans run (h.data place c goal.limit)
    have hlook := c.dataLook i goal.limit
    generalize hl : c.lookData i goal.limit = r at hlook hrun
    simp only [Connection.readOn,hl]
    cases hlook with
    | missing => exact .fail run .closed fun _ => rfl
    | failed hi hr => exact .fail run (.read (hw ▸ rfl) hi hr) fun _ => rfl
    | nothing hi hr ht hf =>
      subst hw
      exact .wait run (.data hi hr (Stream.takeChunk_eq_none_iff.mp ht) hf) fun _ => rfl
    | ended =>
      cases goal with
      | exact missing done => exact .fail hrun .unexpectedEnd fun _ => rfl
      | upTo | chunk | toEnd => exact .succeed hrun fun _ => rfl
    | @chunk s s' chunk hi hr ht =>
      have hnext (hcut : goal.limit ≠ some chunk.length) :
          (∀ s, (c.without i s' chunk).streams[i]? = some s → s.inbound.length < fuel) ∧
            0 < fuel := by
        have hlt := enough s hi
        have hless := (Stream.takeChunk_length ht).resolve_right hcut
        obtain ⟨u,hu,-,-,hin⟩ := streams_without hi ht
        refine ⟨fun t ht' => ?_,by omega⟩
        cases hu.symm.trans ht'
        rw [hin]
        omega
      cases goal with
      | upTo | chunk => exact .succeed hrun fun _ => rfl
      | exact missing done =>
        dsimp only
        split
        · exact .succeed hrun fun _ => rfl
        · rename_i hlt
          obtain ⟨enough,hpos⟩ := hnext fun he => hlt (le_of_eq (Option.some.inj he))
          exact ih hrun enough hpos _
      | toEnd done =>
        obtain ⟨enough,hpos⟩ := hnext (Option.some_ne_none _).symm
        exact ih hrun enough hpos _

omit h place

theorem resolves (h : LookLaw w.stream? R) (hm : w.mute = true) (c : Connection)
    (accept : w = .peerStream → ∀ {i : Nat} {rest : List Nat},
      c.acceptQueue = i :: rest → R c { c with acceptQueue := rest }) :
    Resolves R c w fun cancelled => c.resume cancelled w := by
  have hrefl := h.refl c
  cases w with
  | slot | credit => cases hm
  | written i =>
    simp only [Connection.resume,lookWritten]
    cases hi : c.streams[i]? with
    | none => exact .fail hrefl .closed fun _ => rfl
    | some s =>
      dsimp only
      cases he : s.error with
      | some e => exact .fail hrefl (.stream rfl hi he) fun _ => rfl
      | none =>
        by_cases hu : s.unwritten = 0
        · simp only [hu,if_true]
          exact .succeed hrefl fun _ => rfl
        · simp only [hu,if_false]
          cases hr : s.resetCode with
          | some code => exact .fail hrefl (.aborted code) fun _ => rfl
          | none => exact .wait hrefl (.written hi he hr hu) fun _ => rfl
  | data i goal =>
    refine h.readOn rfl rfl hrefl (fun s hi => ?_) (Nat.succ_pos _) goal
    simp [hi]
  | peerStream =>
    simp only [Connection.resume,lookPeerStream]
    cases hq : c.acceptQueue with
    | cons i rest => exact .succeed (accept rfl hq) fun _ => rfl
    | nil =>
      cases hp : c.phase with
      | active => exact .wait hrefl (.peerStream hp hq) fun _ => rfl
      | connecting => exact .fail hrefl .notEstablished fun _ => rfl
      | closing | closed => exact .fail hrefl .closed fun _ => rfl
  | pong before =>
    simp only [Connection.resume,lookPong]
    by_cases hb : before < c.metrics.pongs
    · simp only [hb,if_true]
      exact .succeed hrefl fun _ => rfl
    · by_cases hp : c.phase = .closed
      · simp only [hb,hp,if_true,if_false]
        exact .fail hrefl .closed fun _ => rfl
      · simp only [hb,hp,if_false]
        exact .wait hrefl (.pong hp (Nat.not_lt.mp hb)) fun _ => rfl
  | closed =>
    simp only [Connection.resume,lookClosed]
    by_cases hp : c.phase = .closed
    · simp only [hp,if_true]
      cases he : c.error with
      | some e => exact .fail hrefl (.connection rfl he) fun _ => rfl
      | none => exact .succeed hrefl fun _ => rfl
    · simp only [hp,if_false]
      exact .wait hrefl (.closed hp) fun _ => rfl

end LookLaw

theorem Fails.of_queue {id : StreamId} {data : Bytes} {e : Failure} (place : w.stream? = some i)
    (hq : c.queue i id data fin = .error e) : c.Fails w e := by
  have hl := c.queues i id data fin
  rw [hq] at hl
  cases hl with
  | closed => exact .closed
  | failed hi hw => exact .write place hi hw

namespace SendLaw

theorem queue {here : Option Nat} (h : SendLaw here R) (place : here = some i) {c c' : Connection}
    {id : StreamId} {data : Bytes} (hq : c.queue i id data fin = .ok c') : R c c' := by
  have hl := c.queues i id data fin
  rw [hq] at hl
  cases hl with
  | queued hi hw =>
    have hput := h.put place hi hw id data fin
    split
    · exact h.trans hput (h.release place _)
    · exact hput

variable (h : SendLaw w.stream? R) (place : w.stream? = some i)

include h place

theorem queueEnd (run : R c₀ c) (id : StreamId) : Resolves R c₀ w fun _ => c.queueEnd i id := by
  unfold Connection.queueEnd
  split
  · rename_i hq
    exact .succeed (h.trans run (h.queue place hq)) fun _ => rfl
  · rename_i hq
    exact .fail run (.of_queue place hq) fun _ => rfl

theorem sendEnd (run : R c₀ c) : Resolves R c₀ w fun _ => c.sendEnd i := by
  unfold Connection.sendEnd
  split
  · exact .fail run .closed fun _ => rfl
  · rename_i s hi
    split
    · exact .succeed run fun _ => rfl
    · split
      · exact .fail run (.write place hi ‹_›) fun _ => rfl
      · exact .fail run .closed fun _ => rfl
      · exact h.queueEnd place run _

theorem send {data₀ : Bytes} (hw : w = .slot i data₀ fin ∨ w = .credit i data₀ fin) (run : R c₀ c)
    (id : StreamId) (fuel : Nat) (data : Bytes) :
    Resolves R c₀ w fun cancelled => c.send cancelled i id fin fuel data := by
  have hend {c : Connection} (run : R c₀ c) :
      Resolves R c₀ w fun _ => if fin then c.sendEnd i else c.succeed .unit := by
    split
    · exact h.sendEnd place run
    · exact .succeed run fun _ => rfl
  induction fuel generalizing c data with
  | zero =>
    simp only [Connection.send]
    exact hend run
  | succ fuel ih =>
    cases data with
    | nil =>
      simp only [Connection.send]
      exact hend run
    | cons b bs =>
      generalize hwanted : UInt64.ofNat (min (b :: bs).length c.peer.maxFrame.toNat) = wanted
      have hrun := h.trans run (h.credit place c wanted)
      have hlook := c.creditLook i wanted
      generalize hl : c.lookCredit i wanted = r at hlook hrun
      simp only [Connection.send,hwanted,hl]
      cases hlook with
      | missing => exact .fail run .closed fun _ => rfl
      | failed hi he => exact .fail run (.write place hi he) fun _ => rfl
      | short hi ho hz =>
        subst hwanted
        exact .wait run (.credit hw hi ho hz) fun _ => rfl
      | taken =>
        dsimp only
        cases hq : Connection.queue _ i id (List.take _ (b :: bs)) false with
        | error e => exact .fail hrun (.of_queue place hq) fun _ => rfl
        | ok c₂ => exact ih (h.trans hrun (h.queue place hq)) _

omit place

theorem startAndSend {data : Bytes} (hw : w = .slot i data fin) (c : Connection) :
    Resolves R c w fun cancelled => c.startAndSend cancelled i data fin := by
  have place : w.stream? = some i := hw ▸ rfl
  have hsend {c' : Connection} (run : R c c') (id : StreamId) :
      Resolves R c w fun cancelled => c'.sendOn cancelled i id data fin := by
    cases data with
    | cons => exact h.send place (.inl hw) run id _ _
    | nil =>
      cases fin with
      | true => exact h.queueEnd place run id
      | false => exact h.send place (.inl hw) run id _ _
  have hrun := h.slot place c
  have hlook := c.slotLook i
  generalize hl : c.lookSlot i = r at hlook hrun
  simp only [Connection.startAndSend,hl]
  cases hlook with
  | missing | inactive => exact .fail hrun .closed fun _ => rfl
  | failed hi hid he => exact .fail hrun (.write place hi he) fun _ => rfl
  | full hi hid hp hf =>
    subst hw
    exact .wait hrun (.slot hi hid hp hf) fun _ => rfl
  | started | starts => exact hsend hrun _

theorem resolves (c : Connection) (accept : w = .peerStream → ∀ {i : Nat} {rest : List Nat},
    c.acceptQueue = i :: rest → R c { c with acceptQueue := rest }) :
    Resolves R c w fun cancelled => c.resume cancelled w := by
  have hrefl := h.refl c
  cases w with
  | slot i data fin => exact h.startAndSend rfl c
  | credit i data fin =>
    simp only [Connection.resume]
    split
    · exact h.send rfl (.inr rfl) hrefl _ _ data
    · exact .fail hrefl .closed fun _ => rfl
  | written | data | peerStream | pong | closed => exact h.toLookLaw.resolves rfl c accept

end SendLaw

/-- What a call that is let in looks for, and the connection that it looks at. -/
inductive Begins (c : Connection) : Call → Wait → Connection → Prop
  | write {i : Nat} {data : Bytes} (hw : c.writeError i = none) (hd : data ≠ []) :
      Begins c (.write i data) (.slot i data false) c
  | writeFinish {i : Nat} {data : Bytes} (hw : c.writeError i = none) :
      Begins c (.writeFinish i data) (.slot i data true) c
  | finish {i : Nat} (hw : c.writeError i = none) : Begins c (.finish i) (.slot i [] true) c
  | flush (i : Nat) : Begins c (.flush i) (.written i) c
  | read (i : Nat) (goal : ReadGoal) : Begins c (.read i goal) (.data i goal) c
  | accept : Begins c .accept .peerStream c
  | ping (now : Nat) : Begins c (.ping now) (.pong c.metrics.pongs)
      (c.enqueueControl (.ping (pingPayload now)))
  | close {code : UInt64} (hp : c.phase ≠ .connecting) :
      Begins c (.close code) .closed (c.beginClose code)
  | closed : Begins c .closed .closed c

/-- What a call gives that has nothing to do. -/
inductive Needless (c : Connection) : Call → Answer → Prop
  | write {i : Nat} (hw : c.writeError i = none) : Needless c (.write i []) .unit
  | finish {i : Nat} (hf : c.finQueued i = true) : Needless c (.finish i) .unit
  | upTo (i : Nat) : Needless c (.read i (.upTo 0)) (.bytes [])
  | exact (i : Nat) (done : Bytes) : Needless c (.read i (.exact 0 done)) (.bytes [])

/-- How a call is taken: it has nothing to do, it is refused, or it looks for what it needs. -/
inductive Taken (c : Connection) (k : Call) (f : Bool → Outcome × Connection) : Prop
  | succeed {a : Answer} (needless : c.Needless k a) (eq : ∀ cancelled, f cancelled = c.succeed a)
  | refused {e : Failure} (hw : ∀ i, k.stream? = some i → c.writeError i = some e)
      (eq : ∀ cancelled, f cancelled = c.fail e)
  | look {w : Wait} {c' : Connection} (begins : Begins c k w c')
      (eq : ∀ cancelled, f cancelled = c'.resume cancelled w)

theorem Begins.stream? (h : Begins c k w c') : w.stream? = k.stream? := by
  cases h <;> rfl

theorem taken (c : Connection) (k : Call) : Taken c k fun cancelled => c.call cancelled k := by
  cases k with
  | write i data =>
    simp only [Connection.call]
    cases hw : c.writeError i with
    | some e => exact .refused (by rintro _ ⟨⟩; exact hw) fun _ => rfl
    | none =>
      cases data with
      | nil => exact .succeed (.write hw) fun _ => rfl
      | cons b bs => exact .look (.write hw (by simp)) fun _ => rfl
  | writeFinish i data =>
    simp only [Connection.call]
    cases hw : c.writeError i with
    | some e => exact .refused (by rintro _ ⟨⟩; exact hw) fun _ => rfl
    | none => exact .look (.writeFinish hw) fun _ => rfl
  | finish i =>
    simp only [Connection.call]
    split
    · exact .succeed (.finish ‹_›) fun _ => rfl
    · cases hw : c.writeError i with
      | some e => exact .refused (by rintro _ ⟨⟩; exact hw) fun _ => rfl
      | none => exact .look (.finish hw) fun _ => rfl
  | read i goal =>
    rcases goal with (_ | max) | max | ⟨_ | missing,done⟩ | done
    · exact .succeed (.upTo i) fun _ => rfl
    · exact .look (.read i _) fun _ => rfl
    · exact .look (.read i _) fun _ => rfl
    · exact .succeed (.exact i done) fun _ => rfl
    · exact .look (.read i _) fun _ => rfl
    · exact .look (.read i _) fun _ => rfl
  | ping now =>
    simp only [Connection.call]
    cases c.phase with
    | connecting | closed => exact .refused (by simp [Call.stream?]) fun _ => rfl
    | active | closing => exact .look (.ping now) fun _ => rfl
  | close code =>
    simp only [Connection.call]
    split
    · exact .refused (by simp [Call.stream?]) fun _ => rfl
    · rename_i hp
      exact .look (.close hp) fun _ => rfl
  | flush i => exact .look (.flush i) fun _ => rfl
  | accept => exact .look .accept fun _ => rfl
  | closed => exact .look .closed fun _ => rfl

namespace CallLaw

theorem resume (h : CallLaw cancelled w.stream? R) (c : Connection)
    (accept : w = .peerStream → ∀ {i : Nat} {rest : List Nat}, c.acceptQueue = i :: rest →
      R c { c with acceptQueue := rest }) : R c (c.resume cancelled w).2 := by
  cases h.resolves c accept with
  | wait run stalls eq => exact eq cancelled ▸ h.trans run (h.suspend _ _)
  | fail run fails eq => exact eq cancelled ▸ run
  | succeed run eq => exact eq cancelled ▸ run

theorem call (h : CallLaw cancelled k.stream? R) (c : Connection)
    (accept : k = .accept → ∀ {i : Nat} {rest : List Nat}, c.acceptQueue = i :: rest →
      R c { c with acceptQueue := rest })
    (ping : ∀ now, k = .ping now → R c (c.enqueueControl (.ping (pingPayload now))))
    (close : ∀ code, k = .close code → R c (c.beginClose code)) : R c (c.call cancelled k).2 := by
  cases c.taken k with
  | succeed _ eq => exact eq cancelled ▸ h.refl c
  | refused hw eq => exact eq cancelled ▸ h.refl c
  | look begins eq =>
    rw [eq cancelled]
    cases begins with
    | accept => exact CallLaw.resume (w := .peerStream) h c fun _ => accept rfl
    | ping now =>
      exact h.trans (ping now rfl) (CallLaw.resume (w := .pong _) h _ (by simp))
    | close => exact h.trans (close _ rfl) (CallLaw.resume (w := .closed) h _ (by simp))
    | closed => exact CallLaw.resume (w := .closed) h c (by simp)
    | flush i => exact CallLaw.resume (w := .written i) h c (by simp)
    | read i goal => exact CallLaw.resume (w := .data i goal) h c (by simp)
    | write | writeFinish | finish => exact CallLaw.resume (w := .slot _ _ _) h c (by simp)

end CallLaw

theorem suspend_eq_wait {c c' : Connection} {w : Wait}
    (h : c.suspend cancelled w' = (.wait w, c')) : w = w' ∧ c' = c := by
  unfold suspend at h
  split at h <;> cases h
  exact ⟨rfl,rfl⟩

theorem sendLaw_true (here : Option Nat) : SendLaw here fun _ _ => True where
  refl _ := trivial
  trans _ _ := trivial
  start _ _ _ := trivial
  spend _ _ _ := trivial
  take _ _ _ := trivial
  see _ _ := trivial
  put _ _ _ _ _ _ := trivial
  release _ _ := trivial

theorem stalls_of_resume (h : c.resume cancelled w = (.wait w', c')) : Stalls c w w' c' := by
  cases (sendLaw_true w.stream?).resolves c fun _ _ _ _ => trivial with
  | wait run stalls eq =>
    obtain ⟨rfl,rfl⟩ := suspend_eq_wait ((eq cancelled).symm.trans h)
    exact stalls
  | fail run fails eq => cases (eq cancelled).symm.trans h
  | succeed run eq => cases (eq cancelled).symm.trans h

theorem stalls_of_call (h : c.call cancelled k = (.wait w', c')) :
    ∃ w c₁, Begins c k w c₁ ∧ Stalls c₁ w w' c' := by
  cases c.taken k with
  | look begins eq => exact ⟨_,_,begins,stalls_of_resume ((eq cancelled).symm.trans h)⟩
  | succeed _ eq | refused _ eq => cases (eq cancelled).symm.trans h

theorem Stalls.stream? (h : Stalls c w w' c') : w'.stream? = w.stream? := by
  cases h with
  | credit hw => rcases hw with rfl | rfl <;> rfl
  | slot | written | data | peerStream | pong | closed => rfl

theorem Stalls.mute (h : Stalls c w w' c') (hw : w.mute = true) : w'.mute = true := by
  cases h with
  | credit hx => rcases hx with rfl | rfl <;> cases hw
  | slot | written | data | peerStream | pong | closed => exact hw

/-- A call that goes on waiting still has something to send. -/
theorem Stalls.meant (h : Stalls c w w' c') (hw : w.Meant) : w'.Meant := by
  cases h with
  | slot => exact hw
  | credit | written | data | peerStream | pong | closed => simp [Wait.Meant]

theorem Begins.meant (h : Begins c k w c') : w.Meant := by
  cases h with
  | write hw hd => exact fun _ _ _ he => .inl (by cases he; exact hd)
  | writeFinish | finish => exact fun _ _ _ he => .inr (by cases he; rfl)
  | flush | read | accept | ping | close | closed => simp [Wait.Meant]

end Connection

end Multiplex
