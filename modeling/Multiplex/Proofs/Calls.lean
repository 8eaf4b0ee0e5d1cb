import Multiplex.Proofs.Looking

/-!
Every call of the application is a sequence of moves, after at most one stream has started.
-/

namespace Multiplex

theorem SendCredit.toNat_consume (c : SendCredit) (wanted : UInt64) :
    (c.consume wanted).1.toNat = min wanted.toNat c.available.toNat := by
  have hm : (c.consume wanted).1 = if wanted ≤ c.available then wanted else c.available := rfl
  rw [hm]
  split <;> rename_i hle <;> rw [UInt64.le_iff_toNat_le] at hle <;> omega

namespace Connection

variable {c c₁ c' : Connection} {i n : Nat} {s : Stream} {id : StreamId} {data : Bytes}
  {wanted : UInt64} {fin cancelled : Bool} {w : Wait}

/-- The connection once the stream at place `i` has the next id. -/
def started (c : Connection) (i : Nat) (s : Stream) : Connection :=
  let d := s.direction
  let id := StreamId.ofParts (UInt64.ofNat (c.nextLocal.get d)) d c.role
  { c with
    streams := c.streams.set i { s with id := some id }
    activeLocal := c.activeLocal.set d (c.activeLocal.get d + 1)
    nextLocal := c.nextLocal.set d (c.nextLocal.get d + 1)
    table := c.table ++ [(id, i)] }

/-- The stream at place `i` starts. -/
inductive Start (i : Nat) : Connection → Connection → Prop
  | start {c : Connection} {s : Stream} (hi : c.streams[i]? = some s)
      (hid : s.id = none) (hw : s.writeError = none) (hp : c.phase = .active)
      (hl : c.activeLocal.get s.direction < (c.peer.maxStreams s.direction).toNat) :
      Start i c (c.started i s)

def Speaks (i : Nat) (c c' : Connection) : Prop :=
  Moves c c' ∧ c'.phase = .active ∧ ∃ s, c'.streams[i]? = some s ∧ s.ledger.sent ≠ []

/-- What a call does: moves, after at most one stream has started. If the call is `ready` for that,
the stream sends its first frame at once. -/
def Evolves (ready : Prop) (c c' : Connection) : Prop :=
  Moves c c' ∨ ∃ i c₁, Start i c c₁ ∧ Moves c₁ c' ∧ (ready → ∃ c₂, Speaks i c₁ c₂ ∧ Moves c₂ c')

/-- Whether streams that start have something to start with. -/
structure Ready (c : Connection) : Prop where
  credit : ∀ {i : Nat} {s : Stream}, c.streams[i]? = some s → s.id = none →
    0 < s.credit.available.toNat
  size : c.phase = .active → 0 < c.peer.maxFrame.toNat

theorem Moves.evolves {ready : Prop} (h : Moves c c') : Evolves ready c c' :=
  .inl h

theorem enqueueControl?_streams (c : Connection) (streams : List Stream) (f : Option Frame) :
    ({ c with streams } : Connection).enqueueControl? f = { c.enqueueControl? f with streams } := by
  cases f with
  | none => rfl
  | some f =>
    simp only [enqueueControl?,enqueueControl]
    split <;> rfl

theorem moves_tend_notify {s s' : Stream} {update : Option Frame} (hi : c.streams[i]? = some s)
    (h : s.Tends c.options.window s' update) :
    Moves c ((c.enqueueControl? update).modify i fun _ => s'.notify) := by
  have hs : (c.enqueueControl? update).streams = c.streams := by rw [enqueueControl?_eq]
  have hm := Move.tend hi h.notify
  rw [enqueueControl?_streams] at hm
  rw [modify_eq (hs ▸ hi),hs]
  exact hm.moves

section

variable (c)

theorem moves_abandonReads (i : Nat) : Moves c (c.abandonReads i) := by
  unfold abandonReads
  cases hi : c.streams[i]? with
  | none => exact .refl
  | some s =>
    dsimp only
    split
    · exact .refl
    · exact moves_tend_notify hi (Stream.tends_abandon s)

theorem moves_reset (i : Nat) (code : UInt64) : Moves c (c.reset i code) := by
  unfold reset
  cases hi : c.streams[i]? with
  | none => exact .refl
  | some s =>
    dsimp only
    split
    · exact .refl
    · rename_i hg
      have hr : s.released = false := by
        simp only [Bool.or_eq_true,not_or] at hg
        simpa using hg.2
      split
      · rename_i hp
        have hlt := (List.getElem?_eq_some_iff.mp hi).1
        have hm : Move c { c with streams := c.streams.set i (s.markReset code) } :=
          .mark code hi (.inr (.inr hp))
        refine hm.moves.trans ?_
        convert moves_notifyStream
          { c with streams := c.streams.set i (s.markReset code) } i using 1
        rw [modify_eq hi,notifyStream,modify_eq (s := s.markReset code) (by simp [hlt])]
        simp
      · refine (moves_sendReset code (.inr ?_)).trans (moves_notifyStream _ i)
        intro s' hs'
        cases hi.symm.trans hs'
        exact hr

theorem moves_disposeStream (i : Nat) : Moves c (c.disposeStream i) := by
  unfold disposeStream
  cases hi : c.streams[i]? with
  | none => exact .refl
  | some s =>
    dsimp only
    split
    · exact .refl
    · have hm := c.moves_modify_quiet i (·.unwritten) (·.changes)
        (fun _ => some (c.codes.resetCode .disposed))
      split
      · exact hm.trans (moves_notifyStream _ i)
      · exact hm.trans (moves_reset _ i _)

theorem moves_cancel (w : Wait) : Moves c (c.cancel w) := by
  cases w with
  | credit i _ _ => exact moves_reset c i _
  | written i => exact moves_reset c i _
  | data i _ => exact moves_reset c i _
  | slot | peerStream | pong | closed => exact .refl

theorem moves_suspend (cancelled : Bool) (w : Wait) : Moves c (c.suspend cancelled w).2 := by
  unfold suspend
  split
  · exact moves_cancel c w
  · exact .refl

theorem lookData_moves (i : Nat) (limit : Option Nat) : Moves c (c.lookData i limit).2 := by
  have hl := c.dataLook i limit
  generalize c.lookData i limit = r at hl
  cases hl with
  | missing | failed | nothing => exact .refl
  | chunk hi hr ht =>
    have hm := Move.tend hi (Stream.tends_take hr ht)
    simp only [without,modify_eq hi]
    exact hm.moves
  | ended hi hr ht hf =>
    have hm := Move.tend hi (Stream.tends_noteEnd hr ht hf)
    rw [modify_eq hi]
    exact hm.moves

theorem moves_readOn (cancelled : Bool) (i fuel : Nat) (goal : ReadGoal) :
    Moves c (c.readOn cancelled i fuel goal).2 := by
  induction fuel generalizing c goal with
  | zero => exact moves_suspend c cancelled _
  | succ fuel ih =>
    have hm := lookData_moves c i goal.limit
    unfold readOn
    split <;> rename_i heq <;> (try split) <;> (rw [heq] at hm; try exact hm)
    · exact hm.trans (moves_suspend _ cancelled _)
    · exact hm.trans (ih _ _)
    · exact hm.trans (ih _ _)

end

theorem lookSlot_cases {l : Look StreamId} (h : c.lookSlot i = (l, c₁)) :
    (c₁ = c ∧ ∀ id, l = some (.ok id) → ∃ s, c.streams[i]? = some s ∧ s.id = some id) ∨
    ∃ c₀ s id, Start i c c₀ ∧ Moves c₀ c₁ ∧ l = some (.ok id) ∧ c.streams[i]? = some s ∧
      s.id = none ∧ c₁.streams[i]? = some { s with id := some id } ∧ s.writeError = none ∧
      c₁.phase = .active ∧ c₁.peer = c.peer := by
  have hl := c.slotLook i
  rw [h] at hl
  cases hl with
  | missing | failed | inactive | full => exact .inl ⟨rfl,by simp⟩
  | @started s _ hi hid =>
    refine .inl ⟨rfl,?_⟩
    rintro _ ⟨⟩
    exact ⟨s,hi,hid⟩
  | @starts s _ _ hi hid hw hp ho hi' =>
    unfold tryOpen at ho
    split at ho
    · cases ho
    · rename_i hl
      simp only [modify_eq hi,Option.some.injEq] at ho
      have hst : Start i c (c.started i s) := .start hi hid hw hp (by omega)
      refine .inr ⟨_,s,_,hst,?_,rfl,hi,hid,hi',hw,?_,?_⟩ <;> rw [← ho]
      · exact Move.moves (.note _ _ _ _ rfl (.refl _))
      · exact hp
      · rfl

theorem lookCredit_eq_ok (h : c.lookCredit i wanted = (some (.ok n), c₁)) :
    ∃ s, c.streams[i]? = some s ∧ s.writeError = none ∧ 0 < n ∧ n ≤ wanted.toNat ∧
      n ≤ s.credit.available.toNat ∧
      c₁ = c.modify i fun s => { s with credit := ⟨s.credit.available - UInt64.ofNat n⟩ } := by
  have hl := c.creditLook i wanted
  rw [h] at hl
  cases hl with
  | @taken s hi hw hz =>
    have hmin := s.credit.toNat_consume wanted
    refine ⟨s,hi,hw,?_,by omega,by omega,?_⟩
    · rw [Nat.pos_iff_ne_zero]
      intro hn
      exact hz (UInt64.toNat_inj.mp hn)
    · rw [modify_eq hi,modify_eq hi,UInt64.ofNat_toNat]
      rfl

theorem lookCredit_of_not_ok {l : Look Nat} (h : c.lookCredit i wanted = (l, c₁))
    (hl : ∀ n, l ≠ some (.ok n)) : c₁ = c := by
  have hlook := c.creditLook i wanted
  rw [h] at hlook
  cases hlook with
  | missing | failed | short => rfl
  | taken => exact absurd rfl (hl _)

theorem queue_eq (hi : c.streams[i]? = some s) (hw : s.writeError = none) (hp : c.phase ≠ .closed)
    (id : StreamId) (data : Bytes) (fin : Bool) :
    c.queue i id data fin = .ok (
      let sent := { s with finQueued := fin, unwritten := s.unwritten + 1 }.noteSent data
      let c := { c with streams := c.streams.set i sent }.append ⟨.stream id fin data, some i⟩
      if fin then c.maybeRelease i else c) := by
  have hlt := (List.getElem?_eq_some_iff.mp hi).1
  unfold queue
  rw [if_neg hp]
  simp only [hi,hw,enqueueData,modify_eq hi]
  rw [modify_eq (s := { s with finQueued := fin }.noteSent data) (by simp [hlt])]
  simp [Stream.noteSent]

theorem queue_closed (hp : c.phase = .closed) (i : Nat) (id : StreamId) (data : Bytes)
    (fin : Bool) :
    c.queue i id data fin = .error c.closedError :=
  if_pos hp

section

variable (hi : c.streams[i]? = some s)

include hi

theorem moves_send_one (hid : s.id = some id)
    (h : c.lookCredit i (UInt64.ofNat (min data.length c.peer.maxFrame.toNat)) =
      (some (.ok n), c₁)) :
    (∃ e, c₁.queue i id (data.take n) false = .error e ∧ Moves c c₁ ∧ c.phase = .closed) ∨
    ∃ c₂, c₁.queue i id (data.take n) false = .ok c₂ ∧ Moves c c₂ ∧ c₂.phase = c.phase ∧
      ∃ s₂, c₂.streams[i]? = some s₂ ∧ s₂.id = some id ∧ s₂.ledger.sent ≠ [] := by
  obtain ⟨s',hi',hw,-,hn,hc,hc₁⟩ := lookCredit_eq_ok h
  obtain rfl : s' = s := by
    rw [hi] at hi'
    exact (Option.some.inj hi').symm
  have hlt := (List.getElem?_eq_some_iff.mp hi).1
  have hwanted : (UInt64.ofNat (min data.length c.peer.maxFrame.toNat)).toNat =
      min data.length c.peer.maxFrame.toNat :=
    UInt64.toNat_ofNat_of_lt' (lt_of_le_of_lt (min_le_right _ _) c.peer.maxFrame.toNat_lt)
  rw [hwanted] at hn
  have hlen : (data.take n).length = n := by
    rw [List.length_take]
    omega
  have hs := Stream.writeError_eq_none_iff.mp hw
  have hi₁ := getElem?_modify_self hi
    fun s => { s with credit := ⟨s.credit.available - UInt64.ofNat n⟩ }
  rw [← hc₁] at hi₁
  have hp₁ : c₁.phase = c.phase := by rw [hc₁]; rfl
  rw [modify_eq hi] at hc₁
  by_cases hp : c.phase = .closed
  · left
    refine ⟨_,queue_closed (hp₁.trans hp) _ _ _ _,?_,hp⟩
    rw [hc₁]
    exact Move.moves (.spend _ hi hid hw hp)
  · right
    rw [← hp₁] at hp
    refine ⟨_,queue_eq hi₁ (Stream.writeError_eq_none_iff.mpr hs) hp id (data.take n) false,?_,
      hp₁,?_⟩
    all_goals
      rw [hp₁] at hp
      subst hc₁
    · -- the count of queued frames first, then the frame
      have h₁ :
          Move c { c with streams := c.streams.set i { s' with unwritten := s'.unwritten + 1 } } :=
        .tend hi (Stream.tends_quiet _ s' _ _ _)
      have h₂ := Move.send (s := { s' with unwritten := s'.unwritten + 1 })
        (c := { c with streams := c.streams.set i { s' with unwritten := s'.unwritten + 1 } })
        (i := i) (by simp [hlt]) hid (Stream.writeError_eq_none_iff.mpr hs) hp
        (hlen.le.trans hc) (hlen.le.trans (by simp only; omega))
      refine h₁.moves.trans ?_
      convert h₂.moves using 1
      simp [Stream.charge,Stream.noteSent,hlen,hs.2.2.2.2]
    · simp only [Bool.false_eq_true,if_false]
      exact ⟨_,List.getElem?_set_self (by simpa using hlt),hid,by simp [Stream.noteSent]⟩

theorem release_ledger : ∃ s', (c.release i).streams[i]? = some s' ∧ s'.ledger = s.ledger := by
  rcases c.release_cases i with h | ⟨s',_,hi',-,-,-,-,h⟩
  · exact ⟨s,by rw [h,hi],rfl⟩
  · cases hi.symm.trans hi'
    rw [h,setActive_eq]
    exact ⟨_,List.getElem?_set_self (List.getElem?_eq_some_iff.mp hi).1,rfl⟩

theorem speaks_queueEnd (hid : s.id = some id) (hw : s.writeError = none) (hp : c.phase ≠ .closed) :
    ∃ c₁ s₁, Moves c c₁ ∧ c₁.phase = c.phase ∧ c₁.streams[i]? = some s₁ ∧ s₁.ledger.sent ≠ [] ∧
      Moves c₁ (c.queueEnd i id).2 := by
  have hlt := (List.getElem?_eq_some_iff.mp hi).1
  have hs := Stream.writeError_eq_none_iff.mp hw
  have h₁ : Move c { c with streams := c.streams.set i { s with unwritten := s.unwritten + 1 } } :=
    .tend hi (Stream.tends_quiet _ s _ _ _)
  have h₂ := Move.finish (s := { s with unwritten := s.unwritten + 1 })
    (c := { c with streams := c.streams.set i { s with unwritten := s.unwritten + 1 } })
    (i := i) (by simp [hlt]) hid (Stream.writeError_eq_none_iff.mpr hs) hp
  obtain ⟨s₁,hi₁,hsent⟩ := release_ledger (c := { c with
      streams := c.streams.set i { s with unwritten := s.unwritten + 1 }.finish }.append
        ⟨.stream id true [], some i⟩)
    (i := i) (s := { s with unwritten := s.unwritten + 1 }.finish) (by simp [append,hlt])
  simp only [List.set_set] at h₂
  refine ⟨_,s₁,h₁.moves.trans h₂.moves,?_,hi₁,?_,?_⟩
  · rw [release_eq]
    rfl
  · rw [hsent]
    simp [Stream.finish,Stream.noteSent]
  · unfold queueEnd
    simp only [queue_eq hi hw hp,if_true]
    exact moves_maybeRelease _ i

theorem moves_queueEnd (hid : s.id = some id) : Moves c (c.queueEnd i id).2 := by
  by_cases hp : c.phase = .closed
  · rw [queueEnd,queue_closed hp]
    exact .refl
  · cases hw : s.writeError with
    | none =>
      obtain ⟨_,_,hm,-,-,-,hm'⟩ := speaks_queueEnd hi hid hw hp
      exact hm.trans hm'
    | some e =>
      simp only [queueEnd,queue,hp,if_false,hi,hw]
      exact .refl

end

theorem moves_sendEnd (c : Connection) (i : Nat) : Moves c (c.sendEnd i).2 := by
  unfold sendEnd
  split
  · exact .refl
  · rename_i s hi
    split
    · exact .refl
    · split
      · exact .refl
      · exact .refl
      · rename_i id _ hid
        exact moves_queueEnd hi hid

theorem moves_send (c : Connection) (cancelled : Bool) (i : Nat) (id : StreamId) (fin : Bool)
    (fuel : Nat) (data : Bytes) (hid : ∃ s, c.streams[i]? = some s ∧ s.id = some id) :
    Moves c (c.send cancelled i id fin fuel data).2 := by
  have hend (c : Connection) :
      Moves c (if fin then c.sendEnd i else c.succeed .unit).2 := by
    split
    · exact moves_sendEnd c i
    · exact .refl
  induction fuel generalizing c data with
  | zero =>
    unfold send
    exact hend c
  | succ fuel ih =>
    cases data with
    | nil =>
      unfold send
      exact hend c
    | cons b bs =>
      obtain ⟨s,hi,hid⟩ := hid
      unfold send
      split
      · rename_i c₁ hl
        rw [lookCredit_of_not_ok hl (by simp)]
        exact moves_suspend c cancelled _
      · rename_i e c₁ hl
        rw [lookCredit_of_not_ok hl (by simp)]
        exact .refl
      · rename_i n c₁ hl
        rcases moves_send_one hi hid hl with ⟨e,hq,hm,-⟩ | ⟨c₂,hq,hm,-,s₂,hi₂,hid₂,-⟩
        · rw [hq]
          exact hm
        · rw [hq]
          exact hm.trans (ih c₂ _ ⟨s₂,hi₂,hid₂⟩)

theorem speaks_send (cancelled : Bool) (hi : c.streams[i]? = some s) (hid : s.id = some id)
    (hw : s.writeError = none) (hp : c.phase = .active) (hc : 0 < s.credit.available.toNat)
    (hm : 0 < c.peer.maxFrame.toNat) (hd : data ≠ []) :
    ∃ c₁, Speaks i c c₁ ∧ Moves c₁ (c.send cancelled i id fin data.length data).2 := by
  cases data with
  | nil => exact absurd rfl hd
  | cons b bs =>
    have hwant : (UInt64.ofNat (min (b :: bs).length c.peer.maxFrame.toNat)).toNat =
        min (b :: bs).length c.peer.maxFrame.toNat :=
      UInt64.toNat_ofNat_of_lt' (lt_of_le_of_lt (min_le_right _ _) c.peer.maxFrame.toNat_lt)
    have hlen : 0 < (b :: bs).length := by simp
    obtain ⟨n,c₀,hl⟩ : ∃ n c₀, c.lookCredit i
        (UInt64.ofNat (min (b :: bs).length c.peer.maxFrame.toNat)) = (some (.ok n), c₀) := by
      unfold lookCredit
      simp only [hi,hw]
      rw [if_neg]
      · exact ⟨_,_,rfl⟩
      · intro hz
        have := congrArg UInt64.toNat hz
        rw [SendCredit.toNat_consume,hwant] at this
        simp only [UInt64.toNat_zero] at this
        omega
    rcases moves_send_one hi hid hl with ⟨_,_,_,hx⟩ | ⟨c₁,hq,h₁,hp₁,s₁,hi₁,hid₁,hsent⟩
    · cases hp.symm.trans hx
    · refine ⟨c₁,⟨h₁,hp₁.trans hp,s₁,hi₁,hsent⟩,?_⟩
      rw [List.length_cons,send,hl]
      · simp only [hq]
        exact moves_send c₁ cancelled i id fin _ _ ⟨s₁,hi₁,hid₁⟩
      · simp

theorem moves_sendOn (cancelled : Bool) (data : Bytes) (fin : Bool) (hi : c.streams[i]? = some s)
    (hid : s.id = some id) : Moves c (c.sendOn cancelled i id data fin).2 := by
  unfold sendOn
  split
  · exact moves_queueEnd hi hid
  · exact moves_send c cancelled i id _ _ _ ⟨s,hi,hid⟩

theorem speaks_sendOn (cancelled : Bool) (hi : c.streams[i]? = some s) (hid : s.id = some id)
    (hw : s.writeError = none) (hp : c.phase = .active) (hc : 0 < s.credit.available.toNat)
    (hm : 0 < c.peer.maxFrame.toNat) (hd : data ≠ [] ∨ fin = true) :
    ∃ c₁, Speaks i c c₁ ∧ Moves c₁ (c.sendOn cancelled i id data fin).2 := by
  unfold sendOn
  split
  · obtain ⟨c₁,s₁,h₁,hp₁,hi₁,hsent,h₂⟩ := speaks_queueEnd hi hid hw (by rw [hp]; simp)
    exact ⟨c₁,⟨h₁,hp₁.trans hp,s₁,hi₁,hsent⟩,h₂⟩
  · rename_i data fin hn
    refine speaks_send cancelled hi hid hw hp hc hm fun h => ?_
    exact hn h (hd.resolve_left (not_not_intro h))

theorem evolves_startAndSend (c : Connection) (cancelled : Bool) (i : Nat) (data : Bytes)
    (fin : Bool) : Evolves (c.Ready ∧ (data ≠ [] ∨ fin = true)) c
      (c.startAndSend cancelled i data fin).2 := by
  unfold startAndSend
  cases hl : c.lookSlot i with
  | mk l c₁ =>
    rcases lookSlot_cases hl with ⟨rfl,hid⟩ | ⟨c₀,s,id,hs,hm,rfl,hi,hid,hi₁,hw,hp,hpeer⟩
    · left
      split <;> rename_i heq <;> cases heq
      · exact moves_suspend c₁ cancelled _
      · exact .refl
      · obtain ⟨s,hi,hid⟩ := hid _ rfl
        exact moves_sendOn cancelled data fin hi hid
    · refine .inr ⟨i,c₀,hs,hm.trans (moves_sendOn cancelled data fin hi₁ rfl),?_⟩
      rintro ⟨hr,hd⟩
      have hc : 0 < s.credit.available.toNat := hr.credit hi hid
      have hsz : 0 < c₁.peer.maxFrame.toNat := by
        rw [hpeer]
        exact hr.size (by cases hs; assumption)
      obtain ⟨c₂,⟨h₁,h₂,h₃⟩,h₄⟩ := speaks_sendOn cancelled hi₁ rfl
        (Stream.writeError_eq_none_iff.mpr (Stream.writeError_eq_none_iff.mp hw)) hp hc hsz hd
      exact ⟨c₂,⟨hm.trans h₁,h₂,h₃⟩,h₄⟩

/-- Only a call that waits for a slot starts a stream. -/
theorem moves_resume (c : Connection) (cancelled : Bool) (w : Wait)
    (h : ∀ i data fin, w ≠ .slot i data fin) : Moves c (c.resume cancelled w).2 := by
  cases w with
  | slot i data fin => exact absurd rfl (h i data fin)
  | credit i data fin =>
    unfold resume
    dsimp only
    split
    · rename_i id hid
      obtain ⟨s,hi,hid⟩ := Option.bind_eq_some_iff.mp hid
      exact moves_send c cancelled i id fin _ data ⟨s,hi,hid⟩
    · exact .refl
  | data i goal => exact moves_readOn c cancelled i _ goal
  | peerStream =>
    unfold resume lookPeerStream
    cases hq : c.acceptQueue with
    | nil => cases hp : c.phase <;> first | exact moves_suspend c cancelled _ | exact .refl
    | cons j rest =>
      exact Move.moves (.note _ _ _ _ rfl (by rw [hq]; exact List.sublist_cons_self j rest))
  | written | pong | closed =>
    unfold resume
    dsimp only
    split
    · exact moves_suspend c cancelled _
    · exact .refl
    · exact .refl

theorem Evolves.mono {p q : Prop} (h : Evolves p c c') (hq : q → p) : Evolves q c c' :=
  h.imp_right fun ⟨i,c₁,hs,hm,hx⟩ => ⟨i,c₁,hs,hm,fun h => hx (hq h)⟩

theorem evolves_resume (c : Connection) (cancelled : Bool) (w : Wait) :
    Evolves (c.Ready ∧ w.Meant) c (c.resume cancelled w).2 := by
  by_cases h : ∃ i data fin, w = .slot i data fin
  · obtain ⟨i,data,fin,rfl⟩ := h
    exact (evolves_startAndSend c cancelled i data fin).mono fun ⟨hr,hw⟩ => ⟨hr,hw i data fin rfl⟩
  · push Not at h
    exact (moves_resume c cancelled w h).evolves

theorem evolves_call (c : Connection) (cancelled : Bool) (k : Call) :
    Evolves c.Ready c (c.call cancelled k).2 := by
  cases c.taken k with
  | succeed _ eq | refused _ eq =>
    rw [eq cancelled]
    exact Moves.evolves .refl
  | look begins eq =>
    rw [eq cancelled]
    have hmeant := begins.meant
    cases begins with
    | ping now =>
      exact Moves.evolves (.head (.say (.inl ⟨_,rfl⟩)) (moves_resume _ cancelled _ (by simp)))
    | close hp =>
      exact Moves.evolves ((moves_beginClose _ hp).trans (moves_resume _ cancelled _ (by simp)))
    | write | writeFinish | finish | flush | read | accept | closed =>
      exact (evolves_resume c cancelled _).mono fun hr => ⟨hr,hmeant⟩

theorem meant_resume {w' : Wait} (hw : w.Meant) (h : (c.resume cancelled w).1 = .wait w') :
    w'.Meant :=
  (stalls_of_resume (Prod.ext h rfl)).meant hw

theorem meant_call {k : Call} (h : (c.call cancelled k).1 = .wait w) : w.Meant := by
  obtain ⟨_,_,begins,stalls⟩ := stalls_of_call (Prod.ext h rfl)
  exact stalls.meant begins.meant

end Connection

end Multiplex
