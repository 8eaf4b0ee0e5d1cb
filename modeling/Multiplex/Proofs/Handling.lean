import Multiplex.Proofs.Moves

/-!
What a frame of the peer does to a connection, and when it breaks a rule. Nothing is assumed of the
state.
-/

namespace Multiplex

def Frame.isClose : Frame → Bool
  | .close _ => true
  | _ => false

theorem Frame.isClose_of_streamId {f : Frame} {id : StreamId} (h : f.streamId = some id) :
    f.isClose = false := by
  cases f <;> first | rfl | cases h

namespace Connection

variable {c c' : Connection} {f : Frame} {i : Nat} {id : StreamId}

structure Unheard (c : Connection) (id : StreamId) : Prop where
  find : c.find? id = none
  initiator : id.initiator ≠ c.role
  next : c.nextRemote.get id.direction ≤ id.sequence.toNat

/-- The connection once it knows that the peer got as far as the stream `id`. -/
def reached (c : Connection) (id : StreamId) : Connection :=
  { c with nextRemote := c.nextRemote.set id.direction (id.sequence.toNat + 1) }

def surfaced (c : Connection) (id : StreamId) : Connection :=
  let d := id.direction
  { c.reached id with
    streams := c.streams ++ [{ Stream.fresh d true c.options c.peer with id := some id }]
    activeRemote := c.activeRemote.set d (c.activeRemote.get d + 1)
    table := c.table ++ [(id, c.streams.length)]
    acceptQueue := c.acceptQueue ++ [c.streams.length] }

/-- Whether a frame is the first of a stream of the peer. -/
structure Introduces (f : Frame) (c : Connection) (id : StreamId) : Prop where
  about : f.streamId = some id
  kind : f.kind ≠ .windowUpdate
  new : c.Unheard id

/-- Whether such a stream is taken in. -/
structure Surfaces (f : Frame) (c : Connection) (id : StreamId) : Prop
    extends Introduces f c id where
  active : c.phase = .active
  room : c.activeRemote.get id.direction < (c.options.maxStreams id.direction).toNat

/-- What a frame leaves alone. -/
structure Kept (c c' : Connection) : Prop where
  role : c'.role = c.role
  options : c'.options = c.options
  peer : c'.peer = c.peer
  nextLocal : c'.nextLocal = c.nextLocal
  readEnded : c'.readEnded = c.readEnded
  codes : c'.codes = c.codes
  writesShut : c'.writesShut = c.writesShut
  taken : c'.journal.taken = c.journal.taken

theorem Kept.refl (c : Connection) : c.Kept c := ⟨rfl,rfl,rfl,rfl,rfl,rfl,rfl,rfl⟩

theorem Kept.trans {c c' c'' : Connection} (h : c.Kept c') (h' : c'.Kept c'') : c.Kept c'' :=
  ⟨h'.role.trans h.role,h'.options.trans h.options,h'.peer.trans h.peer,
    h'.nextLocal.trans h.nextLocal,h'.readEnded.trans h.readEnded,h'.codes.trans h.codes,
    h'.writesShut.trans h.writesShut,h'.taken.trans h.taken⟩

theorem kept_abort (c : Connection) (e : Failure) : c.Kept (c.abort e) := by
  by_cases hp : c.phase = .closed
  · rw [abort,if_pos hp]
    exact .refl c
  · rw [abort_eq c e hp]
    exact ⟨rfl,rfl,rfl,rfl,rfl,rfl,rfl,rfl⟩

/-- What a frame does. -/
inductive Take : Frame → Connection → Connection → Prop
  | data {c : Connection} {i : Nat} {s : Stream} {id : StreamId} {fin : Bool} {data : Bytes}
      {w : ReceiveWindow} (hf : c.find? id = some i) (hi : c.streams[i]? = some s)
      (reads : s.hasReadSide = true) (unended : s.finReceived = false)
      (room : s.window.receive data.length = .ok w) :
      Take (.stream id fin data) c (
        let c' := { c.enqueueControl? (s.afterData w fin data).1 with
          streams := c.streams.set i (s.afterData w fin data).2.notify }
        if fin then c'.release i else c')
  | grant {c : Connection} {i : Nat} {s : Stream} {id : StreamId} {n : UInt64}
      (hf : c.find? id = some i) (hi : c.streams[i]? = some s) :
      Take (.windowUpdate id n) c
        { c with streams := c.streams.set i { s with credit := s.credit.grant n } }
  | reset {c : Connection} {i : Nat} {s : Stream} {id : StreamId} {wire : UInt64} (code : UInt64)
      (unwritten changes : Nat) (hf : c.find? id = some i) (hi : c.streams[i]? = some s) :
      Take (.reset id wire) c ({ c with
        streams := c.streams.set i ({ s with unwritten, changes }.markReset code)
        dataQueue := c.dataQueue.filter fun q => q.owner ≠ some i }.release i)
  /-- Frames about streams that are out of use are dropped. -/
  | drop {c : Connection} {f : Frame} {id : StreamId} (hid : f.streamId = some id)
      (hf : c.find? id = none)
      (h : f.kind = .windowUpdate ∨ id.initiator = c.role ∨
        id.sequence.toNat < c.nextRemote.get id.direction) : Take f c c
  /-- A connection that is no longer active refuses new streams. -/
  | refuse {c : Connection} {id : StreamId} {fin : Bool} {data : Bytes}
      (new : c.Unheard id) (hp : c.phase ≠ .active) :
      Take (.stream id fin data) c ((c.reached id).enqueueControl
        (.reset id (c.codes.toWire (c.codes.resetCode .refused))))
  | pass {c : Connection} {id : StreamId} {wire : UInt64} (new : c.Unheard id)
      (hp : c.phase ≠ .active) : Take (.reset id wire) c (c.reached id)
  | surface {c c' : Connection} {f : Frame} {id : StreamId} (metrics : Metrics) (changes : Nat)
      (hs : Surfaces f c id) (rest : Take f { c.surfaced id with metrics, changes } c') :
      Take f c c'
  | idle {c : Connection} {f : Frame} (h : (∃ v, f = .ping v) ∨ ∃ v, f = .pong v) : Take f c c
  | close {c : Connection} {wire : UInt64} (code : UInt64) (h : c.closeReceived = none) :
      Take (.close wire) c { c with
        closeReceived := some code
        phase := if c.phase = .active then .closing else c.phase }
  /-- A table with an entry for no stream at all, which there never is. -/
  | stray {c : Connection} {f : Frame} {id : StreamId} {i : Nat} (dataQueue : List Outgoing)
      (metrics : Metrics) (hf : c.find? id = some i) (hi : c.streams[i]? = none)
      (accepted : metrics.streamsAccepted = c.metrics.streamsAccepted)
      (hid : f.streamId = some id) :
      Take f c { c with dataQueue, metrics }

/-- How a frame breaks a rule, and what the connection is then. -/
inductive Breach : Violation → Frame → Connection → Connection → Prop
  | neverOpened {c : Connection} {id : StreamId} {fin : Bool} {data : Bytes}
      (hf : c.find? id = none) (hr : id.initiator = c.role)
      (hn : c.nextLocal.get id.direction ≤ id.sequence.toNat) :
      Breach (.neverOpened id) (.stream id fin data) c c
  | beyondLimit {c : Connection} {f : Frame} {id : StreamId} (hx : Introduces f c id)
      (hp : c.phase = .active)
      (hl : (c.options.maxStreams id.direction).toNat ≤ c.activeRemote.get id.direction) :
      Breach (.beyondLimit id (c.options.maxStreams id.direction)) f c (c.reached id)
  | data {c : Connection} {i : Nat} {s : Stream} {id : StreamId} {fin : Bool} {data : Bytes}
      (v : Violation) (hf : c.find? id = some i) (hi : c.streams[i]? = some s)
      (h : s.hasReadSide = false ∨ s.finReceived = true ∨
        s.window.available.toNat < data.length) :
      Breach v (.stream id fin data) c c
  | surface {c c' : Connection} {v : Violation} {f : Frame} {id : StreamId} (metrics : Metrics)
      (changes : Nat) (hs : Surfaces f c id)
      (rest : Breach v f { c.surfaced id with metrics, changes } c') : Breach v f c c'
  | duplicateClose {c : Connection} {wire : UInt64} (h : c.closeReceived.isSome) :
      Breach .duplicateClose (.close wire) c c
  | lateSettings {c : Connection} {s : Settings} : Breach .lateSettings (.settings s) c c

def flags (c : Connection) : (Phase × Option Failure) × Bool × Bool × Bool × Option UInt64 × Bool :=
  ((c.phase, c.error), c.shutdownWrites, c.writesShut, c.closeSent, c.closeReceived, c.readEnded)

/-- CLOSE is the one frame that a graceful close goes by. -/
theorem Take.frame (ht : Take f c c') : c.Kept c' ∧
    (f.isClose = false ∧ c'.flags = c.flags ∨
      f.isClose = true ∧ c.closeReceived = none ∧ ∃ code, c'.flags = flags { c with
        closeReceived := some code
        phase := if c.phase = .active then .closing else c.phase }) := by
  induction ht with
  | data =>
    split
    · rw [release_eq,enqueueControl?_eq]
      exact ⟨⟨rfl,rfl,rfl,rfl,rfl,rfl,rfl,rfl⟩,.inl ⟨rfl,rfl⟩⟩
    · rw [enqueueControl?_eq]
      exact ⟨⟨rfl,rfl,rfl,rfl,rfl,rfl,rfl,rfl⟩,.inl ⟨rfl,rfl⟩⟩
  | reset =>
    rw [release_eq]
    exact ⟨⟨rfl,rfl,rfl,rfl,rfl,rfl,rfl,rfl⟩,.inl ⟨rfl,rfl⟩⟩
  | refuse =>
    rw [enqueueControl_eq]
    exact ⟨⟨rfl,rfl,rfl,rfl,rfl,rfl,rfl,rfl⟩,.inl ⟨rfl,rfl⟩⟩
  | surface _ _ hs _ ih =>
    refine ⟨{ ih.1 with },ih.2.imp_right fun hx => ?_⟩
    cases (Frame.isClose_of_streamId hs.about).symm.trans hx.1
  | drop hid => exact ⟨.refl _,.inl ⟨Frame.isClose_of_streamId hid,rfl⟩⟩
  | stray _ _ _ _ _ hid =>
    exact ⟨⟨rfl,rfl,rfl,rfl,rfl,rfl,rfl,rfl⟩,.inl ⟨Frame.isClose_of_streamId hid,rfl⟩⟩
  | idle hx => rcases hx with ⟨_,rfl⟩ | ⟨_,rfl⟩ <;> exact ⟨.refl _,.inl ⟨rfl,rfl⟩⟩
  | close code hr => exact ⟨⟨rfl,rfl,rfl,rfl,rfl,rfl,rfl,rfl⟩,.inr ⟨rfl,hr,code,rfl⟩⟩
  | grant | pass => exact ⟨⟨rfl,rfl,rfl,rfl,rfl,rfl,rfl,rfl⟩,.inl ⟨rfl,rfl⟩⟩

theorem Take.kept (ht : Take f c c') : c.Kept c' := ht.frame.1

theorem Breach.frame {v : Violation} (hb : Breach v f c c') : c.Kept c' ∧ c'.flags = c.flags ∧
    c'.controlQueue = c.controlQueue ∧ c'.dataQueue = c.dataQueue ∧ c'.journal = c.journal := by
  induction hb with
  | surface _ _ _ _ ih => exact ⟨{ ih.1 with },ih.2⟩
  | neverOpened | beyondLimit | data | duplicateClose | lateSettings =>
    exact ⟨⟨rfl,rfl,rfl,rfl,rfl,rfl,rfl,rfl⟩,rfl,rfl,rfl,rfl⟩

theorem Breach.kept {v : Violation} (hb : Breach v f c c') : c.Kept c' := hb.frame.1

/-- A rule that is broken once the connection is no longer active leaves it as it was. -/
theorem Breach.unchanged {v : Violation} (hb : Breach v f c c') (hp : c.phase ≠ .active) :
    c' = c := by
  cases hb with
  | beyondLimit _ hx => exact absurd hx hp
  | surface _ _ hs => exact absurd hs.active hp
  | neverOpened | data | duplicateClose | lateSettings => rfl

/-- What came of handling a frame: it was taken over and moves followed, or it broke a rule. -/
def Handled (f : Frame) (c : Connection) : Option Violation × Connection → Prop
  | (none, c'') => ∃ c', Take f c c' ∧ Moves c' c''
  | (some v, c') => Breach v f c c'

theorem receiveData_handled (fin : Bool) (data : Bytes) (hf : c.find? id = some i) :
    Handled (.stream id fin data) c (c.orElse (c.receiveData i id fin data)) := by
  cases hi : c.streams[i]? with
  | none =>
    simp only [receiveData,hi,orElse]
    exact ⟨c,.stray c.dataQueue c.metrics hf hi rfl rfl,.refl⟩
  | some s =>
    simp only [receiveData,hi]
    by_cases hr : s.hasReadSide = true
    · by_cases he : s.finReceived = true
      · simp only [hr,he,Bool.not_true,Bool.false_eq_true,if_false,if_true,orElse]
        exact .data _ hf hi (.inr (.inl he))
      · cases hw : s.window.receive data.length with
        | error e =>
          simp only [hr,he,Bool.not_true,Bool.false_eq_true,if_false,orElse]
          refine .data _ hf hi (.inr (.inr ?_))
          unfold ReceiveWindow.receive at hw
          split at hw
          · assumption
          · cases hw
        | ok w =>
          have hs : (c.enqueueControl? (s.afterData w fin data).1).streams = c.streams := by
            rw [enqueueControl?_eq]
          have ht : Take (.stream id fin data) c _ := .data hf hi hr (by simpa using he) hw
          rw [← hs] at ht
          rw [← modify_eq (f := fun _ => (s.afterData w fin data).2.notify) (hs ▸ hi)] at ht
          simp only [hr,he,Bool.not_true,Bool.false_eq_true,if_false,orElse]
          cases fin with
          | false => exact ⟨_,ht,.refl⟩
          | true => exact ⟨_,ht,moves_maybeRelease _ i⟩
    · simp only [hr,Bool.not_false,if_true,orElse]
      exact .data _ hf hi (.inl (by simpa using hr))

theorem release_metrics (c : Connection) (i : Nat) (metrics : Metrics) :
    ({ c with metrics } : Connection).release i = { c.release i with metrics } := by
  unfold release
  cases hi : c.streams[i]? with
  | none => rfl
  | some s =>
    cases hid : s.id with
    | none =>
      simp only [hid]
    | some id =>
      simp only [hid]
      split
      · rfl
      · unfold setActive
        split <;> rfl

theorem moves_release_metrics (c : Connection) (i : Nat) (metrics : Metrics)
    (h : metrics.streamsAccepted = c.metrics.streamsAccepted) :
    Moves (c.release i) (({ c with metrics } : Connection).release i) := by
  rw [release_metrics c i metrics]
  refine Move.moves (.note _ _ _ _ ?_ (.refl _))
  rw [release_eq]
  exact h

theorem receiveReset_handled (wire code : UInt64) (hf : c.find? id = some i) :
    Handled (.reset id wire) c (none, c.receiveReset i code) := by
  unfold receiveReset
  cases hi : c.streams[i]? with
  | none =>
    have hnone (dataQueue : List Outgoing) (metrics : Metrics) :
        (({ c with dataQueue, metrics } : Connection).notifyStream i).maybeRelease i =
          { c with dataQueue, metrics } := by
      rw [notifyStream,modify_of_none (c := { c with dataQueue, metrics }) hi,maybeRelease]
      simp only [hi]
    have hnoted (n : Nat) (f : Stream → Stream) : (c.noteOff i n).modify i f = c.noteOff i n :=
      modify_of_none (c := c.noteOff i n) hi f
    simp only [purge,countReset,modify_of_none hi,hnoted]
    simp only [noteOff]
    rw [hnone]
    refine ⟨_,.stray _ _ hf hi ?_ rfl,.refl⟩
    rfl
  | some s =>
    have hlt := (List.getElem?_eq_some_iff.mp hi).1
    rw [modify_eq hi,purge_notify_eq (s := s.markReset code) (by simp [hlt])]
    refine ⟨_,.reset code (s.unwritten - c.waiting i) (s.changes + 1) hf hi,?_⟩
    refine .trans ?_ (moves_maybeRelease _ i)
    convert moves_release_metrics _ i (c.resetMetrics i s) ?_ using 2
    · simp [cleared,waiting,resetMetrics,Stream.markReset]
    · rfl

theorem find?_surfaced (new : c.Unheard id) : (c.surfaced id).find? id = some c.streams.length := by
  have h : c.table.find? (fun entry => decide (entry.1 = id)) = none :=
    Option.map_eq_none_iff.mp new.find
  simp [find?,surfaced,List.find?_append,h]

theorem Handled.surface {r : Option Violation × Connection} (metrics : Metrics) (changes : Nat)
    (hs : Surfaces f c id)
    (h : Handled f { c.surfaced id with metrics, changes } r) : Handled f c r := by
  match r,h with
  | (none, c''),⟨c',ht,hm⟩ => exact ⟨c',Take.surface _ _ hs ht,hm⟩
  | (some v, c'),h => exact Breach.surface _ _ hs h

theorem openRemote_of_active (new : c.Unheard id) (hp : c.phase = .active) :
    c.openRemote id =
      if (c.options.maxStreams id.direction).toNat ≤ c.activeRemote.get id.direction then
        (.error (.beyondLimit id (c.options.maxStreams id.direction)), c.reached id)
      else (.ok (some c.streams.length), ((c.reached id).surface id).2) := by
  unfold openRemote
  rw [new.find]
  rw [if_neg new.initiator,if_neg (Nat.not_lt.mpr new.next),if_neg (by simp [hp])]
  rfl

theorem openRemote_of_not_active (new : c.Unheard id) (hp : c.phase ≠ .active) :
    c.openRemote id = (.ok none,
      (c.reached id).enqueueControl (.reset id (c.codes.toWire (c.codes.resetCode .refused)))) := by
  unfold openRemote
  rw [new.find]
  rw [if_neg new.initiator,if_neg (Nat.not_lt.mpr new.next),if_pos (by simpa using hp)]
  rfl

theorem surface_eq (c : Connection) (id : StreamId) :
    ((c.reached id).surface id).2 = { c.surfaced id with
      metrics := { c.metrics with streamsAccepted := c.metrics.streamsAccepted + 1 }
      changes := c.changes + 1 } := by
  rfl

theorem openRemote_of_known (h : c.find? id = some i) : c.openRemote id = (.ok (some i), c) := by
  unfold openRemote
  rw [h]

theorem resetTarget_of_known (h : c.find? id = some i) : c.resetTarget id = (.ok (some i), c) := by
  unfold resetTarget
  rw [h]

theorem handle_stream (c : Connection) (now : Nat) (id : StreamId) (fin : Bool) (data : Bytes) :
    Handled (.stream id fin data) c (c.handle now (.stream id fin data)) := by
  unfold handle
  dsimp only
  cases hf : c.find? id with
  | some i =>
    rw [openRemote_of_known hf]
    exact receiveData_handled fin data hf
  | none =>
    by_cases hr : id.initiator = c.role
    · unfold openRemote
      by_cases hn : id.sequence.toNat < c.nextLocal.get id.direction
      · simp only [hf,if_pos hr,if_pos hn]
        exact ⟨c,.drop rfl hf (.inr (.inl hr)),.refl⟩
      · simp only [hf,if_pos hr,if_neg hn]
        exact Breach.neverOpened hf hr (Nat.not_lt.mp hn)
    · by_cases hn : id.sequence.toNat < c.nextRemote.get id.direction
      · unfold openRemote
        simp only [hf,if_neg hr,if_pos hn]
        exact ⟨c,.drop rfl hf (.inr (.inr hn)),.refl⟩
      · have new : c.Unheard id := ⟨hf,hr,Nat.not_lt.mp hn⟩
        by_cases hp : c.phase = .active
        · rw [openRemote_of_active new hp]
          by_cases hl : (c.options.maxStreams id.direction).toNat ≤ c.activeRemote.get id.direction
          · rw [if_pos hl]
            exact Breach.beyondLimit ⟨rfl,by simp [Frame.kind],new⟩ hp hl
          · rw [if_neg hl,surface_eq]
            exact .surface _ _ ⟨⟨rfl,by simp [Frame.kind],new⟩,hp,by omega⟩
              (receiveData_handled fin data (find?_surfaced new))
        · rw [openRemote_of_not_active new hp]
          exact ⟨_,.refuse new hp,.refl⟩

theorem handle_reset (c : Connection) (now : Nat) (id : StreamId) (wire : UInt64) :
    Handled (.reset id wire) c (c.handle now (.reset id wire)) := by
  unfold handle
  dsimp only
  cases hf : c.find? id with
  | some i =>
    rw [resetTarget_of_known hf]
    exact receiveReset_handled wire _ hf
  | none =>
    by_cases hr : id.initiator = c.role
    · unfold resetTarget
      simp only [hf,hr,decide_true,Bool.true_or,if_true]
      exact ⟨c,.drop rfl hf (.inr (.inl hr)),.refl⟩
    · by_cases hn : id.sequence.toNat < c.nextRemote.get id.direction
      · unfold resetTarget
        simp only [hf,hn,decide_true,Bool.or_true,if_true]
        exact ⟨c,.drop rfl hf (.inr (.inr hn)),.refl⟩
      · have new : c.Unheard id := ⟨hf,hr,Nat.not_lt.mp hn⟩
        have hg : ¬(decide (id.initiator = c.role) ||
            decide (id.sequence.toNat < c.nextRemote.get id.direction)) = true := by simp [hr,hn]
        unfold resetTarget
        rw [hf]
        rw [if_neg hg]
        by_cases hp : c.phase = .active
        · rw [if_neg (by simp [hp]),openRemote_of_active new hp]
          by_cases hl : (c.options.maxStreams id.direction).toNat ≤ c.activeRemote.get id.direction
          · rw [if_pos hl]
            exact Breach.beyondLimit ⟨rfl,by simp [Frame.kind],new⟩ hp hl
          · rw [if_neg hl,surface_eq]
            exact .surface _ _ ⟨⟨rfl,by simp [Frame.kind],new⟩,hp,by omega⟩
              (receiveReset_handled wire _ (find?_surfaced new))
        · rw [if_pos (by simpa using hp)]
          exact ⟨_,.pass new hp,.refl⟩

theorem handle_handled (c : Connection) (now : Nat) (f : Frame) :
    Handled f c (c.handle now f) := by
  cases f with
  | stream id fin data => exact handle_stream c now id fin data
  | windowUpdate id n =>
    unfold handle
    dsimp only
    cases hf : c.find? id with
    | none => exact ⟨c,.drop rfl hf (.inl rfl),.refl⟩
    | some i =>
      cases hi : c.streams[i]? with
      | none =>
        refine ⟨c,.stray c.dataQueue c.metrics hf hi rfl rfl,?_⟩
        rw [modify_of_none hi]
      | some s =>
        refine ⟨_,.grant hf hi,?_⟩
        have hlt := (List.getElem?_eq_some_iff.mp hi).1
        convert moves_notifyStream _ i using 1
        rw [modify_eq hi,notifyStream,
          modify_eq (s := { s with credit := s.credit.grant n }) (by simp [hlt])]
        simp
  | reset id wire => exact handle_reset c now id wire
  | ping v => exact ⟨c,.idle (.inl ⟨v,rfl⟩),Move.moves (.say (.inr ⟨v,rfl⟩))⟩
  | pong v => exact ⟨c,.idle (.inr ⟨v,rfl⟩),Move.moves (.note _ _ _ _ rfl (.refl _))⟩
  | settings s => exact Breach.lateSettings
  | close wire =>
    unfold handle receiveClose
    cases hc : c.closeReceived with
    | some code =>
      simp only [Option.isSome_some,if_true,orElse]
      exact Breach.duplicateClose (by simp [hc])
    | none =>
      simp only [Option.isSome_none,Bool.false_eq_true,if_false,orElse]
      refine ⟨_,.close (c.codes.ofWire wire) hc,?_⟩
      refine .trans ?_ (moves_progressClose _)
      convert moves_notify _ using 1
      split <;> rfl

section Receive

variable {now size : Nat} {inbox rest : Bytes}

theorem receive_of_incomplete (hd : Frame.decode c.maxBody inbox = .incomplete) :
    c.receive now inbox = (c, inbox) := by
  rw [receive]
  split <;> rename_i hx <;> rw [hd] at hx <;> cases hx

theorem receive_of_taken (hd : Frame.decode c.maxBody inbox = .frame f size rest)
    (hh : (c.hear f size).handle now f = (none, c')) :
    c.receive now inbox = c'.receive now rest := by
  rw [receive]
  split <;> rename_i hx <;> rw [hd] at hx <;> cases hx
  simp only [hh]

theorem receive_of_breach {x : Violation} (hd : Frame.decode c.maxBody inbox = .frame f size rest)
    (hh : (c.hear f size).handle now f = (some x, c')) :
    c.receive now inbox = (c'.abort (.protocolViolation x), rest) := by
  rw [receive]
  split <;> rename_i hx <;> rw [hd] at hx <;> cases hx
  simp only [hh]

end Receive

end Connection

end Multiplex
