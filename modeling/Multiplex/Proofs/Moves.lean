import Multiplex.Proofs.Composition
import Multiplex.Connection.Sending
import Mathlib.Logic.Relation

/-!
Whatever a connection does of its own accord is a sequence of a few kinds of change. Nothing is
assumed of its state.
-/

namespace Multiplex

namespace Stream

def charge (s : Stream) (data : Bytes) : Stream :=
  { s with credit := ⟨s.credit.available - UInt64.ofNat data.length⟩ }.noteSent data

def finish (s : Stream) : Stream := { s with finQueued := true }.noteSent []

@[simp]
theorem markReset_id (s : Stream) (code : UInt64) : (s.markReset code).id = s.id := rfl

@[simp]
theorem markReset_released (s : Stream) (code : UInt64) :
    (s.markReset code).released = s.released := rfl

end Stream

namespace Connection

variable {c c' : Connection} {i : Nat}

/-- Takes a stream out of use if both ends are done with it, and does nothing else. -/
def release (c : Connection) (i : Nat) : Connection :=
  match c.streams[i]? with
  | none => c
  | some s =>
    match s.id with
    | none => c
    | some id =>
      if s.released || !(s.localDone && s.remoteDone) then c
      else
        { c.modify i (fun s => { s with released := true }) with
          table :=
            c.table.filter fun entry => entry.1 ≠ id }.setActive s.remote id.direction (· - 1)

theorem modify_eq {s : Stream} (hi : c.streams[i]? = some s) (f : Stream → Stream) :
    c.modify i f = { c with streams := c.streams.set i (f s) } := by
  unfold modify
  rw [List.modify_eq_set_getElem?,hi]
  rfl

section Frame

variable (c i)

theorem enqueueControl_eq (f : Frame) : c.enqueueControl f = { c with
      controlQueue := (c.enqueueControl f).controlQueue
      journal := { c.journal with control := (c.enqueueControl f).journal.control } } := by
  unfold enqueueControl
  split <;> rfl

theorem enqueueControl?_eq (f : Option Frame) : c.enqueueControl? f = { c with
      controlQueue := (c.enqueueControl? f).controlQueue
      journal := { c.journal with control := (c.enqueueControl? f).journal.control } } := by
  cases f with
  | none => rfl
  | some f => exact c.enqueueControl_eq f

theorem enqueueClose_eq (code : UInt64) : c.enqueueClose code = { c with
      dataQueue := (c.enqueueClose code).dataQueue
      closeSent := (c.enqueueClose code).closeSent
      journal := { c.journal with data := (c.enqueueClose code).journal.data } } := by
  unfold enqueueClose
  split <;> rfl

theorem setActive_eq (remote : Bool) (d : Direction) (f : Nat → Nat) :
    c.setActive remote d f = { c with
      activeLocal := (c.setActive remote d f).activeLocal
      activeRemote := (c.setActive remote d f).activeRemote } := by
  unfold setActive
  split <;> rfl

theorem setActive_get (remote : Bool) (d d' : Direction) :
    (c.setActive remote d (· - 1)).activeRemote.get d' =
      c.activeRemote.get d' - if remote = true ∧ d' = d then 1 else 0 := by
  unfold setActive
  cases remote with
  | false => simp
  | true =>
    by_cases hd : d' = d
    · simp [PerDirection.get_set,hd]
    · simp [PerDirection.get_set,hd]

theorem release_cases :
    c.release i = c ∨ ∃ s id, c.streams[i]? = some s ∧ s.id = some id ∧ s.released = false ∧
      s.localDone = true ∧ s.remoteDone = true ∧
      c.release i = ({ c with
        streams := c.streams.set i { s with released := true }
        table := c.table.filter fun entry => entry.1 ≠ id } : Connection).setActive s.remote
          id.direction (· - 1) := by
  unfold release
  cases hi : c.streams[i]? with
  | none => exact .inl rfl
  | some s =>
    cases hid : s.id with
    | none =>
      simp only [hid]
      exact .inl trivial
    | some id =>
      simp only [hid]
      split
      · exact .inl rfl
      · rename_i hlive
        simp only [Bool.or_eq_true,Bool.not_eq_true',not_or,Bool.not_eq_true,
          Bool.not_eq_false,Bool.and_eq_true] at hlive
        rw [modify_eq hi]
        exact .inr ⟨s,id,rfl,hid,hlive.1,hlive.2.1,hlive.2.2,rfl⟩

theorem release_eq : c.release i = { c with
      streams := (c.release i).streams
      table := (c.release i).table
      activeLocal := (c.release i).activeLocal
      activeRemote := (c.release i).activeRemote } := by
  rcases c.release_cases i with h | ⟨_,_,-,-,-,-,-,h⟩
  · rw [h]
  · rw [h,setActive_eq]

theorem foldl_modify_eq {α : Type} (l : List α) (place : α → Nat) (f : Stream → Stream) :
    l.foldl (fun c a => c.modify (place a) f) c =
      { c with streams := l.foldl (fun ss a => ss.modify (place a) f) c.streams } := by
  induction l generalizing c with
  | nil => rfl
  | cons a l ih => rw [List.foldl_cons,ih]; rfl

theorem failStreams_eq (e : Failure) : c.failStreams e = { c with
      streams := (c.failStreams e).streams
      table := []
      acceptQueue := []
      activeLocal := .both 0
      activeRemote := .both 0
      changes := (c.failStreams e).changes } := by
  simp only [failStreams,foldl_modify_eq]
  rfl

theorem abort_eq (e : Failure) (h : c.phase ≠ .closed) : c.abort e = { c with
      phase := .closed
      error := some e
      streams := (c.abort e).streams
      table := []
      acceptQueue := []
      activeLocal := .both 0
      activeRemote := .both 0
      controlQueue := []
      dataQueue := []
      changes := (c.abort e).changes } := by
  simp only [abort,if_neg h]
  rw [failStreams_eq]
  simp only [foldl_modify_eq]

end Frame

/-- One change of a connection, on its own account. Starting a stream is apart. -/
inductive Move (c : Connection) : Connection → Prop
  /-- What no rule of the protocol depends on. -/
  | note (metrics : Metrics) (changes : Nat) (acceptQueue : List Nat)
      (closedLocally : Bool) (accepted : metrics.streamsAccepted = c.metrics.streamsAccepted)
      (pending : acceptQueue.Sublist c.acceptQueue) :
      Move c { c with metrics, changes, acceptQueue, closedLocally }
  | add (d : Direction) (active : c.phase = .active) :
      Move c { c with streams := c.streams ++ [Stream.fresh d false c.options c.peer] }
  | tend {i : Nat} {s s' : Stream} {update : Option Frame}
      (hi : c.streams[i]? = some s) (h : s.Tends c.options.window s' update) :
      Move c ({ c with streams := c.streams.set i s' }.enqueueControl? update)
  | send {i : Nat} {s : Stream} {id : StreamId} {data : Bytes}
      (hi : c.streams[i]? = some s) (hid : s.id = some id) (hw : s.writeError = none)
      (hp : c.phase ≠ .closed) (credit : data.length ≤ s.credit.available.toNat)
      (size : data.length ≤ c.peer.maxFrame.toNat) :
      Move c ({ c with streams := c.streams.set i (s.charge data) }.append
        ⟨.stream id false data, some i⟩)
  /-- Credit that is taken on a closed connection is lost. -/
  | spend {i : Nat} {s : Stream} {id : StreamId} (credit : SendCredit)
      (hi : c.streams[i]? = some s) (hid : s.id = some id) (hw : s.writeError = none)
      (hp : c.phase = .closed) :
      Move c { c with streams := c.streams.set i { s with credit } }
  | finish {i : Nat} {s : Stream} {id : StreamId} (hi : c.streams[i]? = some s)
      (hid : s.id = some id) (hw : s.writeError = none) (hp : c.phase ≠ .closed) :
      Move c (({ c with streams := c.streams.set i s.finish }.append
        ⟨.stream id true [], some i⟩).release i)
  | reset {i : Nat} {s : Stream} {id : StreamId} (code wire : UInt64)
      (hi : c.streams[i]? = some s) (hid : s.id = some id) (live : s.released = false) :
      Move c ({ c.enqueueControl (.reset id wire) with
        streams := c.streams.set i (s.markReset code)
        dataQueue := c.dataQueue.filter fun q => q.owner ≠ some i }.release i)
  /-- A stream that is not in use remembers a reset. -/
  | mark {i : Nat} {s : Stream} (code : UInt64) (hi : c.streams[i]? = some s)
      (h : s.id = none ∨ (s.released = true ∧ c.phase ≠ .active) ∨ c.phase = .closed) :
      Move c { c with streams := c.streams.set i (s.markReset code) }
  | say {f : Frame} (h : (∃ v, f = .ping v) ∨ ∃ v, f = .pong v) :
      Move c (c.enqueueControl f)
  | close (code : UInt64) (h : c.closeSent = false) : Move c (c.enqueueClose code)
  | wane (h : c.phase = .active ∨ c.phase = .closing) :
      Move c { c with phase := .closing }
  | shut (hp : c.phase = .closing) (h : c.table = []) (said : c.closeSent = true)
      (answered : c.closeReceived.isSome) : Move c { c with shutdownWrites := true }
  | complete (hp : c.phase = .closing)
      (h : c.table = [] ∨ c.shutdownWrites = true) (hw : c.writesShut = true)
      (hr : c.readEnded = true) : Move c { c with phase := .closed }
  | lose (e : Failure) (h : c.closeReceived.isSome) (hr : c.readEnded = true) :
      Move c (c.failStreams e)
  /-- The connection is given up, by no fault of the peer. It is cancelled only while connecting. -/
  | abort (e : Failure) (h : c.phase ≠ .closed)
      (blameless : ∀ v, e ≠ .protocolViolation v)
      (early : e = .cancelled → c.phase = .connecting) : Move c (c.abort e)

abbrev Moves : Connection → Connection → Prop := Relation.ReflTransGen Move

theorem Move.moves (h : Move c c') : Moves c c' := .single h

section Primitives

variable {s : Stream}

theorem modify_of_none (hi : c.streams[i]? = none) (f : Stream → Stream) : c.modify i f = c := by
  unfold modify
  rw [List.modify_eq_set_getElem?,hi]
  rfl

theorem getElem?_modify_self (hi : c.streams[i]? = some s) (f : Stream → Stream) :
    (c.modify i f).streams[i]? = some (f s) := by
  simp [modify,hi]

theorem modify_notify (c : Connection) (i : Nat) (f : Stream → Stream) :
    (c.modify i fun s => (f s).notify) = (c.modify i f).notifyStream i := by
  simp only [notifyStream,modify,List.modify_modify_eq]
  rfl

theorem moves_notify (c : Connection) : Moves c c.notify :=
  Move.moves (.note _ _ _ _ rfl (.refl _))

theorem moves_modify_quiet (c : Connection) (i : Nat) (unwritten changes : Stream → Nat)
    (disposed : Stream → Option UInt64) :
    Moves c (c.modify i fun s =>
      { s with unwritten := unwritten s, changes := changes s, disposed := disposed s }) := by
  cases hi : c.streams[i]? with
  | none =>
    rw [modify_of_none hi]
  | some s =>
    rw [modify_eq hi]
    exact Move.moves (.tend hi (Stream.tends_quiet _ s _ _ _))

theorem moves_notifyStream (c : Connection) (i : Nat) : Moves c (c.notifyStream i) :=
  c.moves_modify_quiet i (·.unwritten) (·.changes + 1) (·.disposed)

end Primitives

theorem moves_finishIfClosed (h : c.table = [] ∨ c.shutdownWrites = true) :
    Moves c c.finishIfClosed := by
  unfold finishIfClosed
  split
  · rename_i hp
    simp only [Bool.and_eq_true,decide_eq_true_eq] at hp
    exact (Move.moves (.complete hp.1.1 h hp.1.2 hp.2)).trans (moves_notify _)
  · exact .refl

theorem moves_closing : ClosingLaw Moves where
  refl _ := .refl
  trans := .trans
  answer _ code h := Move.moves (.close code h)
  shut _ hp ht said answered := Move.moves (.shut hp ht said answered)
  finish _ h := moves_finishIfClosed (.inl h)

theorem moves_progressClose (c : Connection) : Moves c c.progressClose :=
  moves_closing.progressClose c

/-- Settling after the release of a stream. -/
theorem moves_maybeRelease (c : Connection) (i : Nat) : Moves (c.release i) (c.maybeRelease i) := by
  unfold release maybeRelease
  cases hi : c.streams[i]? with
  | none => exact .refl
  | some s =>
    cases hid : s.id with
    | none =>
      simp only [hid]
      exact .refl
    | some id =>
      simp only [hid]
      split
      · exact .refl
      · exact (moves_notify _).trans (moves_progressClose _)

/-- How many frames of a stream the writer has not taken yet. -/
def waiting (c : Connection) (i : Nat) : Nat :=
  c.dataQueue.length - (c.dataQueue.filter fun q => q.owner ≠ some i).length

/-- A stream whose frames were taken back, and whose calls were told. -/
def cleared (c : Connection) (i : Nat) (s : Stream) : Stream :=
  { s with unwritten := s.unwritten - c.waiting i, changes := s.changes + 1 }

def resetMetrics (c : Connection) (i : Nat) (s : Stream) : Metrics :=
  { c.metrics with
    streamsReset := c.metrics.streamsReset + 1
    shortfall := c.metrics.shortfall + (c.waiting i - s.unwritten) }

theorem purge_notify_eq {s : Stream} (hi : c.streams[i]? = some s) :
    (c.purge i).countReset.notifyStream i =
      { c with
        streams := c.streams.set i (c.cleared i s)
        dataQueue := c.dataQueue.filter fun q => q.owner ≠ some i
        metrics := c.resetMetrics i s } := by
  have hlt := (List.getElem?_eq_some_iff.mp hi).1
  have hm : ∀ f g : Stream → Stream, (c.streams.modify i f).modify i g =
      c.streams.set i (g (f s)) := by
    intro f g
    rw [List.modify_eq_set_getElem?,List.modify_eq_set_getElem?,hi]
    simp [hlt]
  simp only [purge,noteOff,unwritten,countReset,notifyStream,modify,hi,hm]
  rfl

/-- A reset from this end. A stream that is out of use is not reset while the connection is
active. -/
theorem moves_sendReset (code : UInt64)
    (h : c.phase ≠ .active ∨ ∀ s, c.streams[i]? = some s → s.released = false) :
    Moves c (c.sendReset i code) := by
  unfold sendReset
  cases hi : c.streams[i]? with
  | none =>
    simp only [modify_of_none hi,hi]
    exact .refl
  | some s =>
    have hlt := (List.getElem?_eq_some_iff.mp hi).1
    have hself : (c.streams.set i (s.markReset code))[i]? = some (s.markReset code) := by
      simp [hlt]
    simp only [modify_eq hi,hself]
    cases hid : s.id with
    | none =>
      simp only [Stream.markReset_id,hid]
      exact Move.moves (.mark code hi (.inl hid))
    | some id =>
      simp only [Stream.markReset_id,hid]
      by_cases hr : (s.markReset code).released = true
      · rw [if_pos hr]
        have hp : c.phase ≠ .active := h.resolve_right fun hl => by simp [hl s hi] at hr
        exact Move.moves (.mark code hi (.inr (.inl ⟨hr,hp⟩)))
      · rw [if_neg hr]
        refine .trans ?_ (moves_maybeRelease _ i)
        -- what concerns the own calls only comes first
        have h₀ : Move c { c with streams := c.streams.set i (c.cleared i s) } :=
          .tend hi (Stream.tends_quiet _ s _ _ _)
        have h₁ : Moves c { c with
            streams := c.streams.set i (c.cleared i s)
            metrics := c.resetMetrics i s } :=
          h₀.moves.tail (.note _ _ _ _ rfl (.refl _))
        have hself' : (c.streams.set i (c.cleared i s))[i]? = some (c.cleared i s) := by simp [hlt]
        have hlive : (c.cleared i s).released = false := by simpa [cleared] using hr
        refine (h₁.tail (.reset (s := c.cleared i s) code (c.codes.toWire code) hself' hid
          hlive)).trans ?_
        rw [purge_notify_eq (by unfold enqueueControl; split <;> exact hself)]
        unfold enqueueControl
        split <;> simp <;> exact .refl

theorem Move.active (h : Move c c') (ha : c'.phase = .active) : c.phase = .active := by
  cases h with
  | tend => rwa [enqueueControl?_eq] at ha
  | finish => rwa [release_eq] at ha
  | reset => rwa [release_eq,enqueueControl_eq] at ha
  | say => rwa [enqueueControl_eq] at ha
  | close => rwa [enqueueClose_eq] at ha
  | note | add | send | spend | mark | shut => exact ha
  | wane | complete => cases ha
  | lose => rwa [failStreams_eq] at ha
  | abort e h =>
    rw [abort_eq _ _ h] at ha
    cases ha

theorem Moves.active (h : Moves c c') (ha : c'.phase = .active) : c.phase = .active := by
  induction h with
  | refl => exact ha
  | tail _ h ih => exact ih (h.active ha)

theorem moves_refusePending (h : c.phase ≠ .active) : Moves c c.refusePending := by
  unfold refusePending
  have hfold (l : List Nat) (c : Connection) (h : c.phase ≠ .active) (code : UInt64) :
      Moves c (l.foldl (fun c i => c.sendReset i code) c) := by
    induction l generalizing c with
    | nil => exact .refl
    | cons i l ih =>
      have hm := moves_sendReset (i := i) code (.inl h)
      exact hm.trans (ih _ fun ha => h (hm.active ha))
  have hn : Move c { c with acceptQueue := [] } := .note _ _ _ _ rfl (List.nil_sublist _)
  exact .head hn (hfold _ { c with acceptQueue := [] } h _)

theorem moves_beginClose (code : UInt64) (h : c.phase ≠ .connecting) :
    Moves c (c.beginClose code) := by
  refine moves_closing.beginClose (fun x => Move.moves (.note _ _ _ _ rfl (.refl _))) code
    fun hlive x hx => ?_
  have hwane : Move x { x with phase := .closing } := by
    refine .wane ?_
    rw [hx]
    cases hp : c.phase <;> simp_all
  exact hwane.moves.trans ((moves_refusePending (by simp)).trans (moves_notify _))

theorem moves_abort (c : Connection) {e : Failure} (he : ∀ v, e ≠ .protocolViolation v)
    (early : e = .cancelled → c.phase = .connecting ∨ c.phase = .closed) : Moves c (c.abort e) := by
  by_cases h : c.phase = .closed
  · rw [abort,if_pos h]
  · exact Move.moves (.abort e h he fun hx => (early hx).resolve_right h)

/-- The end of the input is noted after a CLOSE of the peer only. -/
theorem moves_endOfInput (c : Connection) : Moves c c.endOfInput ∨
      c.closeReceived.isSome ∧ Moves { c with readEnded := true } c.endOfInput := by
  unfold endOfInput
  split
  · exact .inl .refl
  · split
    · rename_i code hc
      have hr : c.closeReceived.isSome := by simp [hc]
      exact .inr ⟨hr,.head (.lose _ hr rfl) (moves_progressClose _)⟩
    · exact .inl (moves_abort c (by simp) (by simp))

theorem moves_writesShutDown (h : c.readyToShut = true) :
    Moves { c with writesShut := true } c.writesShutDown := by
  have hs : c.shutdownWrites = true := by
    simp only [readyToShut,Bool.and_eq_true] at h
    exact h.1.1
  exact moves_finishIfClosed (.inr hs)

theorem moves_frameWritten (c : Connection) (i : Nat) : Moves c (c.frameWritten i) := by
  have hnote : Move c (c.noteOff i 1) := .note _ _ _ _ rfl (.refl _)
  refine .head hnote ?_
  have h := (c.noteOff i 1).moves_modify_quiet i (·.unwritten - 1)
    (fun s => if s.unwritten - 1 = 0 then s.changes + 1 else s.changes) (·.disposed)
  convert h using 1
  unfold frameWritten
  congr 1
  funext s
  by_cases hu : s.unwritten - 1 = 0 <;> simp [hu,Stream.notify]

theorem moves_batchWritten (c : Connection) (b : Batch) : Moves c (c.batchWritten b) := by
  unfold batchWritten
  have hfold (l : List Nat) (c : Connection) : Moves c (l.foldl frameWritten c) := by
    induction l generalizing c with
    | nil => exact .refl
    | cons i l ih => exact (moves_frameWritten c i).trans (ih _)
  refine .head (.note _ _ _ _ ?_ ?_) (hfold _ _)
  · rfl
  · exact .refl _

end Connection

end Multiplex
