import Multiplex.Proofs.Transit

/-!
What is read at one end of a stream is what was sent at the other, in order and from the start, and
all of it once the end of the stream was seen.
-/

namespace Multiplex

namespace Connection

variable {c d : Connection} {id : StreamId} {s : Stream} {w v : List Frame}

/-- The data of the frames that were queued on a stream, in order. -/
def bytesSent (c : Connection) (id : StreamId) : Bytes :=
  (c.record id).elim [] fun s => Ledger.bytes s.ledger.sent

/-- The data of the frames that were taken in on a stream, in order. -/
def bytesReceived (c : Connection) (id : StreamId) : Bytes :=
  (c.record id).elim [] fun s => Ledger.bytes s.ledger.received

/-- All that was read from a stream. -/
def bytesRead (c : Connection) (id : StreamId) : Bytes :=
  (c.record id).elim [] fun s => Ledger.bytes s.ledger.taken

/-- Whether the end of a stream was queued. -/
def endSent (c : Connection) (id : StreamId) : Bool := (c.record id).any (·.finQueued)

/-- Whether a read has seen the end of a stream. -/
def endSeen (c : Connection) (id : StreamId) : Bool := (c.record id).any (·.ledger.ended)

theorem outflow_seat (c : Connection) (id : StreamId) (window : Nat) (calm : Bool) :
    ((c.seat id).outflow window calm).sent.flatten = c.bytesSent id ∧
      ((c.seat id).outflow window calm).ended = c.endSent id := by
  unfold seat bytesSent endSent
  cases c.record id with
  | some s => exact ⟨rfl,rfl⟩
  | none => dsimp only; split <;> exact ⟨rfl,rfl⟩

theorem inflow_seat (c : Connection) (id : StreamId) (window : Nat) :
    ((c.seat id).inflow window).received.flatten = c.bytesReceived id ∧
      ((c.seat id).inflow window).ended = (c.record id).any (·.finReceived) := by
  unfold seat bytesReceived
  cases c.record id with
  | some s => exact ⟨rfl,rfl⟩
  | none => dsimp only; split <;> exact ⟨rfl,rfl⟩

theorem Registry.record_sound (h : c.Registry) (hs : c.record id = some s) :
    s.Sound c.options.window := by
  obtain ⟨hid,i,hi⟩ := (record_eq_some_iff h).mp hs
  exact (h.held hi hid).sound

theorem Registry.bytesRead_prefix (h : c.Registry) (id : StreamId) :
    c.bytesRead id <+: c.bytesReceived id := by
  unfold bytesRead bytesReceived
  cases hs : c.record id with
  | none => exact List.prefix_rfl
  | some s => exact (h.record_sound hs).read

theorem Registry.bytesRead_of_endSeen (h : c.Registry) (he : c.endSeen id = true) :
    c.bytesRead id = c.bytesReceived id ∧ (c.record id).any (·.finReceived) = true := by
  unfold endSeen at he
  unfold bytesRead bytesReceived
  cases hs : c.record id with
  | none => simp [hs] at he
  | some s =>
    obtain ⟨hf,hb⟩ := (h.record_sound hs).ended (by simpa [hs] using he)
    exact ⟨hb,by simpa using hf⟩

theorem Faces.bytesReceived_prefix (h : Faces c w d v) (id : StreamId) :
    d.bytesReceived id <+: c.bytesSent id := by
  have ho := (h.way id).flow.order
  obtain ⟨rest,hr⟩ := ho
  rw [← (inflow_seat d id d.options.window.toNat).1,
    ← (outflow_seat c id d.options.window.toNat (decide (c.phase = .active))).1,← hr]
  exact ⟨rest.flatten,by simp⟩

theorem Faces.bytesReceived_of_fin (h : Faces c w d v)
    (hf : (d.record id).any (·.finReceived) = true) :
    d.bytesReceived id = c.bytesSent id ∧ c.endSent id = true := by
  have ho := outflow_seat c id d.options.window.toNat (decide (c.phase = .active))
  have hi := inflow_seat d id d.options.window.toNat
  obtain ⟨hended,hall⟩ := (h.way id).flow.closed (hi.2.trans hf)
  exact ⟨by rw [← hi.1,← ho.1,hall],ho.2.symm.trans hended⟩

/-- What a read is given goes on where the last one stopped, and the end of a stream is only seen
when nothing is left. -/
theorem lookData_spec {c' : Connection} (h : c.Registry) {i : Nat} (hi : c.streams[i]? = some s)
    (hid : s.id = some id) {limit : Option Nat} {chunk : Option Bytes}
    (hl : c.lookData i limit = (some (.ok chunk), c')) :
    c.bytesRead id ++ chunk.getD [] <+: c.bytesReceived id ∧
      (chunk = none → c.bytesRead id = c.bytesReceived id ∧
        (c.record id).any (·.finReceived) = true) := by
  have hs := (h.held hi hid).sound
  have hrec := (record_eq_some_iff h).mpr ⟨hid,i,hi⟩
  simp only [lookData,hi] at hl
  split at hl
  · cases hl
  · rename_i hr
    have hkept := hs.kept (Stream.readError_eq_none_iff.mp hr).2.2
    simp only [bytesRead,bytesReceived,hrec,Option.elim_some,← hkept]
    split at hl
    · rename_i bs s₁ ht
      obtain ⟨rest,-,hin⟩ := Stream.takeChunk_spec ht
      cases hl
      exact ⟨⟨rest.flatten,by simp [hin]⟩,by rintro ⟨⟩⟩
    · rename_i ht
      have hin := Stream.takeChunk_eq_none_iff.mp ht
      split at hl
      · rename_i hf
        cases hl
        exact ⟨by simp [hin],fun _ => ⟨by simp [hin],by simpa using hf⟩⟩
      · cases hl

end Connection

namespace Duplex

open Connection

/-- Whatever two ends do, what was read from a stream is the start of what was sent on it, and all
of it if its end was seen; and so it is with what the next read is given. -/
theorem delivers_in_order (s : Setup) (events : List (Side × Event)) (side : Side) (id : StreamId)
    (hn : ((start s).run events).Numbered) :
    let writer := ((start s).run events).connection side
    let reader := ((start s).run events).connection side.other
    reader.bytesRead id <+: writer.bytesSent id ∧
      (reader.endSeen id = true →
        reader.bytesRead id = writer.bytesSent id ∧ writer.endSent id = true) ∧
      ∀ (i : Nat) (t : Stream) (limit : Option Nat) (chunk : Option Bytes) (c : Connection),
        reader.streams[i]? = some t → t.id = some id →
        reader.lookData i limit = (some (.ok chunk), c) →
        reader.bytesRead id ++ chunk.getD [] <+: writer.bytesSent id ∧
          (chunk = none → reader.bytesRead id = writer.bytesSent id ∧
            writer.endSent id = true) := by
  intro writer reader
  obtain ⟨w,v,ha,-⟩ := (coherent_run s events hn).facing side
  have hr : reader.Registry := ha.far.sound.toRegistry
  have hin : reader.bytesReceived id <+: writer.bytesSent id := ha.near.bytesReceived_prefix id
  refine ⟨(hr.bytesRead_prefix id).trans hin,?_,?_⟩
  · intro he
    obtain ⟨hb,hf⟩ := hr.bytesRead_of_endSeen he
    obtain ⟨hb',hq⟩ := ha.near.bytesReceived_of_fin hf
    exact ⟨hb.trans hb',hq⟩
  · intro i t limit chunk c hi hid hl
    obtain ⟨hb,hend⟩ := lookData_spec hr hi hid hl
    refine ⟨hb.trans hin,fun hc => ?_⟩
    obtain ⟨hb,hf⟩ := hend hc
    obtain ⟨hb',hq⟩ := ha.near.bytesReceived_of_fin hf
    exact ⟨hb.trans hb',hq⟩

/-- Three bytes and the end of the stream are sent, and two bytes are read. -/
def handover : List (Side × Event) :=
  greeting ++ [(.near, .create .unidirectional), (.near, .call false (.writeFinish 0 [1, 2, 3])),
    (.near, .push 64), (.near, .push 64), (.far, .pull 0 128 0), (.far, .call false .accept),
    (.far, .call false (.read 0 (.chunk 2)))]

theorem delivers_in_order_handover : ((start .plain).run handover).Numbered ∧
      (((start .plain).run handover).connection .far).bytesRead ⟨2⟩ = [1, 2] ∧
      [1, 2] <+: (((start .plain).run handover).connection .near).bytesSent ⟨2⟩ := by
  have hn : ((start .plain).run handover).Numbered := by decide +kernel
  have hb : (((start .plain).run handover).connection .far).bytesRead ⟨2⟩ = [1, 2] := by
    decide +kernel
  have hp := (delivers_in_order .plain handover .near ⟨2⟩ hn).1
  exact ⟨hn,hb,hb ▸ hp⟩

end Duplex

end Multiplex
