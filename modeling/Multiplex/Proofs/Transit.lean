import Multiplex.Proofs.Run

/-!
What is on the way between two ends, read off their state.
-/

namespace Multiplex

def Side.other : Side → Side
  | .near => .far
  | .far => .near

namespace Frame

theorem drain_flatMap {maxBody : Nat} {fs : List Frame} (hf : ∀ f ∈ fs, f.Fits maxBody)
    (hh : ∀ f ∈ fs, f.heard = f) :
    (drain maxBody (fs.flatMap encode)).frames.map (·.1) = fs := by
  induction fs with
  | nil =>
    rw [List.flatMap_nil,drain]
    rfl
  | cons f fs ih =>
    have hd := decode_encode_append (hf f List.mem_cons_self) (fs.flatMap encode)
    rw [hh f List.mem_cons_self] at hd
    rw [List.flatMap_cons,drain]
    split <;> rename_i hx <;> rw [hd] at hx <;> cases hx
    have := ih (fun g hg => hf g (List.mem_cons_of_mem f hg))
      fun g hg => hh g (List.mem_cons_of_mem f hg)
    simpa using this

end Frame

namespace Endpoint

def inbox (e : Endpoint) : Bytes :=
  match e.stage with
  | .running r => r.inbox
  | .unopened | .opening .. | .gone => []

def unwritten (e : Endpoint) : Bytes :=
  match e.stage with
  | .running r => r.batch.elim [] (·.bytes)
  | .unopened | .opening .. | .gone => []

variable {names : Option (Identity × Identity)} {x y : Endpoint} {out inn : Bytes}
  {w v : List Frame}

theorem Joint.bytes (h : Joint names x out w y inn v)
    (hx : x.connection.phase = .active ∨ x.connection.phase = .closing)
    (hy : y.connection.phase = .active ∨ y.connection.phase = .closing) :
    y.inbox ++ (out ++ x.unwritten) = w.flatMap Frame.encode := by
  obtain ⟨r,hr⟩ := h.near.running hx
  obtain ⟨q,hq⟩ := h.far.running hy
  have hmute : ¬x.Mute := not_mute_of_running hr (by rcases hx with hx | hx <;> simp [hx])
  have hdeaf : ¬y.Deaf := by
    rintro (hd | hd)
    · rcases hy with hy | hy <;> rw [hy] at hd <;> cases hd
    · cases hq.symm.trans hd
  obtain ⟨rest,he,hrest⟩ := h.forth hdeaf
  rw [hrest hmute] at he
  simpa only [inbox,unwritten,hr,hq,Stage.held,Stage.unsent,Stage.due,List.nil_append] using he

theorem Joint.fits (h : Joint names x out w y inn v)
    (hy : y.connection.phase = .active ∨ y.connection.phase = .closing) :
    ∀ f ∈ w, f.Fits y.connection.maxBody ∧ f.heard = f := by
  intro f hf
  obtain ⟨q,hq⟩ := h.far.running hy
  have hlawful := h.accord.near.lawful f (List.mem_append_left _ hf)
  exact ⟨Connection.fits_of_lawful (h.far.fits q hq) hlawful,hlawful.heard⟩

end Endpoint

namespace Duplex

open Connection

def pipe (x : Duplex) : Side → Pipe
  | .near => x.forth
  | .far => x.back

/-- The frames on the way from an end to the other. -/
def inFlight (x : Duplex) (side : Side) : List Frame :=
  let bytes := (x.station side.other).endpoint.inbox ++
    ((x.pipe side).buffer ++ (x.station side).endpoint.unwritten)
  (Frame.drain (x.connection side.other).maxBody bytes).frames.map (·.1)

/-- The frames on the way from an end to the other, and those that wait there to leave. -/
def outgoing (x : Duplex) (side : Side) : List Frame :=
  (x.connection side).outline (x.inFlight side)

def Open (x : Duplex) (side : Side) : Prop :=
  (x.connection side).phase = .active ∨ (x.connection side).phase = .closing

variable {names : Option (Identity × Identity)} {own peer : Options} {x : Duplex}

theorem Coherent.accord (h : Coherent names own peer x) :
    ∃ w v, Accord (x.connection .near) w (x.connection .far) v ∧
      (x.Open .near → x.Open .far → w = x.inFlight .near ∧ v = x.inFlight .far) := by
  obtain ⟨w,v,hj⟩ := h.joint
  refine ⟨w,v,hj.accord,fun hn hf => ⟨?_,?_⟩⟩
  · have hfit := hj.fits hf
    have := Frame.drain_flatMap (fun f hx => (hfit f hx).1) fun f hx => (hfit f hx).2
    rw [← hj.bytes hn hf] at this
    exact this.symm
  · have hfit := hj.symm.fits hn
    have := Frame.drain_flatMap (fun f hx => (hfit f hx).1) fun f hx => (hfit f hx).2
    rw [← hj.symm.bytes hf hn] at this
    exact this.symm

theorem Coherent.facing (h : Coherent names own peer x) (side : Side) :
    ∃ w v, Accord (x.connection side) w (x.connection side.other) v ∧
      (x.Open side → x.Open side.other → w = x.inFlight side ∧ v = x.inFlight side.other) := by
  obtain ⟨w,v,ha,hw⟩ := h.accord
  cases side with
  | near => exact ⟨w,v,ha,hw⟩
  | far => exact ⟨v,w,ha.symm,fun hf hn => (hw hn hf).symm⟩

instance (x : Duplex) : Decidable x.Numbered :=
  inferInstanceAs (Decidable (x.near.connection.Numbered ∧ x.far.connection.Numbered))

def Setup.plain : Setup := { nearCodes := .direct, farCodes := .direct }

/-- Events that take both ends through connecting, with nothing in the pipes before and after. -/
def greeting : List (Side × Event) :=
  [(.near, .connect 0), (.far, .connect 0), (.near, .pull 0 0 64), (.far, .pull 0 0 64),
    (.near, .pull 0 64 0), (.far, .pull 0 64 0)]

end Duplex

end Multiplex
