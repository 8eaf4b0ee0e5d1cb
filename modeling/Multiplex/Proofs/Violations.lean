import Multiplex.Proofs.Credit

/-!
What two ends of this kind can find fault with in each other.
-/

namespace Multiplex

namespace Duplex

open Connection

variable {names : Option (Identity × Identity)} {own peer : Options} {x : Duplex}

theorem Coherent.refused (h : Coherent names own peer x) (side : Side) {err : FrameError}
    (he : (x.station side).endpoint.connected = some (.error (.connectFailed (.frame err)))) :
    ¬(Frame.settings (x.connection side.other).options.settings).Fits
      (x.connection side).maxBody := by
  obtain ⟨w,v,hj⟩ := h.joint
  cases side with
  | near => exact hj.near.refused err he
  | far => exact hj.far.refused err he

/-- All that an end ever finds fault with is a stream beyond its limit, and that is one which its
peer has reset. It can read the settings of its peer unless its own bound on frames overflows. -/
theorem violations_of_reset (s : Setup) (events : List (Side × Event)) (side : Side)
    (near : s.near.Built) (far : s.far.Built) (hn : ((start s).run events).Numbered) :
    let x := (start s).run events
    (∀ v, (x.connection side).error = some (.protocolViolation v) →
      ∃ id t, v = .beyondLimit id ((x.connection side).options.maxStreams id.direction) ∧
        (x.connection side.other).record id = some t ∧ t.remote = false ∧ t.resetCode.isSome) ∧
    ∀ err, (x.station side).endpoint.connected = some (.error (.connectFailed (.frame err))) →
      UInt64.size ≤ (x.connection side).options.maxFrame.toNat + Frame.streamOverhead := by
  intro x
  have h := coherent_run s events hn
  refine ⟨?_,?_⟩
  · intro v hv
    obtain ⟨w,u,ha,-⟩ := h.facing side
    obtain ⟨id,hx,hinit,i,t,hi,hid,hr⟩ := ha.near.blamed v hv
    have hfar := ha.far.sound.toRegistry
    refine ⟨id,t,hx,(record_eq_some_iff hfar).mpr ⟨hid,i,hi⟩,?_,hr⟩
    rw [(hfar.held hi hid).remote,ha.near.role,Role.eq_other_of_ne hinit]
    simp
  · intro err he
    by_contra hlt
    exact h.refused side he ((h.built near far side).bounded.fits_settings
      (h.built near far side.other).bounded.valid (Nat.lt_of_not_le hlt))

/-- An end that takes one unidirectional stream at a time. -/
def Setup.single : Setup := { Setup.plain with far := Options.withMaxStreams {} 100 1 }

/-- One stream is ended, and the next, which was waiting for its place, is reset at once. -/
def takeover : List (Side × Event) :=
  greeting ++ [(.near, .create .unidirectional), (.near, .call false (.write 0 [1])),
    (.near, .push 64), (.near, .push 64), (.far, .pull 0 128 0), (.near, .create .unidirectional),
    (.near, .call false (.write 1 [2])), (.near, .call false (.finish 0)), (.near, .look false 0),
    (.near, .reset 1 7), (.near, .push 128), (.near, .push 128), (.far, .pull 0 128 0)]

theorem error_takeover :
    (((start .single).run takeover).connection .far).error =
      some (.protocolViolation (.beyondLimit ⟨6⟩ 1)) := by
  decide +kernel

/-- The RESET of the second comes before the end of the first, and the other end gives up. -/
theorem reset_exceeds_limit :
    Setup.single.near.Built ∧ Setup.single.far.Built ∧
      (((start .single).run takeover).connection .far).error =
        some (.protocolViolation (.beyondLimit ⟨6⟩ 1)) :=
  ⟨.default,.maxStreams .default 100 1,error_takeover⟩

theorem violations_of_reset_takeover :
    Setup.single.near.Built ∧ Setup.single.far.Built ∧ ((start .single).run takeover).Numbered ∧
      ∃ t, (((start .single).run takeover).connection .near).record ⟨6⟩ = some t ∧
        t.remote = false ∧ t.resetCode.isSome := by
  have hnear : Setup.single.near.Built := .default
  have hfar : Setup.single.far.Built := .maxStreams .default 100 1
  have hn : ((start .single).run takeover).Numbered := by decide +kernel
  obtain ⟨id,t,hx,ht,hr⟩ :=
    (violations_of_reset .single takeover .far hnear hfar hn).1 _ error_takeover
  obtain ⟨rfl,-⟩ := Violation.beyondLimit.inj hx
  exact ⟨hnear,hfar,hn,t,ht,hr⟩

end Duplex

end Multiplex
