import Multiplex.Proofs.Duplex

/-!
What is on the way between two ends, byte by byte: first the preamble of each end, then its frames.
-/

namespace Multiplex

variable {c : Connection} {s : Settings}

namespace Connection

/-- Whoever can read settings can read every frame that its peer may send. -/
theorem fits_of_lawful (hs : (Frame.settings s).Fits c.maxBody) {f : Frame}
    (hf : f.Lawful c.options.maxFrame.toNat) : f.Fits c.maxBody := by
  have hlen : 50 ≤ c.maxBody := by
    have := hs.length_le
    rwa [Frame.body,Settings.length_encode] at this
  have hmax : c.maxBody = c.options.maxFrame.toNat + 8 := by
    have hlt := c.options.maxFrame.toNat_lt
    simp only [maxBody,Options.maxBody,Frame.streamOverhead,UInt64.size] at hlen ⊢
    omega
  cases f with
  | settings => exact hf.elim
  | stream id fin data =>
    obtain ⟨h₁,h₂⟩ := hf
    have hw : Settings.greatestWindow.toNat = 2147483648 := rfl
    refine ⟨?_,?_,by rintro _ ⟨⟩⟩
    · simp only [Frame.body,List.length_append,Bytes.length_ofUInt64]
      omega
    · simp only [Frame.body,List.length_append,Bytes.length_ofUInt64,UInt32.size]
      omega
  | windowUpdate id n | reset id n =>
    refine ⟨?_,?_,by rintro _ ⟨⟩⟩
    · simp only [Frame.body,List.length_append,Bytes.length_ofUInt64]
      omega
    · simp only [Frame.body,List.length_append,Bytes.length_ofUInt64,UInt32.size]
      omega
  | ping n | pong n | close n =>
    refine ⟨?_,?_,by rintro _ ⟨⟩⟩
    · simp only [Frame.body,Bytes.length_ofUInt64]
      omega
    · simp only [Frame.body,Bytes.length_ofUInt64,UInt32.size]
      omega

theorem Accord.receive {c d : Connection} {w v : List Frame} (h : Accord c w d v)
    (hp : c.phase ≠ .connecting) (hs : (Frame.settings s).Fits c.maxBody) (now : Nat)
    {inbox more : Bytes} (he : inbox ++ more = v.flatMap Frame.encode) :
    ∃ v', Accord (c.receive now inbox).1 w d v' ∧ c.Fades (c.receive now inbox).1 ∧
      ((c.receive now inbox).1.phase ≠ .closed →
        (c.receive now inbox).2 ++ more = v'.flatMap Frame.encode ∧
        Frame.decode c.maxBody (c.receive now inbox).2 = .incomplete) := by
  induction hn : inbox.length using Nat.strong_induction_on generalizing inbox c v with
  | _ n ih =>
    cases v with
    | nil =>
      obtain ⟨rfl,-⟩ := List.append_eq_nil_iff.mp he
      rw [Connection.receive]
      exact ⟨[],h,.refl c,fun _ => ⟨he,rfl⟩⟩
    | cons f v =>
      have hlawful := h.far.lawful f List.mem_cons_self
      have hfit := fits_of_lawful hs hlawful
      rw [List.flatMap_cons] at he
      rcases Frame.decode_frames hfit he with hd | ⟨left,hd,hl⟩
      · rw [receive_of_incomplete hd]
        exact ⟨f :: v,h,.refl c,fun _ => ⟨he,hd⟩⟩
      · rw [hlawful.heard] at hd
        have hhandled := handle_handled (c.hear f f.encodedLength) now f
        rcases hr : (c.hear f f.encodedLength).handle now f with ⟨_ | x,c''⟩ <;>
          rw [hr] at hhandled
        · rw [receive_of_taken hd hr]
          obtain ⟨c',ht,hm⟩ := hhandled
          have hf := ht.fades.trans hm.fades
          have hfades : c.Fades c'' := { hf with }
          have h₂ := (h.take ht hp).moves hm
          have hsize := maxBody_congr hfades.options
          have hlt := Frame.decode_frame_length hd
          obtain ⟨v',h₃,hf,hx⟩ := ih left.length (by omega) h₂ (hfades.phase.not_connecting hp)
            (by rw [hsize]; exact hs) hl rfl
          refine ⟨v',h₃,hfades.trans hf,fun hc => ?_⟩
          rw [← hsize]
          exact hx hc
        · rw [receive_of_breach hd hr]
          have hb : Breach x f (c.hear f f.encodedLength) c'' := hhandled
          have hkept :=
            ((kept_hear c f _).trans hb.kept).trans (kept_abort c'' (.protocolViolation x))
          refine ⟨v,h.breach hb,{ hkept with phase := ?_ },
            fun hc => absurd (abort_phase _ _) hc⟩
          rw [abort_phase]
          exact Phase.fades_closed _

end Connection

namespace Stage

def unsent (p : Preamble) : Stage → Bytes
  | .unopened => p.magic ++ (p.size ++ (p.name ++ (p.verdict ++ p.settings)))
  | .opening o _ => o.unsent p
  | .running r => r.batch.elim [] (·.bytes)
  | .gone => []

def due (p : Preamble) : Stage → Bytes
  | .unopened => p.magic ++ (p.size ++ (p.name ++ (p.verdict ++ p.settings)))
  | .opening o _ => o.due p
  | .running _ | .gone => []

def held : Stage → Bytes
  | .opening o _ => o.held
  | .running r => r.inbox
  | .unopened | .gone => []

/-- Whether what the end had to say is lost in part. -/
def Muted : Stage → Prop
  | .opening o _ => o.Muted
  | .gone => True
  | .unopened | .running _ => False

end Stage

namespace Endpoint

variable {p : Preamble} {pipe : Bytes} {wire : List Frame} {o : Opening} {f : Failure}
  {own : Settings}

def Mute (e : Endpoint) : Prop := e.connection.phase = .closed ∨ e.stage.Muted

def Deaf (e : Endpoint) : Prop := e.connection.phase = .closed ∨ e.stage = .gone

/-- What was written by `x`, with the preamble `p` and the frames `wire` that `y` has not taken
over, is in the pipe or with `y`, and what is missing `x` has still to write. -/
def Conveys (x : Endpoint) (p : Preamble) (pipe : Bytes) (y : Endpoint) (wire : List Frame) :
    Prop :=
  ¬y.Deaf → ∃ rest, y.stage.held ++ (pipe ++ rest) = y.stage.due p ++ wire.flatMap Frame.encode ∧
    (¬x.Mute → rest = x.stage.unsent p)

/-- What holds of an end by itself, where the peer announces `peer`. -/
structure Settled (names : Option (Identity × Identity)) (peer : Settings) (e : Endpoint) :
    Prop where
  channel : e.channel = .of names
  suits : ∀ o deadline, e.stage = .opening o deadline → o.Suits names
  established : ∀ r, e.stage = .running r → e.connection.phase ≠ .connecting
  running : e.connection.phase = .active ∨ e.connection.phase = .closing → ∃ r, e.stage = .running r
  fits : ∀ r, e.stage = .running r → (Frame.settings peer).Fits e.connection.maxBody
  partly : ∀ r, e.stage = .running r → e.connection.phase ≠ .closed →
    Frame.decode e.connection.maxBody r.inbox = .incomplete
  refused : ∀ err, e.connected = some (.error (.connectFailed (.frame err))) →
    ¬(Frame.settings peer).Fits e.connection.maxBody

def settings (e : Endpoint) : Settings := e.connection.options.settings

/-- Two ends with what is on the way between them: the bytes `out` and `inn`, in which the frames
`w` and `v` are. -/
structure Joint (names : Option (Identity × Identity)) (x : Endpoint) (out : Bytes) (w : List Frame)
    (y : Endpoint) (inn : Bytes) (v : List Frame) : Prop where
  accord : Connection.Accord x.connection w y.connection v
  near : x.Settled names y.settings
  far : y.Settled (names.map Prod.swap) x.settings
  forth : Conveys x (.of names x.settings) out y w
  back : Conveys y (.of (names.map Prod.swap) y.settings) inn x v

variable {names : Option (Identity × Identity)} {x x' y : Endpoint} {out inn : Bytes}
  {w v : List Frame}

theorem Joint.symm (h : Joint names x out w y inn v) :
    Joint (names.map Prod.swap) y inn v x out w := by
  have hn : (names.map Prod.swap).map Prod.swap = names := by
    cases names <;> rfl
  exact ⟨h.accord.symm,h.far,by rw [hn]; exact h.near,h.back,by rw [hn]; exact h.forth⟩

theorem Joint.become {out' inn' : Bytes} {w' v' : List Frame} (h : Joint names x out w y inn v)
    (ho : x'.connection.options = x.connection.options)
    (ha : Connection.Accord x'.connection w' y.connection v') (hn : x'.Settled names y.settings)
    (hforth : Conveys x' (.of names x.settings) out' y w')
    (hback : Conveys y (.of (names.map Prod.swap) y.settings) inn' x' v') :
    Joint names x' out' w' y inn' v' := by
  have hs : x'.settings = x.settings := by simp only [settings,ho]
  exact ⟨ha,hn,by rw [hs]; exact h.far,by rw [hs]; exact hforth,hback⟩

theorem Settled.fade {peer : Settings} (h : x.Settled names peer) (hf : x.connection.Fades c) :
    Settled names peer { x with connection := c } := by
  have hm := Connection.maxBody_congr hf.options
  refine ⟨h.channel,h.suits,?_,?_,?_,?_,?_⟩
  · exact fun r hr => hf.phase.not_connecting (h.established r hr)
  · exact fun hp => h.running (hf.phase.established hp)
  · intro r hr
    rw [hm]
    exact h.fits r hr
  · intro r hr hp
    rw [hm]
    exact h.partly r hr (hf.phase.not_closed hp)
  · intro err he
    rw [hm]
    exact h.refused err he

/-- The speaker has changed, and has as much to write as before, if it still writes. -/
theorem Conveys.speaker (h : Conveys x p pipe y wire)
    (hx : ¬x'.Mute → ¬x.Mute ∧ x'.stage.unsent p = x.stage.unsent p) :
    Conveys x' p pipe y wire := by
  intro hd
  obtain ⟨rest,he,hr⟩ := h hd
  refine ⟨rest,he,fun hm => ?_⟩
  obtain ⟨h₁,h₂⟩ := hx hm
  rw [h₂]
  exact hr h₁

/-- The listener has changed, but not what it has read, if it still reads. -/
theorem Conveys.listener (h : Conveys y p pipe x wire)
    (hx : ¬x'.Deaf → ¬x.Deaf ∧ x'.stage.held = x.stage.held ∧ x'.stage.due p = x.stage.due p) :
    Conveys y p pipe x' wire := by
  intro hd
  obtain ⟨h₁,h₂,h₃⟩ := hx hd
  rw [h₂,h₃]
  exact h h₁

theorem Mute.fade (h : x.Mute) (hf : x.connection.Fades c) : Mute { x with connection := c } :=
  h.imp_left hf.phase.closed

theorem Deaf.fade (h : x.Deaf) (hf : x.connection.Fades c) : Deaf { x with connection := c } :=
  h.imp_left hf.phase.closed

section

variable (h : Joint names x out w y inn v)

include h

theorem Joint.fade (ha : Connection.Accord c w y.connection v) (hf : x.connection.Fades c) :
    Joint names { x with connection := c } out w y inn v := by
  refine h.become hf.options ha (h.near.fade hf) ?_ ?_
  · exact h.forth.speaker fun hm => ⟨fun hx => hm (hx.fade hf),rfl⟩
  · exact h.back.listener fun hd => ⟨fun hx => hd (hx.fade hf),rfl,rfl⟩

theorem Joint.endReads :
    Joint names { x with connection := { x.connection with readEnded := true } } out w y inn v := by
  obtain ⟨ha,hn,hf,hforth,hback⟩ := h
  exact ⟨ha.endReads,{ hn with },hf,
    hforth,hback⟩

theorem Joint.learn {result : Option (Except Failure Settings)}
    (hr : ∀ err, result = some (.error (.connectFailed (.frame err))) →
      ¬(Frame.settings y.settings).Fits x.connection.maxBody) :
    Joint names { x with connected := result } out w y inn v := by
  obtain ⟨ha,hn,hf,hforth,hback⟩ := h
  exact ⟨ha,{ hn with refused := hr },hf,hforth,hback⟩

theorem Joint.failConnect (hb : ∀ r, f ≠ .protocolViolation r)
    (hf : ∀ err, f = .connectFailed (.frame err) →
      ¬(Frame.settings y.settings).Fits x.connection.maxBody)
    (early : f = .cancelled → x.connection.phase = .connecting ∨ x.connection.phase = .closed) :
    Joint names (x.failConnect f) out w y inn v := by
  have h₁ :=
    h.fade (h.accord.moves (Connection.moves_abort _ hb early)) (Connection.fades_abort _ f)
  refine h₁.learn fun err he => ?_
  rw [Connection.maxBody_congr (x.connection.kept_abort f).options]
  exact hf err (Except.error.inj (Option.some.inj he))

theorem Joint.leave (hp : ¬(x.connection.phase = .active ∨ x.connection.phase = .closing)) :
    Joint names { x with stage := .gone } out w y inn v := by
  refine ⟨h.accord,?_,h.far,?_,?_⟩
  · exact ⟨h.near.channel,by simp,by simp,fun hx => absurd hx hp,by simp,by simp,h.near.refused⟩
  · exact h.forth.speaker fun hm => absurd (.inr trivial) hm
  · exact h.back.listener fun hd => absurd (.inr rfl) hd

theorem Joint.letGo (hp : ¬(x.connection.phase = .active ∨ x.connection.phase = .closing)) :
    Joint names x.letGo out w y inn v := by
  unfold Endpoint.letGo
  split
  · refine (h.leave hp).learn fun err he => h.near.refused err ?_
    cases hc : x.connected with
    | none =>
      rw [hc] at he
      cases he
    | some r =>
      rw [hc] at he
      exact he
  · exact h.leave hp
  · exact h.leave hp
  · exact h.leave hp

end

theorem start_spec (h : Opening.start (.of names) own = .ok o) :
    o.Suits names ∧ ¬o.Muted ∧ o.unsent (.of names own) = Stage.unsent (.of names own) .unopened ∧
      o.held = [] ∧
        ∀ p, (names = none → p.magic = [] ∧ p.size = [] ∧ p.name = [] ∧ p.verdict = []) →
        o.due p = Stage.due p .unopened := by
  cases names with
  | none =>
    cases h
    refine ⟨trivial,id,rfl,rfl,fun p hp => ?_⟩
    obtain ⟨h₁,h₂,h₃,h₄⟩ := hp rfl
    simp [Opening.due,Opening.announce,Stage.due,h₁,h₂,h₃,h₄]
  | some ab =>
    obtain ⟨a,b⟩ := ab
    simp only [Opening.start,Channel.of] at h
    split at h
    · cases h
    · rename_i hl
      cases h
      refine ⟨trivial,id,?_,rfl,fun p _ => rfl⟩
      simp [Opening.unsent,Stage.unsent,Preamble.of,Identity.hello,Identity.announced,hl]

theorem start_error {channel : Channel} (h : Opening.start channel own = .error f) :
    ∃ n, f = .connectFailed (.identityTooLong n) := by
  unfold Opening.start at h
  split at h
  · cases h
  · split at h
    · cases h
      exact ⟨_,rfl⟩
    · cases h

theorem Joint.connect (h : Joint names x out w y inn v) {now : Nat} (hx : x.connect now = .ok x') :
    Joint names x' out w y inn v := by
  cases connects_of_connect hx with
  | start early stage ho =>
    rw [h.near.channel] at ho
    obtain ⟨hs,hm,hu,hheld,hdue⟩ := start_spec ho
    refine ⟨h.accord,?_,h.far,?_,?_⟩
    · refine ⟨h.near.channel,?_,by simp,by simp [early],by simp,by simp,h.near.refused⟩
      rintro _ _ ⟨⟩
      exact hs
    · exact h.forth.speaker fun hx => ⟨fun hy => hx (.inl (hy.resolve_right (by
        rw [stage]
        exact id))),by rw [stage]; exact hu⟩
    · refine h.back.listener fun hx => ⟨fun hy => hx (.inl (hy.resolve_right (by
        rw [stage]
        simp))),by rw [stage]; exact hheld,?_⟩
      rw [stage]
      refine hdue _ ?_
      rintro rfl
      exact ⟨rfl,rfl,rfl,rfl⟩
  | fail _ _ hf =>
    obtain ⟨n,rfl⟩ := start_error hf
    exact h.failConnect (by simp) (by simp) (by simp)

theorem Joint.ignore (h : Joint names x out w y inn v) (hd : x.Deaf) (inn' : Bytes) :
    Joint names x out w y inn' v :=
  { h with back := fun hx => absurd hd hx }

section Steps

variable {deadline : Nat} {r r' : Running} {rest : Bytes}

variable {pout pinn pout' pinn' : Pipe} {hidden : Bytes} {now : Nat}

section

variable (h : Joint names x pout.buffer w y (pinn.buffer ++ hidden) v)

include h

theorem Joint.proceed {o o' : Opening}
    (hstage : x.stage = .opening o deadline) (hp : x.connection.phase = .connecting)
    (hrest : ¬y.Mute → rest = y.stage.unsent (.of (names.map Prod.swap) y.settings))
    (hl : o.Leads names x.settings y.settings x.connection.maxBody pout (hidden ++ rest)
      (v.flatMap Frame.encode) (.next o') pout' pinn') :
    Joint names { x with stage := .opening o' deadline } pout'.buffer w y (pinn'.buffer ++ hidden)
      v := by
  obtain ⟨hs,hm,⟨left,hout,hleft⟩,hin⟩ := hl
  have hmute : ¬x.Mute := by
    rintro (hx | hx)
    · cases hp.symm.trans hx
    · rw [hstage] at hx
      exact hm hx
  refine ⟨h.accord,?_,h.far,?_,?_⟩
  · refine ⟨h.near.channel,?_,by simp,by simp [hp],by simp,by simp,h.near.refused⟩
    rintro _ _ ⟨⟩
    exact hs
  · intro hd
    obtain ⟨rest',he,hr⟩ := h.forth hd
    refine ⟨left,?_,fun hx => hleft fun hy => hx (.inr hy)⟩
    have hunsent : rest' = o.unsent (.of names x.settings) := by
      rw [hr hmute,hstage]
      rfl
    have hsame : pout'.buffer ++ left = pout.buffer ++ rest' := by
      rw [hunsent]
      exact hout
    rw [hsame]
    exact he
  · intro _
    exact ⟨rest,by rw [List.append_assoc]; exact hin,hrest⟩

theorem Joint.establish {inbox : Bytes}
    (hstage : x.stage = .opening o deadline) (hp : x.connection.phase = .connecting)
    (hrest : ¬y.Mute → rest = y.stage.unsent (.of (names.map Prod.swap) y.settings))
    (hl : o.Leads names x.settings y.settings x.connection.maxBody pout (hidden ++ rest)
      (v.flatMap Frame.encode) (.established s inbox) pout' pinn') :
    ∃ v', Joint names (x.establish now s inbox) pout'.buffer w y (pinn'.buffer ++ hidden) v' := by
  obtain ⟨rfl,hm,hu,rfl,hfit,hin⟩ := hl
  have hmute : ¬x.Mute := by
    rintro (hx | hx)
    · cases hp.symm.trans hx
    · rw [hstage] at hx
      exact hm hx
  have hactive : Connection.Accord
      { x.connection with peer := y.settings.heard, phase := .active } w y.connection v :=
    h.accord.establish hp (hfit.valid _ rfl)
  obtain ⟨v',ha,hf,hx⟩ := hactive.receive (by simp) hfit now hin
  refine ⟨v',?_⟩
  unfold Endpoint.establish
  generalize Connection.receive { x.connection with peer := y.settings.heard, phase := .active } now
    inbox = r at ha hf hx
  obtain ⟨c,inbox'⟩ := r
  have ho : c.options = x.connection.options := hf.options
  have hsize := Connection.maxBody_congr ho
  refine h.become ho ha ?_ ?_ ?_
  · refine ⟨h.near.channel,by simp,fun _ _ => hf.phase.not_connecting (by simp),
      fun _ => ⟨_,rfl⟩,fun _ _ => by rw [hsize]; exact hfit,?_,by simp⟩
    rintro _ ⟨⟩ hc
    rw [hsize]
    exact (hx hc).2
  · exact h.forth.speaker fun _ => ⟨hmute,by rw [hstage]; exact hu.symm⟩
  · intro hd
    exact ⟨rest,by rw [List.append_assoc]; exact (hx fun hc => hd (.inl hc)).1,hrest⟩

theorem Joint.leads {p : Opening.Progress}
    (hp : x.connection.phase ≠ .closed) (hstage : x.stage = .opening o deadline)
    (hstep : o.step x.channel x.connection.options.settings x.connection.maxBody pout pinn =
      some (p, pout', pinn')) :
    x.connection.phase = .connecting ∧
      ∃ rest, (¬y.Mute → rest = y.stage.unsent (.of (names.map Prod.swap) y.settings)) ∧
        o.Leads names x.settings y.settings x.connection.maxBody pout (hidden ++ rest)
          (v.flatMap Frame.encode) p pout' pinn' := by
  have hphase : x.connection.phase = .connecting := by
    cases hx : x.connection.phase with
    | connecting => rfl
    | active =>
      obtain ⟨r,hr⟩ := h.near.running (.inl hx)
      cases hstage.symm.trans hr
    | closing =>
      obtain ⟨r,hr⟩ := h.near.running (.inr hx)
      cases hstage.symm.trans hr
    | closed => exact absurd hx hp
  have hdeaf : ¬x.Deaf := by
    rintro (hx | hx)
    · exact hp hx
    · cases hstage.symm.trans hx
  obtain ⟨rest,hin,hrest⟩ := h.back hdeaf
  rw [hstage] at hin
  rw [h.near.channel] at hstep
  exact ⟨hphase,rest,hrest,Opening.step_leads (hidden ++ rest) (h.near.suits o deadline hstage)
    (by simpa [Stage.held,Stage.due,List.append_assoc] using hin) hstep⟩

end

theorem not_mute_of_running (hstage : x.stage = .running r) (hp : x.connection.phase ≠ .closed) :
    ¬x.Mute := by
  rintro (hx | hx)
  · exact hp hx
  · rw [hstage] at hx
    exact hx

theorem Settled.rerun {peer : Settings} (h : x.Settled names peer) (r' : Running)
    (hstage : x.stage = .running r) (hi : r'.inbox = r.inbox) :
    Settled names peer { x with stage := .running r' } := by
  refine ⟨h.channel,by simp,fun _ _ => h.established r hstage,fun _ => ⟨_,rfl⟩,
    fun _ _ => h.fits r hstage,?_,h.refused⟩
  rintro _ ⟨⟩ hp
  rw [hi]
  exact h.partly r hstage hp

theorem Conveys.rerun (h : Conveys y p pipe x wire) (hstage : x.stage = .running r)
    (hi : r'.inbox = r.inbox) (hp : c.phase = x.connection.phase) :
    Conveys y p pipe { x with connection := c, stage := .running r' } wire := by
  refine h.listener fun hd => ⟨fun hx => hd (.inl ?_),?_,?_⟩
  · rcases hx with hx | hx
    · exact hp.trans hx
    · cases hstage.symm.trans hx
  · rw [hstage]
    exact hi
  · rw [hstage]
    rfl

theorem Joint.reset (h : Joint names x out w y inn v) (hstage : x.stage = .running r)
    (hi : r'.inbox = r.inbox) (hb : r'.batch = r.batch) :
    Joint names { x with stage := .running r' } out w y inn v := by
  refine h.become rfl h.accord ?_ ?_ ?_
  · exact h.near.rerun r' hstage hi
  · refine h.forth.speaker fun hm => ⟨fun hx => hm (hx.imp_right ?_),?_⟩
    · rw [hstage]
      exact id
    · rw [hstage]
      simp only [Stage.unsent,hb]
  · exact h.back.rerun hstage hi rfl

theorem Joint.takeIn (h : Joint names x out w y (pinn.buffer ++ hidden) v)
    (hstage : x.stage = .running r) (hp : x.connection.phase ≠ .closed) {now : Nat}
    {idleDeadline : Option Nat} :
    ∃ v', Joint names
      { x with
        connection := (x.connection.receive now (r.inbox ++ pinn.buffer)).1
        stage := .running { r with
          inbox := (x.connection.receive now (r.inbox ++ pinn.buffer)).2
          idleDeadline } } out w y hidden v' := by
  have hdeaf : ¬x.Deaf := by
    rintro (hx | hx)
    · exact hp hx
    · cases hstage.symm.trans hx
  have hmute := not_mute_of_running hstage hp
  obtain ⟨rest,hin,hrest⟩ := h.back hdeaf
  rw [hstage] at hin
  have hin' : (r.inbox ++ pinn.buffer) ++ (hidden ++ rest) = v.flatMap Frame.encode := by
    simpa [Stage.held,Stage.due,List.append_assoc] using hin
  obtain ⟨v',ha,hf,hx⟩ :=
    h.accord.receive (h.near.established r hstage) (h.near.fits r hstage) now hin'
  generalize x.connection.receive now (r.inbox ++ pinn.buffer) = q at ha hf hx
  obtain ⟨c,inbox⟩ := q
  have hsize := Connection.maxBody_congr hf.options
  refine ⟨v',h.become hf.options ha ?_ ?_ ?_⟩
  · refine ⟨h.near.channel,by simp,fun _ _ => hf.phase.not_connecting (h.near.established r hstage),
      fun _ => ⟨_,rfl⟩,fun _ _ => by rw [hsize]; exact h.near.fits r hstage,?_,?_⟩
    · rintro _ ⟨⟩ hc
      rw [hsize]
      exact (hx hc).2
    · intro err he
      rw [hsize]
      exact h.near.refused err he
  · exact h.forth.speaker fun _ => ⟨hmute,by rw [hstage]; rfl⟩
  · intro hd
    exact ⟨rest,(hx fun hc => hd (.inl hc)).1,hrest⟩

theorem Joint.pull (h : Joint names x pout.buffer w y (pinn.buffer ++ hidden) v)
    (hx : Pulls x now pout pinn x' pout' pinn') :
    ∃ v', Joint names x' pout'.buffer w y (pinn'.buffer ++ hidden) v' := by
  cases hx with
  | leave closed => exact ⟨v,h.letGo (by simp [closed])⟩
  | next live stage step =>
    obtain ⟨hp,rest,hrest,hleads⟩ := h.leads live stage step
    exact ⟨v,h.proceed stage hp hrest hleads⟩
  | refuse live stage step =>
    obtain ⟨hp,_,-,rfl,hb,hf⟩ := h.leads live stage step
    exact ⟨v,(h.failConnect hb hf fun _ => .inl hp).ignore
      (.inl (Connection.abort_phase _ _)) _⟩
  | establish live stage step =>
    obtain ⟨hp,rest,hrest,hleads⟩ := h.leads live stage step
    exact h.establish stage hp hrest hleads
  | late => exact ⟨v,h.failConnect (by simp) (by simp) (by simp)⟩
  | takeIn live stage => exact h.takeIn stage live
  | endInput _ stage =>
    rcases Connection.moves_endOfInput x.connection with hm | ⟨-,hm⟩
    · exact ⟨v,(h.fade (h.accord.moves hm) hm.fades).reset stage rfl rfl⟩
    · exact ⟨v,(h.endReads.fade (h.accord.endReads.moves hm) hm.fades).reset stage rfl rfl⟩
  | idle =>
    have hm := Connection.moves_abort x.connection (e := .connectionIdle) (by simp) (by simp)
    exact ⟨v,h.fade (h.accord.moves hm) hm.fades⟩
  | beat _ stage =>
    have hm : Connection.Moves x.connection _ :=
      Connection.Move.moves (.say (.inl ⟨pingPayload now,rfl⟩))
    exact ⟨v,(h.fade (h.accord.moves hm) hm.fades).reset stage rfl rfl⟩

theorem Joint.write (h : Joint names x out w y inn v) (r' : Running) (out' : Bytes)
    (hstage : x.stage = .running r) (hp : x.connection.phase ≠ .closed) (hi : r'.inbox = r.inbox)
    (hb : out' ++ r'.batch.elim [] (·.bytes) = out ++ r.batch.elim [] (·.bytes)) :
    Joint names { x with stage := .running r' } out' w y inn v := by
  have hmute := not_mute_of_running hstage hp
  refine h.become rfl h.accord ?_ ?_ ?_
  · exact h.near.rerun r' hstage hi
  · intro hd
    obtain ⟨rest,he,hr⟩ := h.forth hd
    refine ⟨r'.batch.elim [] (·.bytes),?_,fun _ => rfl⟩
    have hrest : rest = r.batch.elim [] (·.bytes) := by
      rw [hr hmute,hstage]
      rfl
    rw [hb,← hrest]
    exact he
  · exact h.back.rerun hstage hi rfl

theorem Joint.ship {b : Batch} (h : Joint names x out w y inn v) (hstage : x.stage = .running r)
    (hp : x.connection.phase ≠ .closed) (hb : r.batch = none)
    (ht : x.connection.takeBatch = (some b, c)) :
    Joint names { x with connection := c, stage := .running { r with batch := some b } } out
      (w ++ b.frames.map (·.frame)) y inn v := by
  have hmute := not_mute_of_running hstage hp
  have hbytes := Connection.takeBatch_bytes ht
  have ha := h.accord.ship ht
  obtain ⟨control,data,journal,rfl⟩ := Connection.takeBatch_eq ht
  refine h.become rfl ha ?_ ?_ ?_
  · exact (h.near.rerun { r with batch := some b } hstage rfl).fade ⟨.refl _,rfl,rfl⟩
  · intro hd
    obtain ⟨rest,he,hr⟩ := h.forth hd
    refine ⟨b.bytes,?_,fun _ => rfl⟩
    have hrest : rest = [] := by
      rw [hr hmute,hstage]
      simp [Stage.unsent,hb]
    rw [hrest,List.append_nil] at he
    rw [List.flatMap_append,← hbytes,← List.append_assoc,← List.append_assoc,he]
  · exact h.back.rerun hstage rfl rfl

theorem Joint.push (h : Joint names x pout.buffer w y inn v) (hx : Pushes x pout x' pout') :
    ∃ w', Joint names x' pout'.buffer w' y inn v := by
  cases hx with
  | broken =>
    have hm := Connection.moves_abort x.connection (e := .connectionLost (.pipe .broken)) (by simp)
      (by simp)
    exact ⟨w,h.fade (h.accord.moves hm) hm.fades⟩
  | @complete r b _ live stage batch written =>
    obtain ⟨done,he,hbuf,-⟩ := Pipe.write_spec written
    have h₁ :=
      h.write { r with batch := none } pout'.buffer stage live rfl (by simp [batch,hbuf,he])
    have hm := Connection.moves_batchWritten x.connection b
    exact ⟨w,h₁.fade (h₁.accord.moves hm) hm.fades⟩
  | write live stage batch written =>
    obtain ⟨done,he,hbuf,-⟩ := Pipe.write_spec written
    exact ⟨w,h.write _ _ stage live rfl (by simp [batch,hbuf,he])⟩
  | ship live stage batch taken => exact ⟨_,h.ship stage live batch taken⟩
  | shut _ _ _ ready =>
    have hm := Connection.moves_writesShutDown ready
    have h₁ := h.fade h.accord.shutOff ⟨.refl _,rfl,rfl⟩
    exact ⟨w,h₁.fade (h₁.accord.moves hm) hm.fades⟩

end Steps

end Endpoint

end Multiplex
