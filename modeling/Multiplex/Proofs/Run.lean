import Multiplex.Proofs.Transcript

/-!
Whatever happens to two ends keeps them in step, as long as neither has used up its stream ids.
-/

namespace Multiplex

namespace Station

open Connection

variable {names : Option (Identity × Identity)} {s : Station} {y : Endpoint} {w v : List Frame}

theorem joint_serve {out inn : Bytes} (h : s.endpoint.Joint names out w y inn v) (hm : s.Meant)
    (e : Event) (hn : (s.serve e).connection.Numbered) :
    (s.serve e).endpoint.Joint names out w y inn v := by
  have hs := s.serve_serves e
  rw [connection] at hn
  generalize (s.serve e).endpoint = x at hs hn
  cases hs with
  | evolve he => exact h.fade (h.accord.evolves he ⟨h.accord.ready,hm⟩ hn) he.fades
  | connect hc => exact h.connect hc
  | cancel opening =>
    refine h.failConnect (by simp) (by simp) fun _ => ?_
    cases hp : s.endpoint.connection.phase with
    | connecting => exact .inl rfl
    | active => exact ((h.near.running (.inl hp)).elim opening).elim
    | closing => exact ((h.near.running (.inr hp)).elim opening).elim
    | closed => exact .inr rfl

theorem joint_act {out inn : Pipe} (h : s.endpoint.Joint names out.buffer w y inn.buffer v)
    (hm : s.Meant) (e : Event) (hn : (s.act out inn e).1.connection.Numbered) :
    ∃ w' v', (s.act out inn e).1.endpoint.Joint names (s.act out inn e).2.1.buffer w' y
      (s.act out inn e).2.2.buffer v' := by
  have ha := s.acted out inn e
  generalize s.act out inn e = r at ha hn
  cases ha with
  | rest => exact ⟨w,v,h⟩
  | leave stage =>
    refine ⟨w,v,h.leave fun hp => ?_⟩
    obtain ⟨r,hr⟩ := h.near.running hp
    cases stage.symm.trans hr
  | @pull now seen room _ _ _ hx =>
    have hj : s.endpoint.Joint names (out.withRoom room).buffer w y
        ((inn.front seen).buffer ++ inn.buffer.drop seen) v := by
      simpa [Pipe.withRoom,Pipe.front] using h
    obtain ⟨v',hv⟩ := hj.pull hx
    exact ⟨w,v',hv⟩
  | @push room _ _ hx =>
    have hj : s.endpoint.Joint names (out.withRoom room).buffer w y inn.buffer v := h
    obtain ⟨w',hw⟩ := hj.push hx
    exact ⟨w',v,hw⟩
  | serve => exact ⟨w,v,joint_serve h hm e hn⟩

end Station

namespace Duplex

open Connection

/-- Whether neither end has used up its stream ids. -/
def Numbered (x : Duplex) : Prop := x.near.connection.Numbered ∧ x.far.connection.Numbered

/-- Whether the stage of each end goes with the phase of its connection. -/
structure Staged (x : Duplex) : Prop where
  near : x.near.endpoint.Staged
  far : x.far.endpoint.Staged

/-- Two ends in step, set up with the options `own` and `peer`. -/
structure Coherent (names : Option (Identity × Identity)) (own peer : Options) (x : Duplex) :
    Prop where
  joint : ∃ w v, x.near.endpoint.Joint names x.forth.buffer w x.far.endpoint x.back.buffer v
  near : x.near.Meant
  far : x.far.Meant
  own : x.near.connection.options = own
  peer : x.far.connection.options = peer

variable {names : Option (Identity × Identity)} {own peer : Options} {x : Duplex}

theorem Coherent.swap (h : Coherent names own peer x) :
    Coherent (names.map Prod.swap) peer own x.swap := by
  obtain ⟨w,v,hj⟩ := h.joint
  exact ⟨⟨v,w,hj.symm⟩,h.far,h.near,h.peer,h.own⟩

theorem Coherent.actNear (h : Coherent names own peer x) (hs : x.near.endpoint.Staged) (e : Event)
    (hn : (x.actNear e).near.connection.Numbered) : Coherent names own peer (x.actNear e) := by
  obtain ⟨w,v,hj⟩ := h.joint
  have hd := Station.does_act hs x.forth x.back e
  exact ⟨Station.joint_act hj h.near e hn,h.near.act _ _ e,h.far,hd.1.later.options.trans h.own,
    h.peer⟩

theorem Staged.act (h : x.Staged) (e : Side × Event) : (x.act e).Staged := by
  obtain ⟨_ | _,e⟩ := e
  · exact ⟨(Station.does_act h.near x.forth x.back e).2,h.far⟩
  · exact ⟨h.near,(Station.does_act h.far x.back x.forth e).2⟩

theorem Numbered.of_act {e : Side × Event} (h : (x.act e).Numbered) (hs : x.Staged) :
    x.Numbered := by
  obtain ⟨_ | _,e⟩ := e
  · exact ⟨h.1.of_later (Station.does_act hs.near x.forth x.back e).1.later,h.2⟩
  · exact ⟨h.1,h.2.of_later (Station.does_act hs.far x.back x.forth e).1.later⟩

theorem Coherent.act (h : Coherent names own peer x) (hs : x.Staged) (e : Side × Event)
    (hn : (x.act e).Numbered) : Coherent names own peer (x.act e) := by
  obtain ⟨_ | _,e⟩ := e
  · exact h.actNear hs.near e hn.1
  · have hc := (h.swap.actNear hs.far e hn.2).swap
    have hnames : (names.map Prod.swap).map Prod.swap = names := by
      cases names <;> rfl
    rwa [hnames] at hc

theorem coherent_start (s : Setup) : Coherent s.names s.near s.far (start s) := by
  refine ⟨⟨[],[],?_⟩,by simp [Station.Meant,start,Station.fresh],
    by simp [Station.Meant,start,Station.fresh],rfl,rfl⟩
  have hsettled (names : Option (Identity × Identity)) (role : Role) (own : Options)
      (codes : CodeSpace) (peer : Settings) :
      (Endpoint.ofConnection (.fresh role own codes) (.of names)).Settled names peer := by
    refine ⟨rfl,?_,?_,?_,?_,?_,?_⟩ <;> simp [Endpoint.ofConnection,fresh]
  refine ⟨accord_fresh .client s.near s.far s.nearCodes s.farCodes,hsettled _ _ _ _ _,
    hsettled _ _ _ _ _,?_,?_⟩
  · exact fun _ => ⟨_,(List.append_nil _).symm,fun _ => rfl⟩
  · exact fun _ => ⟨_,(List.append_nil _).symm,fun _ => rfl⟩

theorem run_append (x : Duplex) (events : List (Side × Event)) (e : Side × Event) :
    x.run (events ++ [e]) = (x.run events).act e := by
  simp [run]

theorem staged_run (s : Setup) (events : List (Side × Event)) : ((start s).run events).Staged := by
  induction events using List.reverseRecOn with
  | nil => exact ⟨(Station.Fresh.intro ..).staged [],(Station.Fresh.intro ..).staged []⟩
  | append_singleton events e ih =>
    rw [run_append]
    exact ih.act e

theorem deeds_run (s : Setup) (events : List (Side × Event)) (side : Side) :
    Deeds False ((start s).connection side) (((start s).run events).connection side) := by
  induction events using List.reverseRecOn with
  | nil => exact .refl
  | append_singleton events e ih =>
    have hs := staged_run s events
    rw [run_append]
    generalize (start s).run events = x at ih hs
    obtain ⟨_ | _,e⟩ := e <;> cases side
    · exact ih.trans ((Station.does_act hs.near x.forth x.back e).1.mono False.elim)
    · exact ih
    · exact ih
    · exact ih.trans ((Station.does_act hs.far x.back x.forth e).1.mono False.elim)

/-- Whatever happens keeps the two ends in step. -/
theorem coherent_run (s : Setup) (events : List (Side × Event))
    (hn : ((start s).run events).Numbered) :
    Coherent s.names s.near s.far ((start s).run events) := by
  induction events using List.reverseRecOn with
  | nil => exact coherent_start s
  | append_singleton events e ih =>
    rw [run_append] at hn ⊢
    have hs := staged_run s events
    exact (ih (hn.of_act hs)).act hs e hn

end Duplex

end Multiplex
