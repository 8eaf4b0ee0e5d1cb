import Multiplex.Proofs.Delivery

/-!
What two active ends have in common when nothing is on the way between them.
-/

namespace Multiplex

namespace Connection

structure Rest (c d : Connection) : Prop where
  accord : Accord c [] d []
  active : c.phase = .active
  active' : d.phase = .active
  quiet : c.outline [] = []
  quiet' : d.outline [] = []

namespace Rest

variable {c d : Connection} {id : StreamId} {s t : Stream}

section

variable (h : Rest c d)

include h

theorem symm : Rest d c := ⟨h.accord.symm,h.active',h.active,h.quiet',h.quiet⟩

theorem way (id : StreamId) :
    Way id d.options.window.toNat (c.site id).opener true (c.seat id) [] (d.seat id) [] := by
  have hw := h.accord.near.way id
  simpa only [trail,h.quiet,h.quiet',h.active,about,List.filter_nil,decide_true] using hw

/-- A reset has been heard of, so a stream was not reset whose other end still listens. -/
theorem unreset (hs : c.seat id = .taken s) (hl : (d.seat id).listens = true) :
    s.resetCode = none := by
  by_contra hr
  obtain ⟨wire,hm⟩ := (h.way id).tells rfl s hs (Option.isSome_iff_ne_none.mpr hr) hl
  cases hm

theorem arrived (hs : c.seat id = .taken s) (hl : (d.seat id).listens = true) :
    ((d.seat id).inflow d.options.window.toNat).received = s.ledger.sent.reverse := by
  have hr := h.unreset hs hl
  have hall := (h.way id).flow.whole (by rw [Seat.listening_inflow]; exact hl)
    (by simp [hs,Seat.outflow,hr])
  simpa [hs,Seat.outflow,Frame.chunks] using hall

/-- A stream that its opener has started is known to the other end. -/
theorem known (hs : c.seat id = .taken s) (hr : s.remote = false) : d.seat id ≠ .unseen := by
  intro hu
  have hall := h.arrived hs (by rw [hu]; rfl)
  obtain ⟨hid,i,hi⟩ := (seat_eq_taken_iff h.accord.sound.toRegistry).mp hs
  refine h.accord.spoken hi (by simp [hid]) hr ?_
  rw [hu] at hall
  exact List.reverse_eq_nil_iff.mp hall.symm

theorem ended (hs : c.seat id = .taken s) (ht : d.seat id = .taken t) (hr : s.resetCode = none)
    (hf : s.finQueued = true) (hl : t.released = false) : t.finReceived = true := by
  by_contra hx
  obtain ⟨y,hy,-⟩ := (h.way id).flow.pending (by simpa [hs,Seat.outflow] using hf)
    (by simp [hs,Seat.outflow,hr]) (by simp [ht,Seat.inflow,hl])
    (by simpa [ht,Seat.inflow] using hx)
  cases hy

theorem released (hs : c.seat id = .taken s) (ht : d.seat id = .taken t) (hl : s.released = true) :
    t.released = true := by
  by_contra hx
  have hlive : t.released = false := Bool.eq_false_of_not_eq_true hx
  have hr := h.unreset hs (by simp [ht,Seat.listens,Seat.inflow,hlive])
  obtain ⟨hwrote,hread⟩ := h.accord.sound.ended h.active hs hl hr
  obtain ⟨hreads,hwrites⟩ := h.accord.bond.sides hs ht
  have hremote : t.remoteDone = true := by
    cases hsides : t.hasReadSide with
    | false => simp [Stream.remoteDone,hsides]
    | true => simp [Stream.remoteDone,h.ended hs ht hr (hwrote (hreads ▸ hsides)) hlive]
  have hlocal : t.localDone = true := by
    cases hsides : t.hasWriteSide with
    | false => simp [Stream.localDone,hsides]
    | true =>
      have hended := (h.symm.way id).flow.closed
        (by simpa [hs,Seat.inflow] using hread (hwrites ▸ hsides))
      have hfin : t.finQueued = true := by simpa [ht,Seat.outflow] using hended.1
      simp [Stream.localDone,hfin]
  have := ((h.accord.far.sound.part id).sound t ht).undone hlive
  rw [hlocal,hremote] at this
  cases this

theorem received (hs : c.seat id = .taken s) (ht : d.seat id = .taken t) (hr : t.resetCode = none) :
    t.ledger.received = s.ledger.sent := by
  cases hl : t.released with
  | false =>
    have hall := h.arrived hs (by simp [ht,Seat.listens,Seat.inflow,hl])
    simpa [ht,Seat.inflow] using hall
  | true =>
    cases hsides : t.hasReadSide with
    | true =>
      have hfin := (h.symm.accord.sound.ended h.active' ht hl hr).2 hsides
      have hall := ((h.way id).flow.closed (by simpa [ht,Seat.inflow] using hfin)).2
      simpa [hs,ht,Seat.inflow,Seat.outflow] using hall
    | false =>
      -- then nothing was ever sent
      have hmute := (h.accord.sound.part id).mute s hs ((h.accord.bond.sides hs ht).1 ▸ hsides)
      have horder := (h.way id).flow.order
      simpa [hs,ht,Seat.inflow,Seat.outflow,hmute] using horder

theorem record_eq_some : c.record id = some s ↔ c.seat id = .taken s := by
  rw [seat_eq_taken_iff h.accord.sound.toRegistry,record_eq_some_iff h.accord.sound.toRegistry]

theorem opened (ht : d.seat id = .taken t) (hr : t.remote = true) :
    ∃ s, c.seat id = .taken s ∧ s.remote = false := by
  have hopener : (c.site id).opener = true := by
    have := (h.accord.far.sound.part id).remote t ht
    rw [h.accord.near.opener id,hr] at this
    simpa using this.symm
  cases hs : c.seat id with
  | unseen =>
    cases ((h.way id).dormant hopener hs).symm.trans ht
  | passed => exact absurd hs ((h.accord.sound.part id).opened hopener)
  | taken s => exact ⟨s,rfl,by simpa [hopener] using (h.accord.sound.part id).remote s hs⟩

theorem live (hs : c.seat id = .taken s) (hl : s.released = false)
    (hlost : s.remote = false → s.resetCode = none → d.record id ≠ none) :
    ∃ t, d.seat id = .taken t ∧ t.released = false := by
  have hknown : ∃ t, d.seat id = .taken t := by
    cases hr : s.remote with
    | true =>
      obtain ⟨t,ht,-⟩ := h.symm.opened hs hr
      exact ⟨t,ht⟩
    | false =>
      have hreset : s.resetCode = none := by
        by_contra hx
        have := ((h.accord.sound.part id).sound s hs).undone hl
        simp [Stream.localDone,Stream.remoteDone,Option.isSome_iff_ne_none.mpr hx] at this
      obtain ⟨t,ht⟩ := Option.ne_none_iff_exists'.mp (hlost hr hreset)
      exact ⟨t,h.symm.record_eq_some.mp ht⟩
  obtain ⟨t,ht⟩ := hknown
  refine ⟨t,ht,?_⟩
  by_contra hx
  cases (h.symm.released ht hs (Bool.eq_true_of_not_eq_false hx)).symm.trans hl

theorem passed (hs : c.seat id = .taken s) (hr : s.remote = false) (hlost : d.record id = none) :
    d.seat id = .passed := by
  cases ht : d.seat id with
  | unseen => exact absurd ht (h.known hs hr)
  | passed => rfl
  | taken t =>
    cases (h.symm.record_eq_some.mpr ht).symm.trans hlost

/-- A stream that was not reset and has not come up at the other end was overtaken by one that was
reset. -/
theorem overtaken (hs : c.seat id = .taken s) (hr : s.remote = false) (hreset : s.resetCode = none)
    (hlost : d.record id = none) :
    ∃ later t, c.record later = some t ∧ t.resetCode.isSome ∧ later.initiator = id.initiator ∧
      later.direction = id.direction ∧ id.sequence.toNat < later.sequence.toNat := by
  have hsound := h.accord.sound
  have hopener : id.initiator = c.role := by
    have := (hsound.part id).remote s hs
    simpa [hr,site] using this.symm
  obtain ⟨i,t,later,hi,hid,ht,hinit,hdir,hle⟩ :=
    (h.accord.near.ordered h.active (.inr h.active')).passed id hopener (h.passed hs hr hlost)
  have hlater := (record_eq_some_iff hsound.toRegistry).mpr ⟨hid,i,hi⟩
  refine ⟨later,t,hlater,ht,hinit,hdir,Nat.lt_of_le_of_ne hle fun heq => ?_⟩
  obtain rfl : id = later := by
    rw [← StreamId.ofParts_self id,← StreamId.ofParts_self later,heq,hdir,hinit]
  cases (h.record_eq_some.mpr hs).symm.trans hlater
  rw [hreset] at ht
  cases ht

end

end Rest

end Connection

namespace Endpoint

/-- Frames that the writer has taken and not yet written. -/
def batch (e : Endpoint) : Option Batch :=
  match e.stage with
  | .running r => r.batch
  | .unopened | .opening .. | .gone => none

/-- Whether an end is active and has nothing to write. -/
structure Idle (e : Endpoint) : Prop where
  active : e.connection.phase = .active
  control : e.connection.controlQueue = []
  data : e.connection.dataQueue = []
  batch : e.batch = none

theorem Idle.unwritten {e : Endpoint} (h : e.Idle) : e.unwritten = [] := by
  have hb := h.batch
  unfold Endpoint.batch at hb
  unfold Endpoint.unwritten
  cases hs : e.stage with
  | running r => simp_all
  | unopened | opening | gone => rfl

theorem Idle.outline {e : Endpoint} (h : e.Idle) : e.connection.outline [] = [] := by
  simp [Connection.outline,h.control,h.data]

end Endpoint

namespace Duplex

open Connection

/-- Whether nothing is on the way between two active ends. -/
structure Quiescent (x : Duplex) : Prop where
  near : x.near.endpoint.Idle
  far : x.far.endpoint.Idle
  forth : x.forth.buffer = []
  back : x.back.buffer = []

theorem Quiescent.idle {x : Duplex} (h : x.Quiescent) (side : Side) :
    (x.station side).endpoint.Idle := by
  cases side with
  | near => exact h.near
  | far => exact h.far

theorem Quiescent.pipe {x : Duplex} (h : x.Quiescent) (side : Side) :
    (x.pipe side).buffer = [] := by
  cases side with
  | near => exact h.forth
  | far => exact h.back

variable {names : Option (Identity × Identity)} {own peer : Options} {x : Duplex}

/-- What an active end has read and not yet taken over is no whole frame. -/
theorem Coherent.partly (h : Coherent names own peer x) (side : Side)
    (hp : (x.connection side).phase = .active) :
    Frame.decode (x.connection side).maxBody (x.station side).endpoint.inbox = .incomplete := by
  have settled {names : Option (Identity × Identity)} {peer : Settings} {e : Endpoint}
      (hs : e.Settled names peer) (hp : e.connection.phase = .active) :
      Frame.decode e.connection.maxBody e.inbox = .incomplete := by
    obtain ⟨r,hr⟩ := hs.running (.inl hp)
    have := hs.partly r hr (by simp [hp])
    simpa only [Endpoint.inbox,hr] using this
  obtain ⟨w,v,hj⟩ := h.joint
  cases side with
  | near => exact settled hj.near hp
  | far => exact settled hj.far hp

theorem Coherent.rest (h : Coherent names own peer x) (hq : x.Quiescent) (side : Side) :
    Rest (x.connection side) (x.connection side.other) := by
  have hnone (side : Side) : x.inFlight side = [] := by
    have hd := h.partly side.other (hq.idle side.other).active
    simp only [inFlight]
    rw [hq.pipe side,(hq.idle side).unwritten,List.append_nil,List.append_nil,Frame.drain]
    split <;> rename_i hx <;> rw [hd] at hx <;> cases hx
    rfl
  have ha := (hq.idle side).active
  have ha' := (hq.idle side.other).active
  obtain ⟨w,v,hacc,hw⟩ := h.facing side
  obtain ⟨rfl,rfl⟩ := hw (.inl ha) (.inl ha')
  rw [hnone side,hnone side.other] at hacc
  exact ⟨hacc,ha,ha',(hq.idle side).outline,(hq.idle side.other).outline⟩

def Lost (x : Duplex) (side : Side) (id : StreamId) : Prop :=
  ∃ s, (x.connection side).record id = some s ∧ s.remote = false ∧ s.resetCode = none ∧
    (x.connection side.other).record id = none

theorem Coherent.live (h : Coherent names own peer x) (hq : x.Quiescent) {side : Side}
    {id : StreamId} (hlost : ¬x.Lost side id) (hu : ∃ i, (id, i) ∈ (x.connection side).table) :
    ∃ i, (id, i) ∈ (x.connection side.other).table := by
  have hr := h.rest hq side
  obtain ⟨i,hm⟩ := hu
  obtain ⟨s,hi,hid,hl⟩ := hr.accord.near.sound.iff.mp hm
  have hs := (seat_eq_taken_iff hr.accord.near.sound.toRegistry).mpr ⟨hid,i,hi⟩
  obtain ⟨t,ht,hlt⟩ := hr.live hs hl fun hrem hreset hnone =>
    hlost ⟨s,hr.record_eq_some.mpr hs,hrem,hreset,hnone⟩
  obtain ⟨hid',j,hj⟩ := (seat_eq_taken_iff hr.accord.far.sound.toRegistry).mp ht
  exact ⟨j,hr.accord.far.sound.iff.mpr ⟨t,hj,hid',hlt⟩⟩

/-- When nothing is on the way between two active ends, they use the same streams but for those that
were lost, and have all that was sent on streams they do not know to be reset; and a stream is only
lost if a later one of the same end was reset. -/
theorem agree_at_rest (s : Setup) (events : List (Side × Event))
    (hn : ((start s).run events).Numbered) (hq : ((start s).run events).Quiescent) :
    let x := (start s).run events
    (∀ id, ¬x.Lost .near id → ¬x.Lost .far id →
      ((∃ i, (id, i) ∈ (x.connection .near).table) ↔ ∃ i, (id, i) ∈ (x.connection .far).table)) ∧
    (∀ side id t u, (x.connection side).record id = some t →
      (x.connection side.other).record id = some u → u.resetCode = none →
      (x.connection side.other).bytesReceived id = (x.connection side).bytesSent id) ∧
    ∀ side id, x.Lost side id → ∃ later t, (x.connection side).record later = some t ∧
      t.resetCode.isSome ∧ later.initiator = id.initiator ∧ later.direction = id.direction ∧
      id.sequence.toNat < later.sequence.toNat := by
  intro x
  have h := coherent_run s events hn
  refine ⟨fun id hnear hfar => ⟨h.live hq hnear,h.live hq hfar⟩,?_,?_⟩
  · intro side id t u ht hu hreset
    have hr := h.rest hq side
    have := hr.received (hr.record_eq_some.mp ht) (hr.symm.record_eq_some.mp hu) hreset
    simp only [bytesReceived,bytesSent,x,ht,hu,Option.elim_some,this]
  · rintro side id ⟨t,ht,hrem,hreset,hlost⟩
    have hr := h.rest hq side
    exact hr.overtaken (hr.record_eq_some.mp ht) hrem hreset hlost

/-- Data is written on two streams, and the second is reset before anything has left. -/
def overtaken : List (Side × Event) :=
  greeting ++ [(.near, .create .unidirectional), (.near, .create .unidirectional),
    (.near, .call false (.write 0 [1])), (.near, .call false (.write 1 [2])), (.near, .reset 1 7),
    (.near, .push 128), (.near, .push 128), (.far, .pull 0 128 0)]

theorem quiescent_overtaken : ((start .plain).run overtaken).Quiescent := by
  constructor
  · constructor <;> decide +kernel
  · constructor <;> decide +kernel
  · decide +kernel
  · decide +kernel

/-- Then the data of the first stream, which was not reset, is dropped. -/
theorem reset_drops_data : ((start .plain).run overtaken).Quiescent ∧
      (((start .plain).run overtaken).connection .near).table.map (·.1) = [⟨2⟩] ∧
      (((start .plain).run overtaken).connection .far).table.map (·.1) = [] ∧
      ((((start .plain).run overtaken).connection .near).record ⟨2⟩).any (·.resetCode.isNone) ∧
      (((start .plain).run overtaken).connection .near).bytesSent ⟨2⟩ = [1] ∧
      (((start .plain).run overtaken).connection .far).bytesReceived ⟨2⟩ = [] := by
  refine ⟨quiescent_overtaken,?_,?_,?_,?_,?_⟩ <;> decide +kernel

theorem agree_at_rest_overtaken :
    ((start .plain).run overtaken).Numbered ∧ ((start .plain).run overtaken).Quiescent ∧
      ((start .plain).run overtaken).Lost .near ⟨2⟩ ∧
      ∃ later t, (((start .plain).run overtaken).connection .near).record later = some t ∧
        t.resetCode.isSome ∧ later.direction = .unidirectional ∧ 0 < later.sequence.toNat := by
  have hn : ((start .plain).run overtaken).Numbered := by decide +kernel
  have hs : ((((start .plain).run overtaken).connection .near).record ⟨2⟩).any
      (fun t => !t.remote && t.resetCode.isNone) = true := by decide +kernel
  have hfar : (((start .plain).run overtaken).connection .far).record ⟨2⟩ = none := by
    decide +kernel
  obtain ⟨t,ht,hx⟩ := (Option.any_eq_true _ _).mp hs
  simp only [Bool.and_eq_true,Bool.not_eq_true',Option.isNone_iff_eq_none] at hx
  have hlost : ((start .plain).run overtaken).Lost .near ⟨2⟩ := ⟨t,ht,hx.1,hx.2,hfar⟩
  obtain ⟨later,u,hu,hr,-,hd,hl⟩ :=
    (agree_at_rest .plain overtaken hn quiescent_overtaken).2.2 .near ⟨2⟩ hlost
  exact ⟨hn,quiescent_overtaken,hlost,later,u,hu,hr,hd,hl⟩

end Duplex

end Multiplex
