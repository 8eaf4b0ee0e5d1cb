import Multiplex.Proofs.Register
import Multiplex.Proofs.Standing

/-!
PINGs and the calls that send them. Such a call ends with the first PONG that it sees after it
began, whatever PING that answers.
-/

namespace Multiplex

/-- How long before the given time, in microseconds, the PING with a payload was sent. -/
def elapsed (now : Nat) (payload : UInt64) : Nat := now * 1000 - payload.toNat

theorem elapsed_pingPayload (now sent : Nat) :
    elapsed now (pingPayload sent) = now * 1000 - min (sent * 1000) (UInt64.size - 1) := by
  have hsize : min (sent * 1000) (UInt64.size - 1) < 2 ^ 64 := by
    simp only [UInt64.size]
    omega
  rw [elapsed,pingPayload,UInt64.toNat_ofNat',Nat.mod_eq_of_lt hsize]

/-- Whether what is counted of PONGs tells which ones came. -/
structure Metrics.Told (m : Metrics) : Prop where
  count : m.pongs = m.echoes.length
  time : m.roundTrip = m.echoes.head?.map fun e => elapsed e.1 e.2

def Frame.pinged? : Frame → Option UInt64
  | .ping payload => some payload
  | _ => none

namespace Connection

variable {c c' c'' : Connection}

/-- The payloads of all PINGs that were queued, newest first. -/
def pings (c : Connection) : List UInt64 := c.journal.control.filterMap Frame.pinged?

/-- Whether the PONGs that came answer the PINGs in order. -/
def InOrder (c : Connection) : Prop := c.metrics.echoes.map (·.2) <:+ c.pings

/-- PINGs and PONGs are added to those on record. -/
structure Heeds (c c' : Connection) : Prop where
  pings : c.pings <:+ c'.pings
  echoes : c.metrics.echoes <:+ c'.metrics.echoes
  told : c.metrics.Told → c'.metrics.Told

theorem Heeds.of_eq (hc : c'.journal.control = c.journal.control)
    (hm : c'.metrics.answers = c.metrics.answers) : Heeds c c' := by
  simp only [Metrics.answers,Prod.mk.injEq] at hm
  obtain ⟨hcount,htime,hechoes⟩ := hm
  refine ⟨?_,hechoes ▸ List.suffix_rfl,fun h => ⟨?_,?_⟩⟩
  · rw [Connection.pings,Connection.pings,hc]
  · rw [hcount,hechoes,h.count]
  · rw [htime,hechoes,h.time]

theorem Heeds.trans (h : Heeds c c') (h' : Heeds c' c'') : Heeds c c'' :=
  ⟨h.pings.trans h'.pings,h.echoes.trans h'.echoes,fun ht => h'.told (h.told ht)⟩

theorem Change.heeds {k : Kind} {w : Word} (h : Change c k w c') : Heeds c c' := by
  cases h with
  | note _ hp => exact .of_eq rfl hp
  | count hp => exact .of_eq rfl hp
  | pong now v =>
    refine ⟨List.suffix_rfl,List.suffix_cons _ _,fun ht => ⟨?_,rfl⟩⟩
    exact congrArg (· + 1) ht.count
  | control f =>
    refine ⟨?_,List.suffix_rfl,id⟩
    exact (List.suffix_cons f c.journal.control).filterMap _
  | ship =>
    unfold takeBatch
    split <;> exact .of_eq rfl rfl
  | ring | occupy | vacate | say | complete | tend | purge | use | name | queue | add | arrive
  | accept
  | endInput | written | turn | reason | fail | hail | discard | forget => exact .of_eq rfl rfl

/-- What waits for a PONG ends once there is one more. -/
inductive Awaits (c : Connection) (before : Nat) : Outcome × Connection → Prop
  | fail (e : Failure) : Awaits c before (.done (.error e), c)
  | wait : Awaits c before (.wait (.pong before), c)
  | succeed (h : before < c.metrics.pongs) :
      Awaits c before (.done (.ok (.roundTrip (c.metrics.roundTrip.getD 0))), c)

theorem awaits_resume (c : Connection) (cancelled : Bool) (before : Nat) :
    Awaits c before (c.resume cancelled (.pong before)) := by
  unfold resume lookPong
  dsimp only
  by_cases hb : before < c.metrics.pongs
  · rw [if_pos hb]
    exact .succeed hb
  · rw [if_neg hb]
    by_cases hp : c.phase = .closed
    · rw [if_pos hp]
      exact .fail _
    · rw [if_neg hp]
      cases cancelled with
      | true => exact .fail .cancelled
      | false => exact .wait

/-- A ping that is let in waits for one more PONG. It has sent its PING, unless it came too late for
that. -/
theorem call_ping (c : Connection) (cancelled : Bool) (sent : Nat) :
    let turn := c.call cancelled (.ping sent)
    (∃ e, turn.1 = .done (.error e)) ∨
      turn.1 = .wait (.pong c.metrics.pongs) ∧
        (c.shutdownWrites = false → turn.2.pings = pingPayload sent :: c.pings) := by
  intro turn
  have hlet (hp : c.phase ≠ .closed)
      (hcall : turn = (c.enqueueControl (.ping (pingPayload sent))).resume cancelled
        (.pong c.metrics.pongs)) :
      (∃ e, turn.1 = .done (.error e)) ∨
        turn.1 = .wait (.pong c.metrics.pongs) ∧
          (c.shutdownWrites = false → turn.2.pings = pingPayload sent :: c.pings) := by
    have hsame : (c.enqueueControl (.ping (pingPayload sent))).metrics = c.metrics := by
      rw [enqueueControl_eq]
    have hq := awaits_resume (c.enqueueControl (.ping (pingPayload sent))) cancelled c.metrics.pongs
    rw [← hcall] at hq
    generalize turn = r at hq
    cases hq with
    | fail e => exact .inl ⟨e,rfl⟩
    | wait =>
      refine .inr ⟨rfl,fun hw => ?_⟩
      simp [enqueueControl,hp,hw,pings,Journal.noteControl,Frame.pinged?]
    | succeed hlt =>
      rw [hsame] at hlt
      exact absurd hlt (Nat.lt_irrefl _)
  cases hp : c.phase with
  | connecting | closed => exact .inl ⟨c.closedError,by simp [turn,call,hp,fail]⟩
  | active | closing => exact hlet (by simp [hp]) (by simp [turn,call,hp])

/-- What is so of a ping that was called on `c` at the time `sent`, and that gave `time` on `c'`. -/
structure Answered (c c' : Connection) (sent time : Nat) : Prop where
  /-- A PONG has come since. The time is that of the last one. -/
  last : ∃ now payload older, c'.metrics.echoes = (now, payload) :: older ∧
    c.metrics.echoes <:+ older ∧ time = elapsed now payload
  /-- The PING was sent, unless the ping came too late for that. -/
  sends : c.shutdownWrites = false → pingPayload sent :: c.pings <:+ c'.pings
  /-- If the peer answers in order, the PING's own PONG has come once there are more PONGs than
  there were PINGs before it. If no other came after that one, the time is what passed since the
  call, in microseconds. -/
  own : c.shutdownWrites = false → c'.InOrder → c.pings.length < c'.metrics.echoes.length →
    ∃ newer now older, c'.metrics.echoes = newer ++ (now, pingPayload sent) :: older ∧
      older.length = c.pings.length ∧
      (newer = [] → time = now * 1000 - min (sent * 1000) (UInt64.size - 1))
  /-- There are more, if no answer was due when the ping was called. -/
  alone : c.metrics.echoes.length = c.pings.length → c.pings.length < c'.metrics.echoes.length

theorem answered {sent : Nat} (hc : c.metrics.Told) (hc' : c'.metrics.Told)
    (he : c.metrics.echoes <:+ c'.metrics.echoes)
    (hs : c.shutdownWrites = false → pingPayload sent :: c.pings <:+ c'.pings)
    (hlt : c.metrics.pongs < c'.metrics.pongs) :
    Answered c c' sent (c'.metrics.roundTrip.getD 0) := by
  rw [hc.count,hc'.count] at hlt
  rw [hc'.time]
  obtain ⟨new,hnew⟩ := he
  cases new with
  | nil =>
    rw [← hnew] at hlt
    exact absurd hlt (Nat.lt_irrefl _)
  | cons e new =>
    have hhead : c'.metrics.echoes = e :: (new ++ c.metrics.echoes) := hnew.symm
    refine ⟨⟨e.1,e.2,_,hhead,List.suffix_append _ _,by simp [hhead]⟩,hs,fun hw hin hmore => ?_,
      fun heq => heq ▸ hlt⟩
    -- the PINGs up to this one are among those that were answered
    have hown : pingPayload sent :: c.pings <:+ c'.metrics.echoes.map (·.2) := by
      refine List.suffix_of_suffix_length_le (hs hw) hin ?_
      simpa using hmore
    obtain ⟨front,hfront⟩ := hown
    obtain ⟨newer,rest,hsplit,-,hrest⟩ := List.map_eq_append_iff.mp hfront.symm
    obtain ⟨own,older,rfl,hpayload,holder⟩ := List.map_eq_cons_iff.mp hrest
    obtain ⟨now,payload⟩ := own
    obtain rfl := hpayload
    refine ⟨newer,now,older,hsplit,by rw [← holder,List.length_map],?_⟩
    rintro rfl
    simp [hsplit,elapsed_pingPayload]

end Connection

namespace Register

open Station Connection

theorem heeds_step (s : Station) (t : Step) : Heeds s.connection (s.step t).connection := by
  obtain ⟨c,hm,hc⟩ := s.changes_act t.out t.inn t.event
  have hmeet : Heeds s.connection c := by cases hm <;> exact .of_eq rfl rfl
  exact hmeet.trans (hc.keep trivial (fun _ => .of_eq rfl rfl) .trans fun h _ => h.heeds)

def after (start : Register) (steps : List Step) : Connection :=
  (start.run steps).station.connection

theorem heeds_after (start : Register) (steps : List Step) (t : Step) :
    Heeds (start.after steps) (start.after (steps ++ [t])) := by
  rw [after,after,run_concat,step_station]
  exact heeds_step _ t

/-- Whether the ping with its record at place `m` was called right after `before`, by one of
`steps`. -/
structure Called (start : Register) (m sent : Nat) (before steps : List Step) : Prop where
  place : (start.run before).records.length = m
  step : ∃ t cancelled, t.event = .call cancelled (.ping sent) ∧ before ++ [t] <+: steps

theorem Called.mono {start : Register} {m sent : Nat} {before steps later : List Step}
    (h : Called start m sent before steps) (hl : steps <+: later) :
    Called start m sent before later := by
  obtain ⟨t,cancelled,ht,hp⟩ := h.step
  exact ⟨h.place,t,cancelled,ht,hp.trans hl⟩

/-- Whether a call that waited has looked right after `during`. -/
def Looked (during steps : List Step) : Prop :=
  ∃ u cancelled n, u.event = .look cancelled n ∧ during ++ [u] <+: steps

/-- A ping that waits after some steps. -/
structure Pings (start : Register) (m sent : Nat) (before steps : List Step) (w : Wait) : Prop where
  called : Called start m sent before steps
  waits : w = .pong (start.after before).metrics.pongs
  echoes : (start.after before).metrics.echoes <:+ (start.after steps).metrics.echoes
  pings : (start.after before).shutdownWrites = false →
    pingPayload sent :: (start.after before).pings <:+ (start.after steps).pings

/-- What holds of the records of pings. -/
structure Pinged (start : Register) (steps : List Step) (m : Nat) (x : Record)
    (wait? : Option Wait) :
    Prop where
  waits : ∀ {sent : Nat} {w : Wait}, x.call = .ping sent → wait? = some w →
    ∃ before, Pings start m sent before steps w
  ends : ∀ {sent time : Nat}, x.call = .ping sent → x.result = some (.ok (.roundTrip time)) →
    ∃ before during, Called start m sent before during ∧ Looked during steps ∧
      (start.after before).Answered (start.after during) sent time

section Step

variable {start : Register} {steps : List Step} {t : Step} {m sent : Nat} {x : Record}
  {wait? : Option Wait} {w : Wait} {cancelled : Bool}

theorem Pings.keep {before : List Step} (h : Pings start m sent before steps w) :
    Pings start m sent before (steps ++ [t]) w := by
  have hheeds := start.heeds_after steps t
  exact ⟨h.called.mono (List.prefix_append _ _),h.waits,h.echoes.trans hheeds.echoes,
    fun hs => (h.pings hs).trans hheeds.pings⟩

theorem Pinged.keep (h : Pinged start steps m x wait?) : Pinged start (steps ++ [t]) m x wait? := by
  refine ⟨fun hk hw => ?_,fun hk hr => ?_⟩
  · obtain ⟨before,hp⟩ := h.waits hk hw
    exact ⟨before,hp.keep⟩
  · obtain ⟨before,during,hc,⟨u,cancelled,n,hu,hl⟩,ha⟩ := h.ends hk hr
    exact ⟨before,during,hc,⟨u,cancelled,n,hu,hl.trans (List.prefix_append _ _)⟩,ha⟩

theorem after_call (he : t.event = .call cancelled (.ping sent)) :
    start.after (steps ++ [t]) = ((start.after steps).call cancelled (.ping sent)).2 := by
  have hfree : ¬ (start.run steps).station.barred t.event = true := by
    rw [he]
    exact Bool.false_ne_true
  rw [after,run_concat,step_station,step_serve _ (by rw [he]; rfl),if_neg hfree,he,serve,
    settle_connection]
  rfl

theorem pinged_call {k : Call} (he : t.event = .call cancelled k) :
    Pinged start (steps ++ [t]) (start.run steps).records.length
      (Record.after { call := k } (start.after steps) ((start.after steps).call cancelled k))
      ((start.after steps).call cancelled k).1.wait? := by
  refine ⟨fun {sent w} hk hw => ?_,fun {sent time} hk hr => ?_⟩ <;>
    obtain rfl := hk <;>
    rcases (start.after steps).call_ping cancelled sent with ⟨e,hdone⟩ | ⟨hwait,hpings⟩
  · rw [hdone] at hw
    cases hw
  · rw [hwait] at hw
    cases hw
    refine ⟨steps,⟨rfl,t,cancelled,he,List.prefix_rfl⟩,rfl,(start.heeds_after steps t).echoes,?_⟩
    intro hs
    rw [after_call he,hpings hs]
  · rw [Record.after,hdone] at hr
    cases hr
  · rw [Record.after,hwait] at hr
    cases hr

theorem Pinged.look {n : Nat} (he : t.event = .look cancelled n)
    (told : ∀ steps, (start.after steps).metrics.Told) (h : Pinged start steps m x (some w)) :
    Pinged start (steps ++ [t]) m
      (x.after (start.after steps) ((start.after steps).resume cancelled w))
      ((start.after steps).resume cancelled w).1.wait? := by
  have hturn {sent : Nat} {before : List Step} (hp : Pings start m sent before steps w) :
      (start.after steps).Awaits (start.after before).metrics.pongs
        ((start.after steps).resume cancelled w) := by
    rw [hp.waits]
    exact awaits_resume ..
  generalize (start.after steps).resume cancelled w = turn at hturn
  refine ⟨fun {sent w'} hk hw => ?_,fun {sent time} hk hr => ?_⟩
  · obtain ⟨before,hp⟩ := h.waits hk rfl
    cases hturn hp with
    | fail | succeed => cases hw
    | wait =>
      cases hw
      exact ⟨before,hp.waits ▸ hp.keep⟩
  · obtain ⟨before,hp⟩ := h.waits hk rfl
    cases hturn hp with
    | fail | wait => cases hr
    | succeed hlt =>
      cases hr
      refine ⟨before,steps,hp.called,⟨t,cancelled,n,he,List.prefix_rfl⟩,?_⟩
      exact answered (told before) (told steps) hp.echoes hp.pings hlt

end Step

theorem Fresh.told {r : Register} (h : r.Fresh) (steps : List Step) :
    (r.after steps).metrics.Told := by
  induction steps using List.reverseRecOn with
  | nil =>
    cases h
    exact ⟨rfl,rfl⟩
  | append_singleton steps t ih => exact (heeds_after _ steps t).told ih

theorem Fresh.pinged {r : Register} (h : r.Fresh) (steps : List Step) :
    (r.run steps).FollowsAt (Pinged r steps) := by
  refine h.followsAt (fun steps t => ?_) steps
  refine ⟨Pinged.keep,pinged_call,fun he hp => hp.look he h.told,
    fun _ _ => ⟨fun _ hw => ?_,fun _ hr => ?_⟩,fun hp => ⟨fun _ hw => ?_,hp.keep.ends⟩⟩
  · cases hw
  · cases hr
  · cases hw

variable (role : Role) (options : Options) (codes : CodeSpace) (channel : Channel)

/-- A ping that gives a time has seen a PONG, and gives the time of the last one. -/
theorem pings_answered {steps : List Step} {m sent time : Nat} {x : Record}
    (hx : ((fresh role options codes channel).run steps).records[m]? = some x)
    (hk : x.call = .ping sent) (hr : x.result = some (.ok (.roundTrip time))) :
    ∃ before during, Called (fresh role options codes channel) m sent before during ∧
      Looked during steps ∧
      ((fresh role options codes channel).after before).Answered
        ((fresh role options codes channel).after during) sent time := by
  obtain ⟨wait?,hq⟩ := ((Fresh.intro role options codes channel).pinged steps).at_place hx
  exact hq.ends hk hr

/-- A ping at 5 ms, and what the peer then says at 10 ms. -/
def pinging (earlier : List Step) (heard : Frame) : List Step :=
  meeting {} ++ earlier ++
    [.quiet (.call false (.ping 5)),
      ⟨{ capacity := 0 }, { capacity := 0, buffer := heard.encode }, .pull 10 100 1024⟩,
      .quiet (.look false 0), .quiet (.look false 0)]

theorem pings_answered_own :
    let start := fresh .client {} .direct .plain
    let steps := pinging [] (.pong 5000)
    ∃ x, (start.run steps).records[0]? = some x ∧ x.call = .ping 5 ∧
      x.result = some (.ok (.roundTrip 5000)) ∧
      ∃ before during, Called start 0 5 before during ∧ Looked during steps ∧
        (start.after before).Answered (start.after during) 5 5000 := by
  intro start steps
  have hrecord : (start.run steps).records[0]?.map (fun x => (x.call, x.result)) =
      some (.ping 5, some (.ok (.roundTrip 5000))) := by decide +kernel
  obtain ⟨x,hx,heq⟩ := Option.map_eq_some_iff.mp hrecord
  obtain ⟨hk,hr⟩ := Prod.mk.inj heq
  exact ⟨x,hx,hk,hr,pings_answered .client {} .direct .plain hx hk hr⟩

/-- The PONG for an earlier PING ends a ping whose own PONG has not come. -/
theorem ping_answered_early :
    let r := (fresh .client {} .direct .plain).run
      (pinging [.quiet (.call false (.ping 0))] (.pong 0))
    r.records[1]?.map (fun x => (x.call, x.result)) =
        some (.ping 5, some (.ok (.roundTrip 10000))) ∧
      r.station.connection.pings = [5000, 0] ∧
      r.station.connection.metrics.echoes = [(10, 0)] := by
  decide +kernel

end Register

end Multiplex
