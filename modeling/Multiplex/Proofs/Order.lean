import Multiplex.Proofs.Growth
import Multiplex.Proofs.Slots

/-!
The order of streams. Data reaches an end in the order in which its streams were opened; only a
RESET, which overtakes data, makes it pass over a stream that is still to come.
-/

namespace Multiplex.Connection

variable {c c' d d' : Connection} {id x y : StreamId} {v w o : List Frame} {s : Stream} {f : Frame}
  {i : Nat}

/-- Whether each stream that `c` has reset is reset in `c'`. -/
def Resets (c c' : Connection) : Prop :=
  ∀ {i : Nat} {s : Stream} {id : StreamId}, c.streams[i]? = some s → s.id = some id →
    s.resetCode.isSome → ∃ s', c'.streams[i]? = some s' ∧ s'.id = some id ∧ s'.resetCode.isSome

theorem Lasts.resets (h : Lasts c c') : Resets c c' := by
  intro i s id hi hid hr
  obtain ⟨s',hi',hg⟩ := h i s hi (by simp [hid])
  exact ⟨s',hi',hg.id.trans hid,hg.reset hr⟩

theorem Grown.resets (h : Grown c c') : Resets c c' := h.lasts.resets

/-- Whether an end has a stream that was reset and that is `id`, or was opened later in the same
way. -/
def Overtaken (c : Connection) (id : StreamId) : Prop :=
  ∃ (i : Nat) (s : Stream) (x : StreamId), c.streams[i]? = some s ∧ s.id = some x ∧
    s.resetCode.isSome ∧ x.initiator = id.initiator ∧ x.direction = id.direction ∧
    id.sequence.toNat ≤ x.sequence.toNat

theorem Overtaken.of_resets (h : c.Overtaken id) (hr : Resets c c') : c'.Overtaken id := by
  obtain ⟨i,s,x,hi,hid,hs,hx⟩ := h
  obtain ⟨s',hi',hid',hs'⟩ := hr hi hid hs
  exact ⟨i,s',x,hi',hid',hs',hx⟩

theorem Overtaken.earlier {x : StreamId} (h : c.Overtaken x) (hr : x.initiator = y.initiator)
    (hd : x.direction = y.direction) (hl : y.sequence.toNat ≤ x.sequence.toNat) :
    c.Overtaken y := by
  obtain ⟨i,s,z,hi,hid,hs,hzr,hzd,hzl⟩ := h
  exact ⟨i,s,z,hi,hid,hs,hzr.trans hr,hzd.trans hd,hl.trans hzl⟩

theorem Sound.overtaken (h : c.Sound) (hs : c.seat id = .taken s) (hr : s.resetCode.isSome) :
    c.Overtaken id := by
  obtain ⟨hid,i,hi⟩ := (seat_eq_taken_iff h.toRegistry).mp hs
  exact ⟨i,s,id,hi,hid,hr,rfl,rfl,Nat.le_refl _⟩

/-- How the streams of the end `c` come up at the end `d`, with the frames `o` on the way. -/
structure Ordered (c d : Connection) (o : List Frame) : Prop where
  /-- Data of a new stream comes after data of each earlier one, unless that was overtaken. -/
  order : Preludes c.role (fun p x => d.seat x = .unseen → ∀ y, y.initiator = c.role →
    y.direction = x.direction → y.sequence.toNat < x.sequence.toNat → d.seat y = .unseen →
    (∃ fin data, .stream y fin data ∈ p) ∨ c.Overtaken y) o
  passed : ∀ y, y.initiator = c.role → d.seat y = .passed → c.Overtaken y

namespace Ordered

theorem of_resets (h : Ordered c d o) (hrole : c'.role = c.role) (hr : Resets c c') :
    Ordered c' d o := by
  refine ⟨?_,?_⟩
  · intro p x fin data q ho hx hu y hy hd hl hu'
    rw [hrole] at hx hy
    exact (h.order p x fin data q ho hx hu y hy hd hl hu').imp_right fun hov => hov.of_resets hr
  · intro y hy hp
    rw [hrole] at hy
    exact (h.passed y hy hp).of_resets hr

theorem of_seat (h : Ordered c d o) (hs : ∀ x, d'.seat x = d.seat x) : Ordered c d' o := by
  refine ⟨?_,fun y hy hp => h.passed y hy (hs y ▸ hp)⟩
  intro p x fin data q ho hx hu y hy hd hl hu'
  exact h.order p x fin data q ho hx (hs x ▸ hu) y hy hd hl (hs y ▸ hu')

/-- Control frames come in before the data, and data of streams that were reset is taken back. -/
theorem requeue {w u : List Frame} {keep : Frame → Bool} {heard : Option Frame}
    (h : Ordered c d (c.outline w)) (hs : c.Sound) (hrole : c'.role = c.role) (hr : Resets c c')
    (hq : Requeues heard c c' u keep) : Ordered c' d (c'.outline w) := by
  have h' := h.of_resets hrole hr
  refine ⟨h'.order.requeue hs hq fun l x _ hP hseat y hy hd hl hun => ?_,h'.passed⟩
  refine (hP hseat y hy hd hl hun).elim (fun ⟨fin,bs,hm⟩ => ?_) .inr
  simp only [List.mem_append,hs.no_stream_in_control,false_or] at hm
  rcases hm with hm | hm
  · exact .inl ⟨fin,bs,by simp [hm]⟩
  · cases hkeep : keep (.stream y fin bs) with
    | true => exact .inl ⟨fin,bs,by simp [hm,hkeep]⟩
    | false =>
      obtain ⟨_,_,⟨⟩,-,-,i,s,hi,hid,hreset⟩ := hq.reset _ hkeep
      exact .inr ⟨i,s,y,hi,hid,hreset,rfl,rfl,Nat.le_refl _⟩

end Ordered

theorem nextRemote_of_seat (hr : y.initiator ≠ d.role) :
    (d.seat y = .unseen → d.nextRemote.get y.direction ≤ y.sequence.toNat) ∧
      (d.seat y = .passed → y.sequence.toNat < d.nextRemote.get y.direction) := by
  unfold seat
  cases d.record y with
  | some s => simp
  | none =>
    dsimp only
    split
    · rename_i hx
      exact ⟨by rintro ⟨⟩,fun _ => hx.2⟩
    · rename_i hx
      refine ⟨fun _ => ?_,by rintro ⟨⟩⟩
      by_contra hlt
      exact hx ⟨hr,Nat.lt_of_not_le hlt⟩

theorem Hears.taken (hh : Hears f d d' x) (hs : d.seat x = .taken s) :
    ∃ s', d'.seat x = .taken s' := by
  have hold : (d.part x).seat = .taken s := hs
  change ∃ s', (d'.part x).seat = .taken s'
  unfold Hears at hh
  split at hh
  · obtain ⟨m,hm,ht⟩ := hh
    have hm' : m.seat = .taken s := by
      rcases hm with rfl | ⟨-,hm⟩
      · exact hold
      · cases hm.seat.1.symm.trans hold
    generalize d'.part x = p' at ht
    cases ht with
    | data | grant | reset => exact ⟨_,rfl⟩
    | drop => exact ⟨s,hm'⟩
  · rcases hh with he | ⟨-,hu,-⟩
    · exact ⟨s,he ▸ hold⟩
    · cases hu.symm.trans hs

theorem Take.not_passed (ht : Take f d d') (h : d.Sound) (ha : d.phase = .active)
    (hx : f.streamId = some x) (hp : d'.seat x = .passed) : d.seat x = .passed := by
  have hh := ht.hears h (by simp [ha]) x
  cases ht with
  | @data _ _ _ id _ _ _ hf hi | @grant _ _ _ id _ hf hi | @reset _ _ _ id _ _ _ _ hf hi =>
    cases hx
    obtain ⟨hid,-⟩ := h.found hf hi
    obtain ⟨s',hs'⟩ := hh.taken ((seat_eq_taken_iff h.toRegistry).mpr ⟨hid,_,hi⟩)
    cases hs'.symm.trans hp
  | refuse _ hn => exact absurd ha hn
  | pass _ hn => exact absurd ha hn
  | @surface _ _ _ id metrics changes hnew rest =>
    obtain rfl := Option.some.inj (hnew.about.symm.trans hx)
    have hs := h.surface hnew metrics changes
    have hseat : ({ d.surfaced id with metrics, changes } : Connection).seat id =
        .taken { Stream.fresh id.direction true d.options d.peer with id := some id } :=
      (seat_eq_taken_iff hs.toRegistry).mpr ⟨rfl,d.streams.length,by simp [surfaced]⟩
    obtain ⟨s',hs'⟩ := (rest.hears hs (by simp [surfaced,reached,ha]) id).taken hseat
    cases hs'.symm.trans hp
  | drop | idle => exact hp
  | close => cases hx
  | stray _ _ hf hi => exact absurd hi (h.no_stray hf)

/-- An end that acts on its own account learns nothing of the streams of its peer. -/
theorem Ordered.watch (h : Ordered c d o) (ha : Acts d d') : Ordered c d' o := by
  have hseat (x : StreamId) (hx : ∀ s, d'.seat x ≠ .taken s) : d.seat x = d'.seat x := by
    rcases ha.turns x with he | hs
    · exact (congrArg Part.seat he).symm
    · change (d.part x).seat = (d'.part x).seat
      have hx' : ∀ s, (d'.part x).seat ≠ .taken s := hx
      generalize d.part x = p at hs
      generalize d'.part x = p' at hs hx'
      cases hs with
      | clear => rfl
      | start | tend | send | finish | reset | mark | fail => exact absurd rfl (hx' _)
  refine ⟨?_,?_⟩
  · intro p x fin data q ho hx hu y hy hd hl hu'
    refine h.order p x fin data q ho hx ?_ y hy hd hl ?_
    · rw [hseat x (by simp [hu]),hu]
    · rw [hseat y (by simp [hu']),hu']
  · intro y hy hp
    refine h.passed y hy ?_
    rw [hseat y (by simp [hp]),hp]

theorem Ordered.take (h : Ordered c d (f :: o)) (hs : d.Sound) (hr : d.role = c.role.other)
    (hrole : d'.role = d.role) (htook : Took f d d') (hh : ∀ x, Hears f d d' x)
    (hself : ∀ x fin data, f = .stream x fin data → d'.seat x = .passed → d.seat x = .passed)
    (hreset : ∀ x code, f = .reset x code → x.initiator = c.role → c.Overtaken x) :
    Ordered c d' o := by
  have hguest {x : StreamId} (hx : x.initiator = c.role) : x.initiator ≠ d.role := by
    rw [hx,hr]
    exact (Role.other_ne _).symm
  have horigin {x : StreamId} (hx : x.initiator = c.role) (hu : d'.seat x = .unseen) :=
    ((hh x).origin hs (by simpa [site] using hguest hx)).1 hu
  refine ⟨?_,?_⟩
  · intro p x fin data q ho hx hu y hy hd hl hu'
    obtain ⟨hy',hnot⟩ := horigin hy hu'
    rcases h.order (f :: p) x fin data q (by rw [ho]; rfl) hx (horigin hx hu).1 y hy hd hl hy' with
      ⟨fin',data',hm⟩ | hov
    · rcases List.mem_cons.mp hm with rfl | hm
      · cases hnot rfl
      · exact .inl ⟨fin',data',hm⟩
    · exact .inr hov
  · intro y hy hp
    cases hold : d.seat y with
    | passed => exact h.passed y hy hold
    | taken s =>
      obtain ⟨s',hs'⟩ := (hh y).taken hold
      cases hs'.symm.trans hp
    | unseen =>
      -- the frame is about a stream that is no earlier
      have hbefore := (nextRemote_of_seat (hguest hy)).1 hold
      have hafter := (nextRemote_of_seat (hrole ▸ hguest hy)).2 hp
      rcases htook.nextRemote y.direction with hx | ⟨x,hid,hk,hx,hd,hn⟩
      · omega
      have hle : y.sequence.toNat ≤ x.sequence.toNat := by omega
      have hopener : x.initiator = c.role := by
        have := Role.eq_other_of_ne hx
        rwa [hr,Role.other_other] at this
      cases f with
      | ping | pong | settings | close => cases hid
      | windowUpdate => exact absurd rfl hk
      | reset x' code =>
        cases hid
        exact (hreset x code rfl hopener).earlier (hopener.trans hy.symm) hd hle
      | stream x' fin data =>
        cases hid
        have hunseen : d.seat x = .unseen := hs.seat_beyond hx (by rw [hd]; omega)
        rcases Nat.lt_or_eq_of_le hle with hlt | heq
        · rcases h.order [] x fin data o rfl hopener hunseen y hy hd.symm hlt hold with
            ⟨_,_,hm⟩ | hov
          · cases hm
          · exact hov
        · obtain rfl : y = x := by
            rw [← StreamId.ofParts_self y,← StreamId.ofParts_self x,heq,hd,hopener,hy]
          cases (hself y fin data rfl hp).symm.trans hunseen

/-- Whether every stream that this end opened has sent something, but for the latest ones. -/
def Voiced (c : Connection) : Prop :=
  ∀ (i : Nat) (s : Stream) (id : StreamId), c.streams[i]? = some s → s.id = some id →
    s.remote = false → id.sequence.toNat + 1 < c.nextLocal.get id.direction → s.ledger.sent ≠ []

theorem Spoken.voiced (h : c.Spoken) : c.Voiced :=
  fun _ _ _ hi hid hr _ => h hi (by simp [hid]) hr

theorem Voiced.grown (h : c.Voiced) (hg : Grown c c') (hn : c'.nextLocal = c.nextLocal) :
    c'.Voiced := by
  intro i s' id hi hid hr hl
  cases hi' : c.streams[i]? with
  | none =>
    rw [hg.new hi' hi (by simp [hid])] at hr
    cases hr
  | some s =>
    obtain ⟨t,ht,hgrows⟩ := hg.kept hi'
    cases hi.symm.trans ht
    exact hgrows.sent (h i s id hi' (hgrows.id ▸ hid) (hgrows.remote ▸ hr) (hn ▸ hl))

theorem Start.voiced (hs : Start i c c') (h : c.Spoken) (hn : c'.Numbered) : c'.Voiced := by
  obtain ⟨hi,hid,-,-,-⟩ := hs
  rename_i s
  intro j t id hj ht hr hl
  by_cases hji : j = i
  · subst hji
    have hlt := (List.getElem?_eq_some_iff.mp hi).1
    simp only [started,List.getElem?_set_self hlt] at hj
    cases hj
    cases ht
    have hspan : c.nextLocal.get s.direction < StreamId.span := by
      have := hn s.direction
      simp only [started,PerDirection.get_set,if_true] at this
      omega
    rw [StreamId.sequence_ofParts _ _ _ hspan,StreamId.direction_ofParts _ _ _ hspan] at hl
    simp only [started,PerDirection.get_set,if_true] at hl
    omega
  · refine h (i := j) (s := t) ?_ (by simp [ht]) hr
    simpa [started,List.getElem?_set_ne (Ne.symm hji)] using hj

theorem Bond.ordered_send (h : Bond c w d v) (ho : Ordered c d (c.outline w))
    (hp : c.phase = .active) (hv : c.Voiced) (hi : c.streams[i]? = some s) (hid : s.id = some id)
    (fin : Bool) (data : Bytes) : Ordered c d (c.outline w ++ [.stream id fin data]) := by
  have hsound := h.near.sound
  refine ⟨ho.order.append ?_,ho.passed⟩
  rintro x fin' data' ⟨⟩ hx hu y hy hd hl hu'
  have hheld := hsound.held hi hid
  have hbelow := hheld.below
  rw [hheld.remote,hx] at hbelow
  simp only [ne_eq,not_true_eq_false,decide_false,Bool.false_eq_true,if_false] at hbelow
  obtain ⟨j,t,hj,ht⟩ := hsound.complete (hl.trans (hd ▸ hbelow))
  rw [← hy,StreamId.ofParts_self] at ht
  have hseat := (seat_eq_taken_iff hsound.toRegistry).mpr ⟨ht,j,hj⟩
  cases hr : t.resetCode with
  | some code => exact .inr (hsound.overtaken hseat (by simp [hr]))
  | none =>
    have hsent := hv j t y hj ht (by rw [(hsound.held hj ht).remote,hy]; simp) (by rw [hd]; omega)
    exact .inl (h.not_first hseat (.inr ⟨hp,hr⟩) hsent hu')

/-- What an active end does on its own account keeps its streams in order. -/
theorem Bond.ordered_move (h : Bond c w d v) (ho : Ordered c d (c.outline w)) (hv : c.Voiced)
    (hm : Move c c') (hp : c'.phase = .active) : Ordered c' d (c'.outline w) := by
  have hsound := h.near.sound
  have hr : Resets c c' := (hm.grown hsound).resets
  have hrole := hm.site.role
  cases hm.enters hsound with
  | requeue hq => exact ho.requeue hsound hrole hr hq
  | @append f owner hd hk _ _ queued =>
    have hout : c'.outline w = c.outline w ++ [f] := by simp [outline,hk,hd]
    rw [hout]
    refine Ordered.of_resets ?_ hrole hr
    rcases queued with ⟨code,rfl,-⟩ | ⟨id,fin,data,i,s,rfl,hi,hid,-⟩
    · exact ⟨ho.order.append (by simp),ho.passed⟩
    · exact h.ordered_send ho (hm.active hp) hv hi hid fin data
  | discard _ _ _ haborted => cases hp.symm.trans haborted.1

theorem Faces.overtaken {code : UInt64} (h : Faces c (.reset id code :: w) d v)
    (hr : id.initiator = c.role) : c.Overtaken id := by
  have hway := h.way id
  rw [trail_cons_of_eq rfl] at hway
  have hreset := hway.said code List.mem_cons_self
  cases hs : c.seat id with
  | unseen =>
    rw [hs] at hreset
    exact hreset.elim
  | passed => exact absurd hs ((h.sound.part id).opened (by simpa [site] using hr))
  | taken s =>
    rw [hs] at hreset
    exact h.sound.overtaken hs hreset.1

theorem Faces.ordered_idle (h : Faces c w d v) (hs : c.streams = []) :
    Ordered c d (c.outline w) := by
  have hseat {x : StreamId} (hx : x.initiator = c.role) : c.seat x = .unseen := by
    simp [seat,record,hs,hx]
  refine ⟨?_,?_⟩
  · intro p x fin data q ho hx
    have hm : .stream x fin data ∈ c.trail x w := mem_outline (by rw [ho]; simp) rfl
    rw [(h.way x).silent (hseat hx)] at hm
    cases hm
  · intro y hy hp
    rw [(h.way y).dormant (by simpa [site] using hy) (hseat hy)] at hp
    cases hp

/-- Whether a connection was never closed by either end. -/
def Young (c : Connection) : Prop := c.phase = .connecting ∨ c.phase = .active

theorem Fades.young (h : c.Fades c') (hy : c'.Young) : c.Young := by
  have hp := h.phase
  unfold Young at hy ⊢
  cases hx : c.phase <;> rcases hy with hy | hy <;> simp_all [Phase.Fades]

end Multiplex.Connection
