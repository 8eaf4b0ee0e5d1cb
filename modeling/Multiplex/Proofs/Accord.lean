import Multiplex.Proofs.Journal
import Multiplex.Proofs.Order

/-!
Two connections that face each other for as long as they live: data finds a place, streams come up
in order, and a violation is put down to a stream that its own end has reset.
-/

namespace Multiplex

namespace Connection

variable {c c' d : Connection} {v w : List Frame} {x : Violation} {f : Frame} {i size : Nat}

theorem Grown.spoken (h : Grown c c') (hs : c.Spoken) : c'.Spoken := by
  intro i s' hi hid hr
  cases hi' : c.streams[i]? with
  | none =>
    cases (h.new hi' hi hid).symm.trans hr
  | some s =>
    obtain ⟨t,ht,hg⟩ := h.kept hi'
    cases hi.symm.trans ht
    exact hg.sent (hs hi' (hg.id ▸ hid) (hg.remote ▸ hr))

/-- Whether a violation that `c` has met is put down to a stream that its peer `d` opened and
reset. -/
def Blamed (c d : Connection) : Prop :=
  ∀ x, c.error = some (.protocolViolation x) →
    ∃ id, x = .beyondLimit id (c.options.maxStreams id.direction) ∧ id.initiator ≠ c.role ∧
      ∃ (i : Nat) (s : Stream), d.streams[i]? = some s ∧ s.id = some id ∧ s.resetCode.isSome

theorem Blamed.of_resets {d d' : Connection} (h : Blamed c d) (hr : Resets d d') : Blamed c d' := by
  intro x hx
  obtain ⟨id,he,hid,i,s,hi,hsid,hs⟩ := h x hx
  obtain ⟨s',hs'⟩ := hr hi hsid hs
  exact ⟨id,he,hid,i,s',hs'⟩

theorem Blamed.of_error (h : Blamed c d) (ho : c'.options = c.options) (hr : c'.role = c.role)
    (he : ∀ x, c'.error = some (.protocolViolation x) → c.error = some (.protocolViolation x)) :
    Blamed c' d := by
  intro x hx
  rw [ho,hr]
  exact h x (he x hx)

theorem Move.error (hm : Move c c') (hx : c'.error = some (.protocolViolation x)) :
    c.error = some (.protocolViolation x) := by
  rcases hm.wears.error with he | ⟨-,-,e,he,blameless,-⟩
  · exact he ▸ hx
  · rw [he] at hx
    exact (blameless x (Option.some.inj hx)).elim

/-- One end of a pact: it faces its peer, its streams find places there and come up in order, and
the violations it has met are put down to its peer. -/
structure Stance (c : Connection) (w : List Frame) (d : Connection) (v : List Frame) : Prop
    extends Faces c w d v where
  slots : Slots c.role d (c.outline w)
  blamed : Blamed c d
  ordered : c.phase = .active → d.Young → Ordered c d (c.outline w)

structure Pact (c : Connection) (w : List Frame) (d : Connection) (v : List Frame) : Prop where
  near : Stance c w d v
  far : Stance d v c w

theorem Pact.symm (h : Pact c w d v) : Pact d v c w :=
  ⟨h.far,h.near⟩

theorem Pact.bond (h : Pact c w d v) : Bond c w d v :=
  ⟨h.near.toFaces,h.far.toFaces⟩

theorem Bond.pact (h : Bond c w d v) (hslots : Slots c.role d (c.outline w))
    (hslots' : Slots d.role c (d.outline v)) (hb : Blamed c d) (hb' : Blamed d c)
    (ho : c.phase = .active → d.Young → Ordered c d (c.outline w))
    (ho' : d.phase = .active → c.Young → Ordered d c (d.outline v)) : Pact c w d v :=
  ⟨⟨h.near,hslots,hb,ho⟩,⟨h.far,hslots',hb',ho'⟩⟩

theorem Faces.role_ne (h : Faces c w d v) : d.role ≠ c.role := by
  rw [h.role]
  cases c.role <;> decide

theorem Pact.act (h : Pact c w d v) (ha : Acts c c') (hf : c.Fades c')
    (hslots : Slots c.role d (c'.outline w)) (hr : Resets c c') (hb : Blamed c' d)
    (ho : c'.phase = .active → d.Young → Ordered c' d (c'.outline w)) : Pact c' w d v := by
  refine (h.bond.act ha).pact (by rw [ha.role]; exact hslots) ?_ hb (h.far.blamed.of_resets hr) ho
    fun hp hy => (h.far.ordered hp (hf.young hy)).watch ha
  exact h.far.slots.free (ha.frees h.near.sound h.near.role_ne)

theorem Pact.move (h : Pact c w d v) (ha : c.phase = .active ∨ c.Spoken) (hv : c.Voiced)
    (hm : Move c c') : Pact c' w d v := by
  have hacts := hm.acts h.near.sound
  refine h.act hacts hm.moves.fades (h.bond.slots_move h.near.slots ha hm)
    (hm.grown h.near.sound).resets ?_ ?_
  · exact h.near.blamed.of_error hacts.options hacts.role fun x hx => hm.error hx
  · exact fun hp hy => h.bond.ordered_move (h.near.ordered (hm.active hp) hy) hv hm hp

theorem Pact.moves (h : Pact c w d v) (hv : c.Voiced) (hm : Moves c c') (hp : c'.phase = .active) :
    Pact c' w d v := by
  induction hm with
  | refl => exact h
  | tail hm hstep ih =>
    have hactive := hstep.active hp
    have hvoiced := hv.grown (Moves.grown hm h.near.sound) (Moves.kept hm).nextLocal
    exact (ih hactive).move (.inl hactive) hvoiced hstep

theorem Pact.start (h : Pact c w d v) (hs : Start i c c') (hn : c'.Numbered) : Pact c' w d v := by
  refine h.act (hs.acts h.near.sound hn) hs.fades ?_ hs.lasts.resets ?_ ?_
  · cases hs
    exact h.near.slots
  · cases hs
    exact h.near.blamed
  · intro hp hy
    have hr : Resets c c' := hs.lasts.resets
    cases hs
    exact (h.near.ordered hp hy).of_resets rfl hr

/-- What one end has written is what the other has handled, and what is on the way. -/
structure Carried (c : Connection) (w : List Frame) (d : Connection) (v : List Frame) : Prop where
  forth : c.journal.wire = d.journal.hearing ++ w
  back : d.journal.wire = c.journal.hearing ++ v

theorem Carried.symm (h : Carried c w d v) : Carried d v c w :=
  ⟨h.back,h.forth⟩

theorem Carried.enters {heard : Option Frame} (h : Carried c w d v) (he : Enters heard c c') :
    Carried c' w d v := by
  obtain ⟨ht,hh⟩ := he.passage
  refine ⟨?_,?_⟩
  · rw [Journal.wire,ht]
    exact h.forth
  · rw [Journal.hearing,hh]
    exact h.back

theorem Carried.moves (h : Carried c w d v) (hs : c.Sound) (hm : Moves c c') :
    Carried c' w d v := by
  induction hm with
  | refl => exact h
  | tail hm hstep ih => exact ih.enters (hstep.enters (Moves.sound hm hs))

theorem Carried.hear (h : Carried c w d (f :: v)) (size : Nat) : Carried (c.hear f size) w d v := by
  refine ⟨h.forth,?_⟩
  rw [h.back,Connection.hear,Journal.hearing_noteHeard,List.append_assoc]
  rfl

theorem Carried.abort (h : Carried c w d v) (e : Failure) : Carried (c.abort e) w d v := by
  by_cases hp : c.phase = .closed
  · rwa [Connection.abort,if_pos hp]
  · exact h.enters (enters_abort e hp)

/-- A pact in which every stream that was started has sent something. -/
structure Accord (c : Connection) (w : List Frame) (d : Connection) (v : List Frame) : Prop
    extends Pact c w d v, Carried c w d v where
  spoken : c.Spoken
  answered : d.Spoken

theorem Accord.symm (h : Accord c w d v) : Accord d v c w :=
  ⟨h.toPact.symm,h.toCarried.symm,h.answered,h.spoken⟩

theorem Accord.sound (h : Accord c w d v) : c.Sound :=
  h.near.sound

theorem Accord.moves (h : Accord c w d v) (hm : Moves c c') : Accord c' w d v := by
  induction hm with
  | refl => exact h
  | tail hm hstep ih =>
    exact ⟨ih.toPact.move (.inr ih.spoken) (Spoken.voiced ih.spoken) hstep,
      ih.toCarried.enters (hstep.enters ih.sound),(hstep.grown ih.sound).spoken ih.spoken,
      h.answered⟩

theorem Speaks.spoken {c₁ c₂ : Connection} (h : c.Spoken) (hs : Start i c c₁) (hk : Speaks i c₁ c₂)
    (h₁ : c₁.Sound) : c₂.Spoken := by
  obtain ⟨hm,-,t,ht,hsent⟩ := hk
  intro j s hj hid hr
  by_cases hji : j = i
  · subst hji
    cases ht.symm.trans hj
    exact hsent
  · cases hj₁ : c₁.streams[j]? with
    | none =>
      cases ((hm.grown h₁).new hj₁ hj hid).symm.trans hr
    | some s₁ =>
      obtain ⟨s',hs',hg⟩ := (hm.grown h₁).kept hj₁
      cases hj.symm.trans hs'
      have hj₀ : c.streams[j]? = some s₁ := by
        cases hs
        rw [← hj₁]
        exact (List.getElem?_set_ne (Ne.symm hji)).symm
      exact hg.sent (h hj₀ (hg.id ▸ hid) (hg.remote ▸ hr))

theorem Accord.evolves {ready : Prop} (h : Accord c w d v) (he : Evolves ready c c') (hr : ready)
    (hn : c'.Numbered) : Accord c' w d v := by
  rcases he with hm | ⟨i,c₁,hs,hm₁,hx⟩
  · exact h.moves hm
  · -- no stream starts after this one
    have hn₁ : c₁.Numbered := by
      intro e
      rw [← hm₁.kept.nextLocal]
      exact hn e
    obtain ⟨c₂,hk,hm⟩ := hx hr
    have h₁ := h.toPact.start hs hn₁
    have hc₁ : Carried c₁ w d v := by
      cases hs
      exact ⟨h.forth,h.back⟩
    have h₂ : Accord c₂ w d v := ⟨h₁.moves (hs.voiced h.spoken hn₁) hk.1 hk.2.1,
      hc₁.moves h₁.near.sound hk.1,hk.spoken h.spoken hs h₁.near.sound,h.answered⟩
    exact h₂.moves hm

theorem Pact.noted (h : Pact c w d v) (metrics : Metrics) (writesShut readEnded : Bool)
    (journal : Journal) : Pact { c with metrics, writesShut, readEnded, journal } w d v := by
  have hn := h.near
  have hf := h.far
  have hs : ({ c with metrics, writesShut, readEnded, journal } : Connection).Sound :=
    hn.sound.noted metrics _ _ _ writesShut readEnded journal
  have hbond : Bond { c with metrics, writesShut, readEnded, journal } w d v :=
    ⟨{ hn with sound := hs },
      { hf with }⟩
  refine hbond.pact hn.slots (hf.slots.free (.of_seat rfl fun _ => rfl)) hn.blamed hf.blamed ?_ ?_
  · exact fun hp hy => (hn.ordered hp hy).of_resets rfl (Grown.of_eq rfl).resets
  · exact fun hp hy => (hf.ordered hp hy).of_seat fun _ => rfl

theorem Pact.hear (h : Pact c w d v) (f : Frame) (size : Nat) : Pact (c.hear f size) w d v :=
  h.noted _ _ _ _

theorem Accord.endReads (h : Accord c w d v) : Accord { c with readEnded := true } w d v :=
  ⟨h.toPact.noted _ _ _ _,⟨h.forth,h.back⟩,h.spoken,h.answered⟩

theorem Accord.shutOff (h : Accord c w d v) : Accord { c with writesShut := true } w d v :=
  ⟨h.toPact.noted _ _ _ _,⟨h.forth,h.back⟩,h.spoken,h.answered⟩

theorem Pact.take (h : Pact c w d (f :: v)) (ht : Take f c c') (hp : c.phase ≠ .connecting) :
    Pact c' w d v := by
  have hs := h.near.sound
  have hk := ht.kept
  have hg := ht.grown hs
  refine (h.bond.take ht hp).pact ?_ ?_ ?_ (h.far.blamed.of_resets hg.resets) ?_ ?_
  · rw [hk.role]
    exact h.bond.slots_take h.near.slots ht
  · exact h.far.slots.take hs h.near.role_ne hk.options (ht.hears hs hp)
  · exact h.near.blamed.of_error hk.options hk.role fun x hx => (ht.took hs).error ▸ hx
  · obtain ⟨u,keep,hq⟩ := ht.requeue hs
    exact fun hp' hy => (h.near.ordered ((ht.took hs).active hp') hy).requeue hs
      hk.role hg.resets hq
  · intro hp' hy
    have hyoung := ht.fades.young hy
    refine (h.far.ordered hp' hyoung).take hs h.far.role hk.role (ht.took hs) (ht.hears hs hp) ?_ ?_
    · rintro x fin data rfl hpassed
      exact ht.not_passed hs (hyoung.resolve_left hp) rfl hpassed
    · rintro x code rfl hr
      exact h.far.toFaces.overtaken hr

theorem Accord.take (h : Accord c w d (f :: v)) (ht : Take f (c.hear f size) c')
    (hp : c.phase ≠ .connecting) : Accord c' w d v := by
  have hs : (c.hear f size).Sound := h.sound.hear f size
  exact ⟨(h.toPact.hear f size).take ht hp,(h.toCarried.hear size).enters (ht.enters hs),
    (ht.grown hs).spoken h.spoken,h.answered⟩

theorem Pact.breach (h : Pact c w d (f :: v)) (hb : Breach x f c c') :
    Pact (c'.abort (.protocolViolation x)) w d v := by
  have hs := h.near.sound
  obtain ⟨id,code,s,rfl,hx,hfirst,rfl,hp,hd,hr⟩ := h.bond.blame h.far.slots hb
  have hp' : (c.reached id).phase ≠ .closed := by simp [reached,hp]
  have hbond := h.bond.overrun hfirst
  have hpact : Pact (c.reached id) w d v := by
    have hears := hears_reached hs hfirst
    refine hbond.pact h.near.slots ?_ h.near.blamed h.far.blamed ?_ ?_
    · exact h.far.slots.take hs h.near.role_ne rfl hears
    · exact fun hp hy => (h.near.ordered hp hy).of_resets rfl (Grown.of_eq rfl).resets
    · intro hp' _
      refine (h.far.ordered hp' (.inr hp)).take hs h.far.role rfl
        (took_reached hfirst) hears (by rintro _ _ _ ⟨⟩) ?_
      rintro x _ ⟨⟩ hr
      exact h.far.toFaces.overtaken hr
  have hs' := hbond.near.sound
  have hg := (hs'.fell_abort (.protocolViolation x) hp').grown
  refine hpact.act (hs'.acts_abort _ hp') (fades_abort _ _) ?_ hg.resets ?_ ?_
  · refine hpact.near.slots.cut ?_
    rw [abort_eq _ _ hp']
    simp [outline]
  · intro y hy
    rw [abort_eq _ _ hp'] at hy ⊢
    cases hy
    obtain ⟨hid,i,hi⟩ := (seat_eq_taken_iff h.far.sound.toRegistry).mp hd
    exact ⟨id,hx,hfirst.new.initiator,i,s,hi,hid,hr⟩
  · rw [abort_phase]
    rintro ⟨⟩

theorem Accord.breach (h : Accord c w d (f :: v)) (hb : Breach x f (c.hear f size) c') :
    Accord (c'.abort (.protocolViolation x)) w d v := by
  have hs : c'.Sound := hb.sound (h.sound.hear f size)
  refine ⟨(h.toPact.hear f size).breach hb,((h.toCarried.hear size).enters hb.enters).abort _,?_,
    h.answered⟩
  exact (hb.grown.trans (hs.grown_abort _)).spoken h.spoken

theorem Accord.ship {b : Batch} (h : Accord c w d v) (hb : c.takeBatch = (some b, c')) :
    Accord c' (w ++ b.frames.map (·.frame)) d v := by
  have hbond := h.bond.ship hb
  have ho := outline_takeBatch hb w
  obtain ⟨n,-,rfl⟩ := takeBatch_spec hb
  refine ⟨hbond.pact ?_ ?_ h.near.blamed h.far.blamed ?_ ?_,⟨?_,h.back⟩,h.spoken,h.answered⟩
  · rw [ho]
    exact h.near.slots
  · exact h.far.slots.free (.of_seat rfl fun _ => rfl)
  · rw [ho]
    exact fun hp hy => (h.near.ordered hp hy).of_resets rfl (Grown.of_eq rfl).resets
  · exact fun hp hy => (h.far.ordered hp hy).of_seat fun _ => rfl
  · rw [Journal.wire_noteTaken,h.forth,List.append_assoc]

theorem Accord.establish (h : Accord c w d v) (hp : c.phase = .connecting)
    (hv : d.options.settings.Valid) :
    Accord { c with peer := d.options.settings.heard, phase := .active } w d v := by
  have hbond := h.bond.establish hp hv
  refine ⟨hbond.pact h.near.slots (h.far.slots.free (.of_seat rfl fun _ => rfl)) h.near.blamed
    h.far.blamed ?_ ?_,⟨h.forth,h.back⟩,h.spoken,h.answered⟩
  · exact fun _ _ => hbond.near.ordered_idle (h.sound.unopened hp).1
  · exact fun hp' _ => (h.far.ordered hp' (.inl hp)).of_seat fun _ => rfl

theorem accord_fresh (role : Role) (own peer : Options) (codes codes' : CodeSpace) :
    Accord (fresh role own codes) [] (fresh role.other peer codes') [] := by
  have hblamed (role : Role) (own : Options) (codes : CodeSpace) (d : Connection) :
      Blamed (fresh role own codes) d := by
    intro x hx
    cases hx
  have hspoken (role : Role) (own : Options) (codes : CodeSpace) :
      (fresh role own codes).Spoken := by
    intro i s hi
    simp [fresh] at hi
  exact ⟨(bond_fresh role own peer codes codes').pact .nil .nil
    (hblamed _ _ _ _) (hblamed _ _ _ _) (by rintro ⟨⟩) (by rintro ⟨⟩),⟨rfl,rfl⟩,hspoken _ _ _,
    hspoken _ _ _⟩

theorem Accord.ready (h : Accord c w d v) : c.Ready := by
  refine ⟨?_,?_⟩
  · intro i s hi hid
    have hne : c.streams ≠ [] := by
      intro he
      rw [he] at hi
      cases hi
    obtain ⟨hpeer,hv⟩ := h.near.met (.inr hne)
    rw [(h.sound.idle hi hid).1.credit,hpeer]
    exact UInt64.pos_iff_ne_zero.mpr hv.1
  · intro hp
    obtain ⟨hpeer,hv⟩ := h.near.met (.inl hp)
    rw [hpeer]
    exact Nat.lt_of_lt_of_le (by decide) (UInt64.le_iff_toNat_le.mp hv.2.2)

end Connection

end Multiplex
