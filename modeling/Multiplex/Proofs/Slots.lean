import Multiplex.Proofs.Exchange

/-!
Limits on streams. When the first data of a stream reaches an end, that end has a place for it; only
a RESET, which overtakes data, can come too early.
-/

namespace Multiplex.Connection

variable {data k o p u v w q : List Frame} {c c' d d' : Connection} {id x : StreamId} {role : Role}
  {f : Frame} {s : Stream} {ids : List StreamId} {keep : Frame → Bool} {i : Nat}
  {heard : Option Frame}

/-- Whether the connection `d` has nothing more to send on a stream. -/
def Answers (d : Connection) (id : StreamId) : Prop :=
  id.direction = .unidirectional ∨ ∃ s, d.seat id = .taken s ∧ s.finQueued = true

def Ends (d : Connection) (p : List Frame) (id : StreamId) : Prop :=
  (∃ code, .reset id code ∈ p) ∨ (∃ data, .stream id true data ∈ p) ∧ Answers d id

/-- Whether a stream has a place at the connection `d` after the frames `p`. -/
def Occupies (d : Connection) (p : List Frame) (id : StreamId) : Prop :=
  ((∃ s, d.seat id = .taken s ∧ s.released = false) ∨
    (d.seat id = .unseen ∧ ∃ fin data, .stream id fin data ∈ p)) ∧ ¬Ends d p id

/-- Different streams that have places beside the stream `id` of the end `role`. -/
structure Crowd (role : Role) (d : Connection) (p : List Frame) (id : StreamId)
    (ids : List StreamId) :
    Prop where
  distinct : ids.Nodup
  others : ∀ x ∈ ids, x ≠ id ∧ x.initiator = role ∧ x.direction = id.direction ∧ Occupies d p x

/-- Whether `P` holds of each stream of the end `role` and of the frames before its data. -/
def Preludes (role : Role) (P : List Frame → StreamId → Prop) (o : List Frame) : Prop :=
  ∀ p id fin data q, o = p ++ .stream id fin data :: q → id.initiator = role → P p id

/-- Whether `P` holds of each stream of the end `role` and of the frames before its first data. -/
def Debuts (role : Role) (P : List Frame → StreamId → Prop) : List Frame → Prop :=
  Preludes role fun p id => (∀ fin data, .stream id fin data ∉ p) → P p id

/-- Whether each stream of the end `role` will find a place at the connection `d` when its first
data comes, with the given frames on the way. -/
def Slots (role : Role) (d : Connection) : List Frame → Prop :=
  Debuts role fun p id => d.seat id = .unseen → ∀ ids, Crowd role d p id ids →
    ids.length < (d.options.maxStreams id.direction).toNat

theorem Answers.of_taken (h : Answers d id) (hs : d.seat id = .taken s) :
    id.direction = .unidirectional ∨ s.finQueued = true := by
  rcases h with h | ⟨t,ht,hq⟩
  · exact .inl h
  · cases hs.symm.trans ht
    exact .inr hq

theorem Answers.of_unseen (h : Answers d id) (hu : d.seat id = .unseen) :
    id.direction = .unidirectional := by
  rcases h with h | ⟨t,ht,-⟩
  · exact h
  · cases hu.symm.trans ht

theorem Ends.mono {p' : List Frame} (h : Ends d p id)
    (hp : ∀ g ∈ p, g.streamId = some id → g ∈ p') (ha : Answers d id → Answers d' id) :
    Ends d' p' id := by
  rcases h with ⟨code,hm⟩ | ⟨⟨data,hm⟩,h⟩
  · exact .inl ⟨code,hp _ hm rfl⟩
  · exact .inr ⟨⟨data,hp _ hm rfl⟩,ha h⟩

theorem Ends.lead (h : Ends d p id) (ha : Answers d id → Answers d' id) : Ends d' p id :=
  h.mono (fun _ hm _ => hm) ha

theorem Ends.cons (h : Ends d (f :: p) id) : (∃ code, f = .reset id code) ∨
    ((∃ data, f = .stream id true data) ∧ Answers d id) ∨ Ends d p id := by
  rcases h with ⟨code,hm⟩ | ⟨⟨data,hm⟩,h⟩ <;> rcases List.mem_cons.mp hm with hm | hm
  · exact .inl ⟨code,hm.symm⟩
  · exact .inr (.inr (.inl ⟨code,hm⟩))
  · exact .inr (.inl ⟨⟨data,hm.symm⟩,h⟩)
  · exact .inr (.inr (.inr ⟨⟨data,hm⟩,h⟩))

theorem Crowd.mono {p' : List Frame} (h : Crowd role d' p' id ids)
    (hx : ∀ x, x ≠ id → x.initiator = role → Occupies d' p' x → Occupies d p x) :
    Crowd role d p id ids :=
  ⟨h.distinct,fun x hm => by
    obtain ⟨h₁,h₂,h₃,h₄⟩ := h.others x hm
    exact ⟨h₁,h₂,h₃,hx x h₁ h₂ h₄⟩⟩

/-- How the seats of a receiving end can change so that places are only freed. -/
structure Frees (role : Role) (d d' : Connection) : Prop where
  options : d'.options = d.options
  unseen : ∀ x, x.initiator = role → d'.seat x = .unseen → d.seat x = .unseen
  live : ∀ x s', x.initiator = role → d'.seat x = .taken s' → s'.released = false →
    ∃ s, d.seat x = .taken s ∧ s.released = false ∧ (s.finQueued = true → s'.finQueued = true)

theorem Frees.of_seat (ho : d'.options = d.options) (hs : ∀ x, d'.seat x = d.seat x) :
    Frees role d d' := by
  refine ⟨ho,fun x _ hx => hs x ▸ hx,fun x s' _ hx hl => ⟨s',hs x ▸ hx,hl,id⟩⟩

theorem Slots.free (h : Slots role d o) (hf : Frees role d d') : Slots role d' o := by
  intro p id fin data q ho hr hfirst hu ids hc
  rw [hf.options]
  refine h p id fin data q ho hr hfirst (hf.unseen id hr hu) ids (hc.mono ?_)
  rintro x - hx ⟨⟨s',hs',hl'⟩ | ⟨hun,hfr⟩,hne⟩
  · obtain ⟨s,hs,hl,hq⟩ := hf.live x s' hx hs' hl'
    refine ⟨.inl ⟨s,hs,hl⟩,fun he => hne (he.lead fun ha => ?_)⟩
    exact (ha.of_taken hs).imp_right fun hx => ⟨s',hs',hq hx⟩
  · have hun' := hf.unseen x hx hun
    exact ⟨.inr ⟨hun',hfr⟩,fun he => hne (he.lead fun ha => .inl (ha.of_unseen hun'))⟩

/-- Where data of a stream is among frames of which only those behind `k` may be data. -/
theorem stream_position (hk : f ∉ k) (ho : w ++ (k ++ data) = p ++ f :: q) :
    (∃ r, w = p ++ f :: r) ∨ ∃ a, p = w ++ (k ++ a) ∧ data = a ++ f :: q := by
  have hdata {a : List Frame} (ha : k ++ data = a ++ f :: q) :
      ∃ b, a = k ++ b ∧ data = b ++ f :: q := by
    rcases List.append_eq_append_iff.mp ha with ⟨b,h₁,h₂⟩ | ⟨b,h₁,h₂⟩
    · exact ⟨b,h₁,h₂⟩
    · cases b with
      | nil => exact ⟨[],by simpa using h₁.symm,by simpa using h₂.symm⟩
      | cons g b =>
        cases h₂
        exact absurd (by rw [h₁]; simp) hk
  rcases List.append_eq_append_iff.mp ho with ⟨a,rfl,h₂⟩ | ⟨b,h₁,h₂⟩
  · obtain ⟨b,rfl,hb⟩ := hdata h₂
    exact .inr ⟨b,rfl,hb⟩
  · cases b with
    | nil =>
      obtain ⟨b,hb,hq⟩ := hdata (a := []) (by simpa using h₂.symm)
      refine .inr ⟨b,?_,hq⟩
      rw [← hb]
      simpa using h₁.symm
    | cons g b =>
      cases h₂
      exact .inl ⟨b,h₁⟩

theorem Occupies.listens (h : Occupies d p id) : (d.seat id).listens = true := by
  rcases h.1 with ⟨s,hs,hl⟩ | ⟨hs,-⟩
  · simp [hs,Seat.listens,Seat.inflow,hl]
  · rw [hs]
    rfl

theorem requeue_position {u : List Frame} (hk : f ∉ k ++ u)
    (ho : w ++ (k ++ u ++ data.filter keep) = p ++ f :: q) :
    (∃ r, w = p ++ f :: r) ∨
      ∃ l r, data = l ++ f :: r ∧ p = w ++ (k ++ u ++ l.filter keep) ∧ keep f = true := by
  refine (stream_position hk ho).imp_right ?_
  rintro ⟨a,rfl,hd⟩
  obtain ⟨l₁,l₂,rfl,rfl,hl₂⟩ := List.filter_eq_append_iff.mp hd
  obtain ⟨m₁,m₂,rfl,hm₁,hkept,-⟩ := List.filter_eq_cons_iff.mp hl₂
  refine ⟨l₁ ++ m₁,m₂,by simp,?_,hkept⟩
  rw [List.filter_append,List.filter_eq_nil_iff.mpr hm₁,List.append_nil]

theorem Sound.no_stream_in_control (h : c.Sound) (id : StreamId) (fin : Bool) (data : Bytes) :
    .stream id fin data ∉ c.controlQueue :=
  fun hx => (h.control _ hx).elim

section Preludes

variable {P : List Frame → StreamId → Prop}

theorem Preludes.nil : Preludes role P [] := by
  intro p id fin data q ho
  simp at ho

/-- Nothing but data takes part, so a frame of another kind at the end changes nothing. -/
theorem Preludes.append (h : Preludes role P o)
    (hlast : ∀ id fin data, f = .stream id fin data → id.initiator = role → P o id) :
    Preludes role P (o ++ [f]) := by
  intro p id fin data q ho hr
  rcases List.eq_nil_or_concat q with rfl | ⟨q',g,rfl⟩
  · obtain ⟨rfl,hf⟩ := List.append_inj' ho rfl
    exact hlast id fin data (List.singleton_inj.mp hf) hr
  · rw [List.concat_eq_append,← List.cons_append,← List.append_assoc] at ho
    exact h p id fin data q' (List.append_inj' ho rfl).1 hr

theorem Preludes.cut {o o' : List Frame} (h : Preludes role P o) (ho : o' <+: o) :
    Preludes role P o' := by
  obtain ⟨r,rfl⟩ := ho
  intro p id fin data q hx
  exact h p id fin data (q ++ r) (by rw [hx]; simp)

theorem Preludes.requeue (h : Preludes role P (c.outline w)) (hs : c.Sound)
    (hq : Requeues heard c c' u keep)
    (hl : ∀ l id, (∀ fin bs, keep (.stream id fin bs) = true) → P (w ++ (c.controlQueue ++ l)) id →
      P (w ++ (c.controlQueue ++ u ++ l.filter keep)) id) : Preludes role P (c'.outline w) := by
  intro p id fin bs q ho hr
  rw [outline,hq.control,hq.frames] at ho
  rcases requeue_position (by simp [hs.no_stream_in_control,hq.no_stream]) ho with
    ⟨r,hw⟩ | ⟨l,r,hd,rfl,hkept⟩
  · exact h p id fin bs (r ++ (c.controlQueue ++ c.dataQueue.map (·.frame)))
      (by rw [outline,hw]; simp) hr
  · -- the same place in the data as it was
    refine hl l id (fun fin' bs' => ?_) (h _ id fin bs r (by simp [outline,hd]) hr)
    by_contra hy
    obtain ⟨_,_,⟨⟩,-,hall,-⟩ := hq.reset _ (Bool.eq_false_of_not_eq_true hy)
    cases (hall _ rfl).symm.trans hkept

theorem Debuts.requeue (h : Debuts role P (c.outline w)) (hs : c.Sound)
    (hq : Requeues heard c c' u keep)
    (hl : ∀ l id, P (w ++ (c.controlQueue ++ l)) id →
      P (w ++ (c.controlQueue ++ u ++ l.filter keep)) id) :
    Debuts role P (c'.outline w) := by
  refine Preludes.requeue h hs hq
    fun l id hkeep hP hfirst => hl l id (hP fun fin bs hx => hfirst fin bs ?_)
  simp only [List.mem_append,hs.no_stream_in_control,false_or] at hx
  rcases hx with hx | hx
  · simp [hx]
  · simp [hx,hkeep]

end Preludes

/-- Data is taken back only of streams that have no place. -/
theorem Slots.requeue (h : Slots role d (c.outline w)) (hs : c.Sound)
    (hq : Requeues heard c c' u keep)
    (hp : ∀ id code, heard = some (.reset id code) → (d.seat id).listens = false) :
    Slots role d (c'.outline w) := by
  refine Debuts.requeue h hs hq fun l id hl hseat ids hc => hl hseat ids (hc.mono ?_)
  rintro x - - hx
  refine ⟨hx.1.imp_right ?_,fun he => hx.2 (he.mono (fun f hm hf => ?_) fun ha => ha)⟩
  · rintro ⟨hun,fin,bs,hm⟩
    simp only [List.mem_append,List.mem_filter,hq.no_stream,or_false] at hm
    refine ⟨hun,fin,bs,?_⟩
    simp only [List.mem_append]
    exact hm.imp_right fun hm => hm.imp_right And.left
  · simp only [List.mem_append,List.mem_filter] at hm ⊢
    rcases hm with hm | hm | hm
    · exact .inl hm
    · exact .inr (.inl (.inl hm))
    · by_cases hy : keep f = true
      · exact .inr (.inr ⟨hm,hy⟩)
      · exfalso
        obtain ⟨id',code,hid',hz,-⟩ := hq.reset f (Bool.eq_false_of_not_eq_true hy)
        cases hid'.symm.trans hf
        rcases hz with hz | hz
        · exact hx.2 (.inl ⟨code,by simp [hz]⟩)
        · cases hx.listens.symm.trans (hp _ code hz)

/-- What an end does on its own account only frees places of the streams of its peer. -/
theorem Acts.frees (ha : Acts d d') (h : d.Sound) (hr : role ≠ d.role) : Frees role d d' := by
  have hguest {x : StreamId} (hx : x.initiator = role) : (d.site x).opener = false := by
    simpa [site,hx] using hr
  refine ⟨ha.options,?_,?_⟩
  · intro x hx hu
    rcases ha.turns x with he | hs
    · exact (congrArg Part.seat he).symm.trans hu
    · have hpart : (d'.part x).seat = .unseen := hu
      change (d.part x).seat = .unseen
      generalize d.part x = p at hs
      generalize d'.part x = p' at hs hpart
      cases hs with
      | clear => exact hpart
      | start | tend | send | finish | reset | mark | fail => cases hpart
  · intro x s' hx hs' hl
    rcases ha.turns x with he | hs
    · exact ⟨s',(congrArg Part.seat he).symm.trans hs',hl,id⟩
    · have hpart : (d'.part x).seat = .taken s' := hs'
      have hp := h.part x
      change ∃ s, (d.part x).seat = .taken s ∧ _
      generalize d.part x = p at hs hp
      generalize d'.part x = p' at hs hpart
      cases hs with
      | start opener =>
        cases (hguest hx).symm.trans opener
      | @tend s _ _ _ _ ht =>
        cases hpart
        exact ⟨s,rfl,ht.agrees.released ▸ hl,fun hq => ht.agrees.finQueued ▸ hq⟩
      | @send s data =>
        cases hpart
        exact ⟨s,rfl,hl,id⟩
      | @finish s _ _ hw =>
        cases hpart
        refine ⟨s,rfl,(hp.sound s rfl).live hw,fun _ => ?_⟩
        rw [Stream.settle_agrees]
        rfl
      | @reset s code =>
        cases hpart
        rw [Stream.settle_markReset] at hl
        cases hl
      | @mark s _ _ _ _ spent =>
        cases hpart
        cases (show (s.markReset _).released = true from spent).symm.trans hl
      | @fail s _ _ _ _ _ _ hf =>
        obtain ⟨_,_,_,rfl,-,-⟩ := hf
        cases hpart
        cases hl
      | clear _ vacant => exact absurd hpart (vacant s')

theorem Receives.ends {x : Site} {s' : Stream} {data : Bytes} {update : Option Frame}
    (hr : s.Receives x.options.window s' true data update) (hl : s'.released = false)
    (hd : s.direction = x.id.direction) (hm : s.remote = true) :
    x.id.direction ≠ .unidirectional ∧ s.finQueued = false := by
  have hdone := hr.released
  rw [hl] at hdone
  have hrd : s'.remoteDone = true := by simp [Stream.remoteDone,hr.finReceived]
  have hld : s'.localDone = false := by simpa [hrd] using hdone.symm
  simp only [Stream.localDone,Stream.hasWriteSide,hr.direction,hr.remote,hd,hm,Bool.or_eq_false_iff,
    Bool.not_eq_false'] at hld
  refine ⟨?_,hr.finQueued ▸ hld.1.2⟩
  intro hx
  rw [hx] at hld
  simp at hld

/-- Where a stream of the peer comes from that is unseen or in use after a frame. -/
theorem Hears.origin (hh : Hears f d d' x) (h : d.Sound) (hg : (d.site x).opener = false) :
    (d'.seat x = .unseen → d.seat x = .unseen ∧ (f.streamId = some x → f.kind = .windowUpdate)) ∧
    ∀ s', d'.seat x = .taken s' → s'.released = false →
      (∃ s, d.seat x = .taken s ∧ s.released = false ∧ (s.finQueued = true → s'.finQueued = true) ∧
        (∀ code, f ≠ .reset x code) ∧ ∀ data, f = .stream x true data →
          x.direction ≠ .unidirectional ∧ s.finQueued = false) ∨
      (d.seat x = .unseen ∧ ∃ fin data, f = .stream x fin data ∧
        (fin = true → x.direction ≠ .unidirectional)) := by
  have hpart : (d'.part x).seat = d'.seat x := rfl
  have hold : (d.part x).seat = d.seat x := rfl
  unfold Hears at hh
  split at hh
  · rename_i hid
    obtain ⟨m,hm,ht⟩ := hh
    have hp := h.part x
    have hm' : m.Sound (d.site x) := by
      rcases hm with rfl | ⟨-,hm⟩
      · exact hp
      · exact hm.sound hp
    rw [← hpart,← hold]
    generalize d'.part x = p' at ht
    cases ht with
    | @data s s' fin data update k e reads hr last =>
      have hrem : s.remote = true := by simpa [hg] using hm'.remote s rfl
      refine ⟨by rintro ⟨⟩,?_⟩
      rintro _ ⟨⟩ hl
      have hend (hx : fin = true) : x.direction ≠ .unidirectional ∧ s.finQueued = false := by
        subst hx
        exact Receives.ends hr hl (hm'.direction s rfl) hrem
      rcases hm with hm | ⟨-,hm⟩
      · rw [← hm]
        refine .inl ⟨s,rfl,hr.live,fun hq => hr.finQueued ▸ hq,by simp,?_⟩
        rintro _ hx
        cases hx
        exact hend rfl
      · exact .inr ⟨hm.seat.1,fin,data,rfl,fun hx => (hend hx).1⟩
    | @grant s n k e live =>
      refine ⟨by rintro ⟨⟩,?_⟩
      rintro _ ⟨⟩ hl
      rcases hm with hm | ⟨hk,-⟩
      · rw [← hm]
        exact .inl ⟨s,rfl,live,id,by simp,by simp⟩
      · exact absurd rfl hk
    | @reset s code wire unwritten changes k e live =>
      refine ⟨by rintro ⟨⟩,?_⟩
      rintro _ ⟨⟩ hl
      rw [Stream.settle_markReset] at hl
      cases hl
    | drop about deaf =>
      refine ⟨?_,?_⟩
      · intro hu
        rw [Part.Deaf,hu] at deaf
        rcases hm with rfl | ⟨-,hm⟩
        · refine ⟨hu,fun _ => deaf.resolve_left ?_⟩
          rw [hg]
          simp
        · exact absurd hu hm.seat.2
      · intro s' hs' hl
        rw [Part.Deaf,hs'] at deaf
        cases (show s'.released = true from deaf).symm.trans hl
  · rename_i hid
    rcases hh with he | ⟨-,hu,he⟩
    · have hs := congrArg Part.seat he
      rw [hpart,hold] at hs
      rw [hs]
      refine ⟨fun hu => ⟨hu,fun hx => absurd hx hid⟩,fun s' hs' hl => .inl ⟨s',hs',hl,id,?_,?_⟩⟩
      · rintro code rfl
        exact hid rfl
      · rintro data rfl
        exact absurd rfl hid
    · have hs : d'.seat x = .passed := congrArg Part.seat he
      rw [hs]
      exact ⟨by rintro ⟨⟩,by rintro _ ⟨⟩⟩

/-- A frame that is taken over frees places, or fills one that was kept for it. -/
theorem Slots.take (h : Slots role d (f :: o)) (hs : d.Sound) (hr : role ≠ d.role)
    (ho : d'.options = d.options) (hh : ∀ x, Hears f d d' x) : Slots role d' o := by
  have horigin {x : StreamId} (hx : x.initiator = role) :=
    (hh x).origin hs (by simpa [site,hx] using hr)
  intro p id fin data q hp hid hfirst hu ids hc
  obtain ⟨hun,hkind⟩ := (horigin hid).1 hu
  rw [ho]
  refine h (f :: p) id fin data q (by rw [hp]; rfl) hid ?_ hun ids (hc.mono ?_)
  · intro fin' data' hx
    rcases List.mem_cons.mp hx with rfl | hx
    · cases hkind rfl
    · exact hfirst fin' data' hx
  · rintro x - hx ⟨⟨s',hs',hl⟩ | ⟨hu',fin',data',hf⟩,hne⟩
    · rcases (horigin hx).2 s' hs' hl with ⟨s,hs₁,hl₁,hq,hnr,hfin⟩ | ⟨hun',fin',data',rfl,hfin⟩
      · refine ⟨.inl ⟨s,hs₁,hl₁⟩,fun he => ?_⟩
        rcases he.cons with ⟨code,hx⟩ | ⟨⟨data',hx⟩,ha⟩ | he
        · exact hnr code hx
        · obtain ⟨hd,hopen⟩ := hfin data' hx
          cases hopen.symm.trans ((ha.of_taken hs₁).resolve_left hd)
        · exact hne (he.lead fun ha => (ha.of_taken hs₁).imp_right fun hx => ⟨s',hs',hq hx⟩)
      · refine ⟨.inr ⟨hun',fin',data',by simp⟩,fun he => ?_⟩
        rcases he.cons with ⟨code,⟨⟩⟩ | ⟨⟨data₁,⟨⟩⟩,ha⟩ | he
        · exact hfin rfl (ha.of_unseen hun')
        · exact hne (he.lead fun ha => .inl (ha.of_unseen hun'))
    · obtain ⟨hun',hkind'⟩ := (horigin hx).1 hu'
      refine ⟨.inr ⟨hun',fin',data',List.mem_cons_of_mem _ hf⟩,fun he => ?_⟩
      rcases he.cons with ⟨code,rfl⟩ | ⟨⟨data₁,rfl⟩,-⟩ | he
      · cases hkind' rfl
      · cases hkind' rfl
      · exact hne (he.lead fun ha => .inl (ha.of_unseen hun'))

theorem mem_trail (h : f ∈ c.trail id w) : f ∈ c.outline w :=
  List.mem_of_mem_filter h

theorem mem_outline (h : f ∈ c.outline w) (hf : f.streamId = some id) : f ∈ c.trail id w :=
  List.mem_filter.mpr ⟨h,by simpa using hf⟩

theorem stream_of_chunk {x : Chunk} (h : x ∈ Frame.chunks (c.trail id w)) :
    .stream id x.last x.data ∈ c.outline w := by
  obtain ⟨f,hf,hx⟩ := List.mem_filterMap.mp h
  cases f with
  | stream id' fin data =>
    cases hx
    have hid := (List.mem_filter.mp hf).2
    obtain rfl : id' = id := by simpa [Frame.streamId] using hid
    exact mem_trail hf
  | windowUpdate | reset | ping | pong | settings | close => cases hx

/-- A stream of an active end that is out of use and was not reset has been ended from both
sides. -/
theorem Sound.ended (h : c.Sound) (hp : c.phase = .active) (hs : c.seat id = .taken s)
    (hl : s.released = true) (hr : s.resetCode = none) :
    (s.hasWriteSide = true → s.finQueued = true) ∧
      (s.hasReadSide = true → s.finReceived = true) := by
  obtain ⟨-,i,hi⟩ := (seat_eq_taken_iff h.toRegistry).mp hs
  have hdone := ((h.part id).sound s hs).spent hl
  simp only [h.healthy hp hi,Option.isSome_none,Bool.false_eq_true,or_false,Stream.localDone,
    Stream.remoteDone,hr,Bool.or_false,Bool.and_eq_true,Bool.or_eq_true,Bool.not_eq_true'] at hdone
  refine ⟨fun hx => hdone.1.resolve_left ?_,fun hx => hdone.2.resolve_left ?_⟩ <;> simp [hx]

theorem Bond.sides (h : Bond c w d v) {t : Stream} (hs : c.seat id = .taken s)
    (ht : d.seat id = .taken t) :
    t.hasReadSide = s.hasWriteSide ∧ t.hasWriteSide = s.hasReadSide := by
  have hc := h.near.sound.part id
  have hd := h.far.sound.part id
  have hremote : t.remote = !s.remote := by
    rw [hd.remote t ht,hc.remote s hs,h.near.opener id]
  have hdirection : t.direction = s.direction := (hd.direction t ht).trans (hc.direction s hs).symm
  simp [Stream.hasReadSide,Stream.hasWriteSide,hremote,hdirection]

/-- Where the end of the peer's data has been read, the peer has queued it. -/
theorem Bond.answered (h : Bond c w d v) (hs : c.seat x = .taken s)
    (hread : s.hasReadSide = true → s.finReceived = true) :
    x.direction = .unidirectional ∨ ∃ t, d.seat x = .taken t ∧ t.finQueued = true := by
  cases hx : x.direction with
  | unidirectional => exact .inl rfl
  | bidirectional =>
    right
    have hdirection : s.direction = .bidirectional :=
      ((h.near.sound.part x).direction s hs).trans hx
    have hfin := hread (by simp [Stream.hasReadSide,hdirection])
    have hended := ((h.far.way x).flow.closed (by simpa [hs,Seat.inflow] using hfin)).1
    cases hd : d.seat x with
    | unseen =>
      rw [hd] at hended
      cases hended
    | passed =>
      rw [hd] at hended
      cases hended
    | taken t =>
      rw [hd] at hended
      exact ⟨t,rfl,hended⟩

/-- What has a place at the peer of an active end, and is not ended by what is on the way, is in use
at this end. -/
theorem Bond.in_use (h : Bond c w d v) (hp : c.phase = .active) (hx : x.initiator = c.role)
    (ho : Occupies d (c.outline w) x) : ∃ s, c.seat x = .taken s ∧ s.released = false := by
  have hc := h.near.sound
  have hopener : (c.site x).opener = true := by simpa [site] using hx
  have hway := h.near.way x
  cases hs : c.seat x with
  | unseen =>
    exfalso
    have hu := hway.dormant hopener hs
    rcases ho.1 with ⟨s,hd,-⟩ | ⟨-,fin,data,hf⟩
    · cases hu.symm.trans hd
    · have : .stream x fin data ∈ c.trail x _ := mem_outline hf rfl
      rw [hway.silent hs] at this
      cases this
  | passed => exact absurd hs ((hc.part x).opened hopener)
  | taken s =>
    refine ⟨s,rfl,?_⟩
    by_contra hl
    have hlisten := ho.listens
    -- the end of the stream is on the way, unless the peer has it
    cases hr : s.resetCode with
    | some code =>
      obtain ⟨wire,hm⟩ := hway.tells (decide_eq_true hp) s hs (by simp [hr]) hlisten
      exact ho.2 (.inl ⟨wire,mem_trail hm⟩)
    | none =>
      have hremote : s.remote = false := by simpa [hopener] using (hc.part x).remote s hs
      obtain ⟨hwrite,hread⟩ := hc.ended hp hs (Bool.eq_true_of_not_eq_false hl) hr
      have hfin := hwrite (by simp [Stream.hasWriteSide,hremote])
      have hpeer := h.answered hs hread
      have hwhole : ((c.seat x).outflow d.options.window.toNat (decide (c.phase = .active))).whole =
          true := by
        simp [hs,Seat.outflow,hr,hp]
      have hin : ((d.seat x).inflow d.options.window.toNat).listening = true := by
        rw [Seat.listening_inflow]
        exact hlisten
      cases hend : ((d.seat x).inflow d.options.window.toNat).ended with
      | false =>
        obtain ⟨y,hy,hlast⟩ :=
          hway.flow.pending (by simpa [hs,Seat.outflow] using hfin) hwhole hin hend
        have hm := stream_of_chunk hy
        rw [hlast] at hm
        exact ho.2 (.inr ⟨⟨y.data,hm⟩,hpeer⟩)
      | true =>
        cases hd : d.seat x with
        | unseen =>
          rw [hd] at hend
          cases hend
        | passed =>
          rw [hd] at hend
          cases hend
        | taken t =>
          -- then the peer would have let go of it as well
          have hlive : t.released = false := by simpa [hd,Seat.inflow] using hin
          have hundone := ((h.far.sound.part x).sound t hd).undone hlive
          have hrd : t.remoteDone = true := by
            rw [hd] at hend
            simp [Stream.remoteDone,show t.finReceived = true from hend]
          have hld : t.localDone = true := by
            rcases hpeer with hx' | ⟨t',ht',hq⟩
            · have hside : t.hasWriteSide = false := by
                have hdirection : s.direction = .unidirectional :=
                  ((hc.part x).direction s hs).trans hx'
                rw [(h.sides hs hd).2]
                simp [Stream.hasReadSide,hremote,hdirection]
              simp [Stream.localDone,hside]
            · cases hd.symm.trans ht'
              simp [Stream.localDone,hq]
          rw [hld,hrd] at hundone
          cases hundone

/-- An active end has a stream in use for each place that is taken beside one of its streams. -/
theorem Bond.room_for (h : Bond c w d v) (hp : c.phase = .active) (hs : c.seat id = .taken s)
    (hl : s.released = false) (hr : id.initiator = c.role)
    (hc : Crowd c.role d (c.outline w) id ids) :
    ids.length < (d.options.maxStreams id.direction).toNat := by
  have hsound := h.near.sound
  have entry {x : StreamId} {s : Stream} (hs : c.seat x = .taken s) (hl : s.released = false)
      (hr : x.initiator = c.role) (hd : x.direction = id.direction) :
      x ∈ (c.table.filter (counts c.role false id.direction)).map (·.1) := by
    obtain ⟨hid,i,hi⟩ := (seat_eq_taken_iff hsound.toRegistry).mp hs
    refine List.mem_map.mpr ⟨(x, i),List.mem_filter.mpr ⟨hsound.iff.mpr ⟨s,hi,hid,hl⟩,?_⟩,rfl⟩
    simp [counts,hr,hd]
  have hnodup : (id :: ids).Nodup :=
    List.nodup_cons.mpr ⟨fun hx => (hc.others id hx).1 rfl,hc.distinct⟩
  have hsub : id :: ids ⊆ (c.table.filter (counts c.role false id.direction)).map (·.1) := by
    intro x hx
    rcases List.mem_cons.mp hx with rfl | hx
    · exact entry hs hl hr rfl
    · obtain ⟨-,h₂,h₃,h₄⟩ := hc.others x hx
      obtain ⟨s',hs',hl'⟩ := h.in_use hp h₂ h₄
      exact entry hs' hl' h₂ h₃
  have hle := (hnodup.subperm hsub).length_le
  have hcount := hsound.counted false id.direction
  have hwithin := hsound.within id.direction
  rw [(h.near.met (.inl hp)).1] at hwithin
  simp only [Bool.false_eq_true,if_false] at hcount
  rw [List.length_map,← List.countP_eq_length_filter,← hcount,List.length_cons] at hle
  have hlimit : (d.options.settings.heard.maxStreams id.direction) =
      d.options.maxStreams id.direction := by
    cases id.direction <;> rfl
  rw [hlimit] at hwithin
  omega

/-- Whether every stream that this end opened has sent something. -/
def Spoken (c : Connection) : Prop :=
  ∀ {i : Nat} {s : Stream}, c.streams[i]? = some s → s.id.isSome → s.remote = false →
    s.ledger.sent ≠ []

/-- What a stream sends that has sent before, and has not taken it back, is not the first that its
peer sees of it. -/
theorem Bond.not_first (h : Bond c w d v) (hs : c.seat id = .taken s)
    (hk : s.released = false ∨ c.phase = .active ∧ s.resetCode = none) (hsent : s.ledger.sent ≠ [])
    (hu : d.seat id = .unseen) : ∃ fin data, .stream id fin data ∈ c.outline w := by
  have hway := h.near.way id
  have hall := hway.flow.whole (by rw [hu]; rfl)
    (by simpa [hs,Seat.outflow] using hk)
  rw [hu,hs] at hall
  simp only [Seat.inflow,Seat.outflow,List.nil_append] at hall
  cases hc : Frame.chunks (c.trail id w) with
  | nil =>
    rw [hc,Chunk.pieces_nil] at hall
    exact absurd (List.reverse_eq_nil_iff.mp hall.symm) hsent
  | cons x t =>
    have hx : x ∈ Frame.chunks (c.trail id w) := by simp [hc]
    exact ⟨_,_,stream_of_chunk hx⟩

theorem Bond.slots_send (h : Bond c w d v) (hslots : Slots c.role d (c.outline w))
    (ha : c.phase = .active ∨ c.Spoken) (hi : c.streams[i]? = some s) (hid : s.id = some id)
    (hw : s.writeError = none) (fin : Bool) (data : Bytes) :
    Slots c.role d (c.outline w ++ [.stream id fin data]) := by
  have hsound := h.near.sound
  have hseat : c.seat id = .taken s := (seat_eq_taken_iff hsound.toRegistry).mpr ⟨hid,i,hi⟩
  have hheld := hsound.held hi hid
  have hl := hheld.sound.live hw
  refine hslots.append ?_
  rintro id' fin' data' ⟨⟩ hr hnew hu ids hc
  rcases ha with hp | hspoken
  · exact h.room_for hp hseat hl hr hc
  · have hrem : s.remote = false := by
      rw [hheld.remote]
      simpa using hr
    obtain ⟨fin',data',hx⟩ := h.not_first hseat (.inl hl) (hspoken hi (by simp [hid]) hrem) hu
    exact absurd hx (hnew fin' data')

theorem Bond.slots_move (h : Bond c w d v) (hslots : Slots c.role d (c.outline w))
    (ha : c.phase = .active ∨ c.Spoken) (hm : Move c c') : Slots c.role d (c'.outline w) := by
  have hsound := h.near.sound
  cases hm.enters hsound with
  | requeue hq => exact hslots.requeue hsound hq (by simp)
  | @append f owner hd hk _ _ queued =>
    have hout : c'.outline w = c.outline w ++ [f] := by simp [outline,hk,hd]
    rw [hout]
    rcases queued with ⟨code,rfl,-⟩ | ⟨id,fin,data,i,s,rfl,hi,hid,hw,-⟩
    · exact hslots.append (by simp)
    · exact h.slots_send hslots ha hi hid hw fin data
  | discard hd hk =>
    refine hslots.cut ?_
    simp [outline,hk,hd]

theorem Bond.slots_take (h : Bond c w d (f :: v)) (hslots : Slots c.role d (c.outline w))
    (ht : Take f c c') : Slots c.role d (c'.outline w) := by
  have hsound := h.near.sound
  obtain ⟨u,keep,hq⟩ := ht.requeue hsound
  refine hslots.requeue hsound hq fun id code hf => ?_
  cases hf
  have hway := h.far.way id
  rw [trail_cons_of_eq rfl] at hway
  exact Reset.not_listens (hway.said code List.mem_cons_self)

theorem Faces.place {fin : Bool} {data : Bytes} (h : Faces c w d (.stream id fin data :: v))
    (hslots : Slots d.role c (d.outline (.stream id fin data :: v))) (new : c.Unheard id) :
    c.activeRemote.get id.direction < (c.options.maxStreams id.direction).toNat := by
  have hs := h.sound
  have hrole : d.role = c.role.other := h.role
  have hcount := hs.counted true id.direction
  rw [if_pos rfl,List.countP_eq_length_filter,← List.length_map (f := (·.1))] at hcount
  rw [hcount]
  refine hslots [] id fin data (d.outline v) rfl
    (by rw [hrole]; exact Role.eq_other_of_ne new.initiator)
    (by simp) (seat_unheard hs new) _ ⟨?_,?_⟩
  · refine List.Nodup.map_on ?_ (hs.distinct.sublist List.filter_sublist)
    rintro ⟨x,i⟩ hx ⟨y,j⟩ hy (rfl : x = y)
    obtain ⟨s,hi,hid,-⟩ := hs.iff.mp (List.mem_of_mem_filter hx)
    obtain ⟨t,hj,ht,-⟩ := hs.iff.mp (List.mem_of_mem_filter hy)
    rw [hs.unique hi hj (by simp [hid]) (by rw [hid,ht])]
  · intro x hx
    obtain ⟨⟨x,i⟩,hm,rfl⟩ := List.mem_map.mp hx
    obtain ⟨hm,hcounts⟩ := List.mem_filter.mp hm
    obtain ⟨s,hi,hid,hl⟩ := hs.iff.mp hm
    have hcounts' : ¬x.initiator = c.role ∧ x.direction = id.direction := by
      simpa [counts] using hcounts
    refine ⟨?_,by rw [hrole]; exact Role.eq_other_of_ne hcounts'.1,hcounts'.2,
      .inl ⟨s,(seat_eq_taken_iff hs.toRegistry).mpr ⟨hid,i,hi⟩,hl⟩,?_⟩
    · rintro rfl
      have := hs.find?_iff.mpr ⟨s,hi,hid,hl⟩
      cases new.find.symm.trans this
    · rintro (⟨code,hx⟩ | ⟨⟨data,hx⟩,-⟩) <;> cases hx

/-- What breaks a rule is the RESET of a stream that comes too early. -/
theorem Bond.blame {x : Violation} (h : Bond c w d (f :: v))
    (hslots : Slots d.role c (d.outline (f :: v))) (hb : Breach x f c c') :
    ∃ id code s, f = .reset id code ∧ x = .beyondLimit id (c.options.maxStreams id.direction) ∧
      Introduces f c id ∧ c' = c.reached id ∧ c.phase = .active ∧ d.seat id = .taken s ∧
      s.resetCode.isSome := by
  obtain ⟨id,hfirst,hp,hl,hx,hc'⟩ := h.breach hb
  cases f with
  | ping | pong | settings | close => cases hfirst.about
  | windowUpdate => exact absurd rfl hfirst.kind
  | stream id' fin data =>
    cases hfirst.about
    have hlt := h.near.place hslots hfirst.new
    omega
  | reset id' code =>
    cases hfirst.about
    have hway := h.far.way id
    rw [trail_cons_of_eq rfl] at hway
    have hreset := hway.said code List.mem_cons_self
    cases hs : d.seat id with
    | unseen =>
      rw [hs] at hreset
      exact hreset.elim
    | passed =>
      refine absurd hs ((h.far.sound.part id).opened ?_)
      rw [h.near.opener id,hfirst.new.guest]
      rfl
    | taken s =>
      rw [hs] at hreset
      exact ⟨id,code,s,rfl,hx,hfirst,hc',hp,hs,hreset.1⟩

end Multiplex.Connection
