import Multiplex.Proofs.Part

/-!
How a frame of the peer changes what a connection holds of each stream id.
-/

namespace Multiplex.Connection

variable {c c' : Connection} {f : Frame} {id : StreamId} {i : Nat} {s : Stream}

/-- How the part of one id changes when a frame is taken over: the frame's own id may arrive first,
any other id may only be passed over. -/
def Hears (f : Frame) (c c' : Connection) (id : StreamId) : Prop :=
  if f.streamId = some id then
    ∃ m, (m = c.part id ∨ (f.kind ≠ .windowUpdate ∧
        Part.Arrives (c.site id) (decide (c.phase = .active)) (c.part id) m)) ∧
      Part.Takes (c.site id) f m (c'.part id)
  else c'.part id = c.part id ∨
    ((c.site id).opener = false ∧ c.seat id = .unseen ∧
      c'.part id = { c.part id with seat := .passed })

theorem Hears.self {m : Part} (hf : f.streamId = some id)
    (hm : m = c.part id ∨ (f.kind ≠ .windowUpdate ∧
      Part.Arrives (c.site id) (decide (c.phase = .active)) (c.part id) m))
    (ht : Part.Takes (c.site id) f m (c'.part id)) : Hears f c c' id := by
  unfold Hears
  rw [if_pos hf]
  exact ⟨m,hm,ht⟩

theorem Hears.other (hf : f.streamId ≠ some id)
    (h : c'.part id = c.part id ∨ ((c.site id).opener = false ∧ c.seat id = .unseen ∧
      c'.part id = { c.part id with seat := .passed })) : Hears f c c' id := by
  unfold Hears
  rw [if_neg hf]
  exact h

/-- Each other id keeps its part or is passed over when the peer gets further. -/
theorem part_reached (new : c.Unheard id) (id' : StreamId) :
    (c.reached id).part id' = c.part id' ∨ ((c.site id').opener = false ∧ c.seat id' = .unseen ∧
      (c.reached id).part id' = { c.part id' with seat := .passed }) := by
  rcases seat_reached c new id' with hs | ⟨hu,hs⟩
  · left
    simp only [part,hs]
    rfl
  · refine .inr ⟨?_,hu,?_⟩
    · have hx : id'.initiator ≠ c.role := by
        unfold seat at hs
        split at hs
        · cases hs
        · split at hs
          · rename_i hx
            exact hx.1
          · cases hs
      simpa [site] using hx
    · simp only [part,hs]
      rfl

theorem part_reached_self (h : c.Sound) (new : c.Unheard id) :
    (c.reached id).part id = { c.part id with seat := .passed } := by
  simp only [part,seat_reached_self h new]
  rfl

theorem Unheard.guest (new : c.Unheard id) : (c.site id).opener = false := by
  simpa [site] using new.initiator

theorem Hears.set {s s' : Stream} (h : c.Sound) (h' : c'.Sound) (hc : c.SameSite c')
    (hi : c.streams[i]? = some s) (hs : c'.streams = c.streams.set i s') (hid : s'.id = s.id)
    (hsid : s.id = some id) (hf : f.streamId = some id)
    (hother : ∀ id', id' ≠ id → about id' c'.controlQueue = about id' c.controlQueue ∧
      about id' (c'.dataQueue.map (·.frame)) = about id' (c.dataQueue.map (·.frame)))
    (ht : Part.Takes (c.site id) f
      ⟨.taken s, about id c.controlQueue, about id (c.dataQueue.map (·.frame))⟩
      ⟨.taken s', about id c'.controlQueue, about id (c'.dataQueue.map (·.frame))⟩)
    (id' : StreamId) :
    Hears f c c' id' := by
  have hseat := seat_set h.toRegistry h'.toRegistry hc hi hs hid id'
  rw [hsid] at hseat
  by_cases hx : id' = id
  · subst hx
    have hold : c.seat id' = .taken s := (seat_eq_taken_iff h.toRegistry).mpr ⟨hsid,i,hi⟩
    rw [if_pos rfl] at hseat
    refine .self hf (.inl rfl) ?_
    simp only [part,hseat,hold]
    exact ht
  · have hne : some id ≠ some id' := fun he => hx (Option.some.inj he).symm
    rw [if_neg hne] at hseat
    refine .other (hf ▸ hne) (.inl ?_)
    simp only [part,hseat,(hother id' hx).1,(hother id' hx).2]

theorem Sound.hears_data {data : Bytes} {w : ReceiveWindow} (h : c.Sound)
    (hi : c.streams[i]? = some s) (hid : s.id = some id) (hl : s.released = false)
    (reads : s.hasReadSide = true) (hu : s.finReceived = false)
    (hw : s.window.receive data.length = .ok w) (id' : StreamId) :
    Hears (.stream id false data) c ({ c.enqueueControl? (s.afterData w false data).1 with
      streams := c.streams.set i (s.afterData w false data).2.notify }) id' := by
  have hr := Stream.receives_data c.options.window hid hl hu hw
  have h' := h.receive_data hi hid hl hu hw
  have hupd : ∀ f ∈ (s.afterData w false data).1, ∃ n, f = .windowUpdate id n := by
    intro f hf
    obtain ⟨id₁,n,hid₁,rfl⟩ := hr.announced f hf
    cases hid.symm.trans hid₁
    exact ⟨n,rfl⟩
  have hk := about_enqueueControl? hupd fun _ => h.not_closed hi hid hl
  have hd : (c.enqueueControl? (s.afterData w false data).1).dataQueue = c.dataQueue := by
    rw [enqueueControl?_eq]
  refine .set h h' ?_ hi rfl hr.id hid rfl ?_ ?_ id'
  · rw [enqueueControl?_eq]
    exact ⟨rfl,rfl,rfl,rfl,rfl⟩
  · intro id' hne
    exact ⟨by simp only [hk,if_neg hne,List.append_nil],by simp only [hd]⟩
  · simp only [hk,hd,if_true]
    exact .data reads hr (by simp)

theorem Sound.hears_fin {data : Bytes} {w : ReceiveWindow} (h : c.Sound)
    (hi : c.streams[i]? = some s) (hid : s.id = some id) (hl : s.released = false)
    (reads : s.hasReadSide = true) (hu : s.finReceived = false)
    (hw : s.window.receive data.length = .ok w) (id' : StreamId) :
    Hears (.stream id true data) c (({ c.enqueueControl? (s.afterData w true data).1 with
      streams :=
        c.streams.set i (s.afterData w true data).2.notify } : Connection).release i) id' := by
  have hn := s.afterData_fin w data
  have hr := Stream.receives_fin c.options.window hid hl hu hw
  have hl' := Stream.afterData_released s w true data
  have h' := h.receive_fin hi hid hl hu hw
  rw [hn] at h' ⊢
  generalize (s.afterData w true data).2 = s₁ at hr hl' h' ⊢
  have hid' := hr.id
  rw [Stream.settle_agrees] at hid'
  have hst := streams_release (c := { c with streams := c.streams.set i s₁.notify }) hi rfl
    (hid'.trans hid) (hl'.trans hl)
  refine .set h h' ?_ hi hst hr.id hid rfl ?_ ?_ id' <;> rw [release_eq]
  · exact ⟨rfl,rfl,rfl,rfl,rfl⟩
  · exact fun _ _ => ⟨rfl,rfl⟩
  · have ht := Part.Takes.data (x := c.site id) (k := about id c.controlQueue)
      (d := about id (c.dataQueue.map (·.frame))) reads hr (fun _ => rfl)
    rw [Option.toList_none,List.append_nil] at ht
    exact ht

theorem part_surfaced (h : c.Sound) (hx : Surfaces f c id) :
    Part.Arrives (c.site id) (decide (c.phase = .active)) (c.part id) ((c.surfaced id).part id) ∧
    ∀ id', id' ≠ id → (c.surfaced id).part id' = (c.reached id).part id' := by
  have h' := h.surfaced hx
  constructor
  · have hs : (c.surfaced id).seat id =
        .taken { Stream.fresh id.direction true c.options c.peer with id := some id } :=
      (seat_eq_taken_iff h'.toRegistry).mpr ⟨rfl,c.streams.length,by simp [surfaced]⟩
    simp only [part,hs,seat_unheard h hx.new]
    exact .surface hx.new.guest (decide_eq_true hx.active) ⟨rfl,rfl,rfl,rfl,rfl,rfl,rfl,rfl⟩ rfl rfl
      rfl rfl
  · intro id' hne
    have hr : (c.surfaced id).record id' = (c.reached id).record id' := by
      simp [record,surfaced,reached,List.find?_append,Ne.symm hne]
    simp only [part,seat,hr]
    rfl

/-- A frame about a stream that is out of use, or that this end opens, is of no concern. -/
theorem Sound.deaf_of_drop (h : c.Sound) (hf : c.find? id = none)
    (hx : f.kind = .windowUpdate ∨ id.initiator = c.role ∨
      id.sequence.toNat < c.nextRemote.get id.direction) : Part.Deaf (c.site id) f (c.part id) := by
  unfold Part.Deaf
  simp only [Connection.part]
  cases hs : c.seat id with
  | unseen =>
    rcases hx with hx | hx | hx
    · exact .inr hx
    · exact .inl (by simpa [site] using hx)
    · by_cases hr : id.initiator = c.role
      · exact .inl (by simpa [site] using hr)
      · exfalso
        unfold seat at hs
        rw [if_pos ⟨hr,hx⟩] at hs
        split at hs <;> cases hs
  | passed => trivial
  | taken s =>
    obtain ⟨hsid,i,hi⟩ := (seat_eq_taken_iff h.toRegistry).mp hs
    by_contra hl
    have := h.find?_iff.mpr ⟨s,hi,hsid,Bool.eq_false_of_not_eq_true hl⟩
    cases hf.symm.trans this

theorem Sound.hears_refuse {fin : Bool} {data : Bytes} (h : c.Sound) (new : c.Unheard id)
    (hp : c.phase ≠ .active) (wire : UInt64) (id' : StreamId) :
    Hears (.stream id fin data) c ((c.reached id).enqueueControl (.reset id wire)) id' := by
  by_cases hne : id' = id
  · subst hne
    have hs := seat_reached_self h new
    refine .self rfl (m := ((c.reached id').enqueueControl (.reset id' wire)).part id')
      (.inr ⟨by simp [Frame.kind],?_⟩) (.drop rfl ?_)
    · have hold := seat_unheard h new
      unfold Connection.enqueueControl
      split
      · simp only [Connection.part,hs,hold]
        exact .pass new.guest
      · have hs' (journal : Journal) : ({ c.reached id' with
            controlQueue := (c.reached id').controlQueue ++ [.reset id' wire]
            journal } : Connection).seat id' = .passed := hs
        simp only [Connection.part,hs',hold,about_append,
          about_of_eq (f := Frame.reset id' wire) rfl]
        exact .refuse new.guest (decide_eq_false hp)
    · have hs' : ((c.reached id').enqueueControl (.reset id' wire)).seat id' = .passed := by
        rw [enqueueControl_eq]
        exact hs
      unfold Part.Deaf
      simp only [Connection.part,hs']
  · have hne' : (Frame.stream id fin data).streamId ≠ some id' :=
      fun he => hne (Option.some.inj he).symm
    have hpart : ((c.reached id).enqueueControl (.reset id wire)).part id' =
        (c.reached id).part id' := by
      have hk := about_enqueueControl (c.reached id) (.reset id wire) id' (.inl hne')
      rw [about_of_ne (f := Frame.reset id wire) hne',List.append_nil] at hk
      simp only [Connection.part,hk]
      rw [enqueueControl_eq]
      rfl
    refine .other hne' ?_
    rw [hpart]
    exact part_reached new id'

/-- A stream surfaces, and takes the frame that it surfaced with. -/
theorem Sound.hears_surface (h : c.Sound) (metrics : Metrics) (changes : Nat)
    (hs : Surfaces f c id) {id' : StreamId}
    (hrest : Hears f { c.surfaced id with metrics, changes } c' id') :
    Hears f c c' id' := by
  obtain ⟨hself,hother⟩ := part_surfaced h hs
  by_cases hne : id' = id
  · subst hne
    unfold Hears at hrest
    rw [if_pos hs.about] at hrest
    obtain ⟨m,hm,ht⟩ := hrest
    refine .self hs.about (.inr ⟨hs.kind,hself⟩) ?_
    rcases hm with rfl | ⟨-,hm⟩
    · exact ht
    · exact absurd hm.seat.1 hself.seat.2
  · have hne' : f.streamId ≠ some id' :=
      fun he => hne (Option.some.inj (hs.about.symm.trans he)).symm
    refine .other hne' ?_
    unfold Hears at hrest
    rw [if_neg hne'] at hrest
    rcases part_reached hs.new id' with hr | ⟨hg,hu,hr⟩ <;> rw [← hother id' hne] at hr
    · rcases hrest with he | ⟨hg,hu,he⟩
      · exact .inl (he.trans hr)
      · exact .inr ⟨hg,(congrArg Part.seat hr).symm.trans hu,
          he.trans (congrArg (fun p => { p with seat := .passed }) hr)⟩
    · rcases hrest with he | ⟨_,hu',_⟩
      · exact .inr ⟨hg,hu,he.trans hr⟩
      · cases (congrArg Part.seat hr).symm.trans hu'

theorem hears_reached (h : c.Sound) (hx : Introduces f c id) (id' : StreamId) :
    Hears f c (c.reached id) id' := by
  have new := hx.new
  by_cases hne : id' = id
  · subst hne
    refine .self hx.about (m := (c.reached id').part id') (.inr ⟨hx.kind,?_⟩) (.drop hx.about ?_)
    · rw [part_reached_self h new]
      simp only [part,seat_unheard h new]
      exact .pass new.guest
    · rw [part_reached_self h new]
      trivial
  · refine .other (fun he => hne ?_) (part_reached new id')
    exact (Option.some.inj (hx.about.symm.trans he)).symm

theorem Take.hears (ht : Take f c c') (h : c.Sound) (hp : c.phase ≠ .connecting) (id' : StreamId) :
    Hears f c c' id' := by
  have h' := ht.sound h hp
  induction ht with
  | @data c i s id fin data w hf hi hr hu hw =>
    obtain ⟨hid,hl⟩ := h.found hf hi
    cases fin with
    | false => exact h.hears_data hi hid hl hr hu hw id'
    | true => exact h.hears_fin hi hid hl hr hu hw id'
  | grant hf hi =>
    obtain ⟨hid,hl⟩ := h.found hf hi
    refine .set h h' ⟨rfl,rfl,rfl,rfl,rfl⟩ hi rfl rfl hid rfl (fun _ _ => ⟨rfl,rfl⟩) ?_ id'
    exact .grant hl
  | @reset c i s id wire code unwritten changes hf hi =>
    obtain ⟨hid,hl⟩ := h.found hf hi
    refine .set h h' ?_ hi (streams_release hi rfl hid hl) (Stream.settle_id _) hid
      rfl ?_ ?_ id' <;>
      rw [release_eq]
    · exact ⟨rfl,rfl,rfl,rfl,rfl⟩
    · intro id₁ hne
      exact ⟨rfl,(h.about_purge hi hid id₁).trans (if_neg hne)⟩
    · simp only [h.about_purge hi hid id,if_true]
      exact .reset hl
  | @drop c f id hid hf hx =>
    by_cases hne : f.streamId = some id'
    · obtain rfl := Option.some.inj (hid.symm.trans hne)
      exact .self hid (.inl rfl) (.drop hid (h.deaf_of_drop hf hx))
    · exact .other hne (.inl rfl)
  | refuse new hp' => exact h.hears_refuse new hp' _ id'
  | pass new => exact hears_reached h ⟨rfl,by simp [Frame.kind],new⟩ id'
  | surface metrics changes hs _ ih =>
    exact h.hears_surface metrics changes hs (ih (h.surface hs metrics changes) hp h')
  | idle hx =>
    refine .other ?_ (.inl rfl)
    rcases hx with ⟨v,rfl⟩ | ⟨v,rfl⟩ <;> simp [Frame.streamId]
  | close => exact .other (by simp [Frame.streamId]) (.inl rfl)
  | stray _ _ hf hi => exact absurd hi (h.no_stray hf)

end Multiplex.Connection
