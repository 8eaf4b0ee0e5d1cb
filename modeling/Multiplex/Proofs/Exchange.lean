import Multiplex.Proofs.ConnectionPair
import Multiplex.Proofs.Conduct

/-!
Two connections stay in step when frames leave one of them, when one takes over a frame of the
other, and when one becomes active.
-/

namespace Multiplex.Connection

variable {c c' d : Connection} {v w : List Frame} {id : StreamId} {f : Frame}

/-- What a frame that was taken over has done to the connection as a whole. -/
structure Took (f : Frame) (c c' : Connection) : Prop where
  active : c'.phase = .active → c.phase = .active
  streams : c'.streams ≠ [] → c.phase = .active ∨ c.streams ≠ []
  queue : c'.dataQueue.Sublist c.dataQueue
  closeSent : c'.closeSent = c.closeSent
  error : c'.error = c.error
  closeReceived : c'.closeReceived.isSome.toNat = c.closeReceived.isSome.toNat + f.isClose.toNat
  nextRemote : ∀ e, c'.nextRemote.get e = c.nextRemote.get e ∨
    ∃ id, f.streamId = some id ∧ f.kind ≠ .windowUpdate ∧ id.initiator ≠ c.role ∧
      id.direction = e ∧ c'.nextRemote.get e = id.sequence.toNat + 1

theorem nextRemote_reached (h : Introduces f c id) (e : Direction) :
    (c.reached id).nextRemote.get e = c.nextRemote.get e ∨
    ∃ id', f.streamId = some id' ∧ f.kind ≠ .windowUpdate ∧ id'.initiator ≠ c.role ∧
      id'.direction = e ∧ (c.reached id).nextRemote.get e = id'.sequence.toNat + 1 := by
  by_cases he : e = id.direction
  · refine .inr ⟨id,h.about,h.kind,h.new.initiator,he.symm,?_⟩
    simp [reached,PerDirection.get_set,he]
  · left
    simp [reached,PerDirection.get_set,he]

theorem Take.extent (ht : Take f c c') (h : c.Sound) :
    (c'.streams ≠ [] → c.phase = .active ∨ c.streams ≠ []) ∧
    ∀ e, c'.nextRemote.get e = c.nextRemote.get e ∨
      ∃ id, f.streamId = some id ∧ f.kind ≠ .windowUpdate ∧ id.initiator ≠ c.role ∧
        id.direction = e ∧ c'.nextRemote.get e = id.sequence.toNat + 1 := by
  induction ht with
  | data hf hi =>
    have hne := List.ne_nil_of_mem (List.mem_of_getElem? hi)
    split
    · rw [release_eq,enqueueControl?_eq]
      exact ⟨fun _ => .inr hne,fun _ => .inl rfl⟩
    · rw [enqueueControl?_eq]
      exact ⟨fun _ => .inr hne,fun _ => .inl rfl⟩
  | grant hf hi =>
    exact ⟨fun _ => .inr (List.ne_nil_of_mem (List.mem_of_getElem? hi)),fun _ => .inl rfl⟩
  | reset _ _ _ hf hi =>
    rw [release_eq]
    exact ⟨fun _ => .inr (List.ne_nil_of_mem (List.mem_of_getElem? hi)),fun _ => .inl rfl⟩
  | refuse new =>
    rw [enqueueControl_eq]
    exact ⟨.inr,nextRemote_reached ⟨rfl,by simp [Frame.kind],new⟩⟩
  | pass new => exact ⟨.inr,nextRemote_reached ⟨rfl,by simp [Frame.kind],new⟩⟩
  | surface metrics changes hs _ ih =>
    obtain ⟨-,hnext⟩ := ih (h.surface hs metrics changes)
    refine ⟨fun _ => .inl hs.active,fun e => (hnext e).elim (fun hx => ?_) .inr⟩
    rcases nextRemote_reached hs.toIntroduces e with hy | ⟨id',h₁,h₂,h₃,h₄,h₅⟩
    · exact .inl (hx.trans hy)
    · exact .inr ⟨id',h₁,h₂,h₃,h₄,hx.trans h₅⟩
  | drop | idle | close => exact ⟨.inr,fun _ => .inl rfl⟩
  | stray _ _ hf hi => exact absurd hi (h.no_stray hf)

theorem Take.took (ht : Take f c c') (h : c.Sound) : Took f c c' := by
  obtain ⟨hstreams,hnext⟩ := ht.extent h
  obtain ⟨u,keep,hq⟩ := ht.requeue h
  have hqueue : c'.dataQueue.Sublist c.dataQueue := hq.data ▸ List.filter_sublist
  rcases ht.frame.2 with ⟨hf,hx⟩ | ⟨hf,hr,code,hx⟩ <;> simp only [flags,Prod.mk.injEq] at hx <;>
    obtain ⟨⟨hp,he⟩,-,-,hc,hreceived,-⟩ := hx
  · exact ⟨hp ▸ id,hstreams,hqueue,hc,he,by simp [hreceived,hf],hnext⟩
  · refine ⟨fun hx => ?_,hstreams,hqueue,hc,he,by simp [hreceived,hf,hr],hnext⟩
    rw [hp] at hx
    split at hx
    · cases hx
    · exact hx

theorem Sound.seat_ne_unseen (h : c.Sound) (hr : id.initiator = c.role)
    (hs : id.sequence.toNat < c.nextLocal.get id.direction) : c.seat id ≠ .unseen := by
  obtain ⟨i,s,hi,hid⟩ := h.complete hs
  rw [← hr,StreamId.ofParts_self] at hid
  rw [(seat_eq_taken_iff h.toRegistry).mpr ⟨hid,i,hi⟩]
  simp

theorem Sound.lt_nextLocal (h : c.Sound) (hr : id.initiator = c.role) (hs : c.seat id ≠ .unseen) :
    id.sequence.toNat < c.nextLocal.get id.direction := by
  cases hx : c.seat id with
  | unseen => exact absurd hx hs
  | passed =>
    unfold seat at hx
    split at hx
    · cases hx
    · split at hx
      · rename_i hy
        exact absurd hr hy.1
      · cases hx
  | taken s =>
    obtain ⟨hid,i,hi⟩ := (seat_eq_taken_iff h.toRegistry).mp hx
    have hh := h.held hi hid
    have hrem : s.remote = false := by
      rw [hh.remote]
      simpa using hr
    have := hh.below
    rwa [hrem] at this

theorem Reset.not_listens {seat : Seat} (h : seat.Reset) : seat.listens = false := by
  cases seat with
  | unseen => exact h.elim
  | passed => rfl
  | taken s => simp [Seat.listens,Seat.inflow,h.2]

theorem outline_cons (c : Connection) (f : Frame) (w : List Frame) :
    c.outline (f :: w) = f :: c.outline w := rfl

theorem trail_cons_of_eq (hf : f.streamId = some id) (w : List Frame) :
    c.trail id (f :: w) = f :: c.trail id w := by
  simp [trail,outline_cons,about,hf]

theorem trail_cons_of_ne (hf : f.streamId ≠ some id) (w : List Frame) :
    c.trail id (f :: w) = c.trail id w := by
  simp [trail,outline_cons,about,hf]

/-- Both directions of one stream once a frame has been taken over. -/
theorem Bond.hear (h : Bond c w d (f :: v)) (hs : c'.Sound) (hk : c.Kept c')
    (ha : decide (c'.phase = .active) = true → c.phase = .active)
    (hreach : ∀ e, c'.nextRemote.get e ≤ d.nextLocal.get e) (hh : Hears f c c' id) :
    Way id d.options.window.toNat (c'.site id).opener (decide (c'.phase = .active)) (c'.seat id)
      (c'.trail id w) (d.seat id) (d.trail id v) ∧
    Way id c.options.window.toNat (d.site id).opener (decide (d.phase = .active)) (d.seat id)
      (d.trail id v) (c'.seat id) (c'.trail id w) := by
  have hsite : c'.site id = c.site id := by simp only [site,hk.role,hk.options,hk.peer]
  have hn := h.near.way id
  have hf := h.far.way id
  have hp := h.near.sound.part id
  have hpeer (hx : decide (c.phase = .active) = true) :
      (c.site id).peer.window.toNat = d.options.window.toNat := by
    have := (h.near.met (.inl (by simpa using hx))).1
    simp only [site,this]
    rfl
  have hcalm {a b : Seat} {t r : List Frame}
      (hw : Way id d.options.window.toNat (c.site id).opener (decide (c.phase = .active)) a t b r) :
      Way id d.options.window.toNat (c.site id).opener (decide (c'.phase = .active)) a t b r :=
    hw.calm_le fun hx => decide_eq_true (ha hx)
  rw [c.trail_eq] at hn hf
  rw [c'.trail_eq,hsite]
  unfold Hears at hh
  split at hh
  · rename_i hid
    obtain ⟨m,hm,ht⟩ := hh
    rw [trail_cons_of_eq hid] at hn hf
    have hd : d.seat id ≠ .unseen := fun hu => by cases hf.silent hu
    have hfirst : c.seat id = .unseen → (c.site id).opener = false := by
      intro hu
      by_contra ho
      exact hd (hn.dormant (Bool.eq_true_of_not_eq_false ho) hu)
    have hp' : (c'.part id).Sound (c.site id) := hsite ▸ hs.part id
    have hb (wire : UInt64) (he : f = .reset id wire) : (d.seat id).listens = false :=
      Reset.not_listens (hf.said wire (by rw [he]; exact List.mem_cons_self))
    have hw := d.options.window.toNat_lt
    rcases hm with rfl | ⟨-,hm⟩
    · exact ⟨hcalm (hn.take_sender ht hw hb),hf.take_receiver ht hp hp' hfirst⟩
    · have hn' := hn.arrive_sender hm hpeer
      have hf' := hf.arrive_receiver hm hd
      exact ⟨hcalm (hn'.take_sender ht hw hb),
        hf'.take_receiver ht (hm.sound hp) hp' fun hu => absurd hu hm.seat.2⟩
  · rename_i hid
    rw [trail_cons_of_ne hid] at hn hf
    rcases hh with he | ⟨ho,hu,he⟩
    · rw [show c'.seat id = c.seat id from congrArg Part.seat he,he]
      exact ⟨hcalm hn,hf⟩
    · have hseat : c'.seat id = .passed := congrArg Part.seat he
      have hd : d.seat id ≠ .unseen := by
        unfold seat at hseat
        split at hseat
        · cases hseat
        · split at hseat
          · rename_i hx
            refine h.far.sound.seat_ne_unseen ?_ (lt_of_lt_of_le hx.2 (hreach _))
            rw [h.near.role,← hk.role]
            exact Role.eq_other_of_ne hx.1
          · cases hseat
      have hm : Part.Arrives (c.site id) (decide (c.phase = .active)) (c.part id) (c'.part id) := by
        rw [he]
        simp only [part,hu]
        exact .pass ho
      exact ⟨hcalm (hn.arrive_sender hm hpeer),hf.arrive_receiver hm hd⟩

/-- The connections stay in step when a frame has changed each part as frames do. -/
theorem Bond.of_hears (h : Bond c w d (f :: v)) (hs : c'.Sound) (hk : c.Kept c')
    (htook : Took f c c') (hh : ∀ id, Hears f c c' id) : Bond c' w d v := by
  have hn := h.near
  have hf := h.far
  have hrole : d.role = c.role.other := hn.role
  have hreach (e : Direction) : c'.nextRemote.get e ≤ d.nextLocal.get e := by
    rcases htook.nextRemote e with hx | ⟨id,hid,-,hr,rfl,hx⟩
    · rw [hx]
      exact hn.reach e
    · rw [hx]
      refine hf.sound.lt_nextLocal (by rw [hrole]; exact Role.eq_other_of_ne hr) ?_
      intro hu
      have := (hf.way id).silent hu
      rw [trail_cons_of_eq hid] at this
      cases this
  have hways (id : StreamId) := h.hear hs hk (fun hx => htook.active (by simpa using hx)) hreach
    (hh id)
  refine ⟨⟨hs,by rw [hk.role]; exact hrole,?_,hreach,?_,?_,fun id => (hways id).1⟩,
    ⟨hf.sound,by rw [hk.role]; exact hf.role,?_,?_,?_,?_,?_⟩⟩
  · intro hx
    rw [hk.peer]
    refine hn.met ?_
    rcases hx with hx | hx
    · exact .inl (htook.active hx)
    · exact htook.streams hx
  · intro g hg
    simp only [outline,List.mem_append,List.mem_map] at hg
    rcases hg with hg | hg | ⟨q,hq,rfl⟩
    · exact hn.lawful g (List.mem_append_left _ hg)
    · have := hs.control g hg
      cases g <;> trivial
    · refine hn.lawful _ (List.mem_append_right _ (List.mem_append_right _ ?_))
      exact List.mem_map_of_mem (htook.queue.subset hq)
  · have h₁ := hn.closes
    have h₂ := htook.queue.countP_le (p := (·.frame.isClose))
    rw [countP_outline _ hn.sound.toQueued] at h₁
    rw [countP_outline _ hs.toQueued,htook.closeSent]
    omega
  · rw [hk.options]
    exact hf.met
  · intro e
    rw [hk.nextLocal]
    exact hf.reach e
  · intro g hg
    rw [hk.options]
    exact hf.lawful g (List.mem_cons_of_mem _ hg)
  · have h₁ := hf.closes
    rw [outline_cons,List.countP_cons] at h₁
    rw [htook.closeReceived]
    cases hx : f.isClose <;> simp [hx] at h₁ ⊢ <;> omega
  · intro id
    rw [hk.options]
    exact (hways id).2

theorem Bond.take (h : Bond c w d (f :: v)) (ht : Take f c c') (hp : c.phase ≠ .connecting) :
    Bond c' w d v :=
  h.of_hears (ht.sound h.near.sound hp) ht.kept (ht.took h.near.sound)
    (ht.hears h.near.sound hp)

theorem took_reached (h : Introduces f c id) : Took f c (c.reached id) :=
  ⟨fun hx => hx,.inr,.refl _,rfl,rfl,by simp [Frame.isClose_of_streamId h.about,reached],
    nextRemote_reached h⟩

theorem Bond.overrun (h : Bond c w d (f :: v)) (hx : Introduces f c id) :
    Bond (c.reached id) w d v :=
  h.of_hears (h.near.sound.reached hx.new) ⟨rfl,rfl,rfl,rfl,rfl,rfl,rfl,rfl⟩ (took_reached hx)
    (hears_reached h.near.sound hx)

theorem Bond.no_excess {fin : Bool} {data : Bytes} (h : Bond c w d (.stream id fin data :: v)) :
    (c.seat id = .unseen → data.length ≤ c.options.window.toNat) ∧
    ∀ s, c.seat id = .taken s → s.released = false → s.hasReadSide = true ∧
      s.finReceived = false ∧ data.length ≤ s.window.available.toNat := by
  have hway := h.far.way id
  rw [trail_cons_of_eq rfl] at hway
  have hflow := hway.flow
  rw [Frame.chunks_stream] at hflow
  refine ⟨?_,?_⟩
  · intro hu
    have := hflow.bounded (by rw [hu]; rfl) (by rw [hu]; rfl)
    rw [hu,Chunk.load_cons] at this
    simp only [Seat.inflow] at this
    omega
  · intro s hs hl
    have hlisten : ((c.seat id).inflow c.options.window.toNat).listening = true := by
      simp [hs,Seat.inflow,hl]
    have hfin : s.finReceived = false := by
      by_contra hx
      have := hflow.done hlisten (by simpa [hs,Seat.inflow] using hx)
      cases this
    refine ⟨?_,hfin,?_⟩
    · -- the peer would have to write where it cannot
      by_contra hr
      have hpart := h.near.sound.part id
      have hdue := hflow.due hlisten
      have hsent : ((d.seat id).outflow c.options.window.toNat
          (decide (d.phase = .active))).sent = [] := by
        cases hds : d.seat id with
        | unseen | passed => rfl
        | taken s' =>
          have hpart' := h.far.sound.part id
          have hmute := hpart'.mute s' hds
          simp only [Seat.outflow]
          rw [hmute,List.reverse_nil]
          have h₁ := hpart.direction s hs
          have h₂ := hpart.remote s hs
          have h₃ := hpart'.direction s' hds
          have h₄ := hpart'.remote s' hds
          rw [h.near.opener id] at h₄
          simp only [Stream.hasReadSide,h₁,h₂,Bool.or_eq_true,not_or,Bool.not_eq_true] at hr
          simp only [Stream.hasWriteSide,h₃,h₄]
          change decide (id.direction = .bidirectional) = false ∧ _ at hr
          have hr₁ : decide ((d.site id).id.direction = .bidirectional) = false := hr.1
          rw [hr₁]
          simpa using hr.2
      rw [hsent,Chunk.pieces_cons] at hdue
      simp at hdue
    · have := hflow.bounded hlisten (by simpa [hs,Seat.inflow] using hfin)
      rw [hs,Chunk.load_cons] at this
      simp only [Seat.inflow] at this
      omega

/-- The only rule that a peer can break is the limit on streams. -/
theorem Bond.breach {x : Violation} (h : Bond c w d (f :: v)) (hb : Breach x f c c') :
    ∃ id, Introduces f c id ∧ c.phase = .active ∧
      (c.options.maxStreams id.direction).toNat ≤ c.activeRemote.get id.direction ∧
      x = .beyondLimit id (c.options.maxStreams id.direction) ∧ c' = c.reached id := by
  have hs := h.near.sound
  cases hb with
  | @neverOpened _ id fin data hf hr hn =>
    exfalso
    have hu : c.seat id = .unseen := by
      by_contra hx
      have := hs.lt_nextLocal hr hx
      omega
    have hd := (h.near.way id).dormant (by simpa [site] using hr) hu
    have := (h.far.way id).silent hd
    rw [trail_cons_of_eq rfl] at this
    cases this
  | @beyondLimit _ _ id hx hp hl => exact ⟨id,hx,hp,hl,rfl,rfl⟩
  | @data _ i s id fin data _ hf hi hx =>
    exfalso
    obtain ⟨hid,hl⟩ := hs.found hf hi
    obtain ⟨h₁,h₂,h₃⟩ := h.no_excess.2 s ((seat_eq_taken_iff hs.toRegistry).mpr ⟨hid,i,hi⟩) hl
    rcases hx with hx | hx | hx
    · cases h₁.symm.trans hx
    · cases h₂.symm.trans hx
    · omega
  | @surface _ _ _ _ id metrics changes hnew rest =>
    exfalso
    have hfind : ({ c.surfaced id with metrics, changes } : Connection).find? id ≠ none :=
      ne_of_eq_of_ne (find?_surfaced hnew.new) (by simp)
    have hs₁ := hs.surface hnew metrics changes
    have same {id' : StreamId} (hid' : f.streamId = some id') : id' = id :=
      Option.some.inj (hid'.symm.trans hnew.about)
    cases rest with
    | @neverOpened _ id' fin data hf =>
      rw [same rfl] at hf
      exact hfind hf
    | @beyondLimit _ _ id' hx' =>
      rw [same hx'.about] at hx'
      exact hfind hx'.new.find
    | @data _ i s id' fin data _ hf hi hx =>
      obtain rfl := same rfl
      obtain ⟨hid',hl'⟩ := hs₁.found hf hi
      have hfresh : s =
          { Stream.fresh id'.direction true c.options c.peer with id := some id' } := by
        have h₁ : c.streams.length = i := hs₁.unique (s := { Stream.fresh id'.direction true
          c.options c.peer with id := some id' }) (by simp [surfaced]) hi rfl hid'.symm
        subst h₁
        simpa [surfaced] using hi.symm
      have := h.no_excess.1 (seat_unheard hs hnew.new)
      rw [hfresh] at hx
      rcases hx with hx | hx | hx
      · simp [Stream.hasReadSide,Stream.fresh] at hx
      · cases hx
      · simp only [Stream.fresh,ReceiveWindow.ofSize] at hx
        omega
    | @surface _ _ _ _ id' _ _ hx' =>
      rw [same hx'.about] at hx'
      exact hfind hx'.new.find
    | duplicateClose | lateSettings => cases hnew.about
  | duplicateClose hc =>
    exfalso
    have := h.far.closes
    rw [outline_cons,List.countP_cons] at this
    simp only [Frame.isClose,hc,if_true,Bool.toNat_true] at this
    have := Bool.toNat_le d.closeSent
    omega
  | lateSettings => exact (h.far.lawful _ List.mem_cons_self).elim

theorem outline_takeBatch {b : Batch} (hb : c.takeBatch = (some b, c')) (w : List Frame) :
    c'.outline (w ++ b.frames.map (·.frame)) = c.outline w := by
  unfold takeBatch at hb
  split at hb
  · cases hb
  · cases hb
    generalize Batch.count Batch.limit (c.queued.map (·.frame.encodedLength)) = n
    have hq : c.queued.map (·.frame) = c.controlQueue ++ c.dataQueue.map (·.frame) := by
      simp [queued,Function.comp_def]
    have hdrop : c.controlQueue.drop n ++
        (c.dataQueue.drop (n - c.controlQueue.length)).map (·.frame) =
        (c.queued.map (·.frame)).drop n := by
      rw [hq,List.drop_append,List.map_drop]
    simp only [outline,Batch.ofFrames,List.map_take,hdrop,List.append_assoc]
    rw [List.take_append_drop,hq]

theorem Bond.ship {b : Batch} (h : Bond c w d v) (hb : c.takeBatch = (some b, c')) :
    Bond c' (w ++ b.frames.map (·.frame)) d v := by
  have hs := h.near.sound.takeBatch hb
  have ho := outline_takeBatch hb w
  have htrail (id : StreamId) : c'.trail id (w ++ b.frames.map (·.frame)) = c.trail id w :=
    congrArg (about id) ho
  have hn := h.near
  have hf := h.far
  obtain ⟨control,data,journal,rfl⟩ := takeBatch_eq hb
  refine ⟨⟨hs,hn.role,hn.met,hn.reach,?_,?_,?_⟩,{ hf with way := ?_ }⟩
  · rw [ho]
    exact hn.lawful
  · rw [ho]
    exact hn.closes
  · intro id
    rw [htrail]
    exact hn.way id
  · intro id
    rw [htrail]
    exact hf.way id

theorem Bond.establish (h : Bond c w d v) (hp : c.phase = .connecting)
    (hv : d.options.settings.Valid) :
    Bond { c with peer := d.options.settings.heard, phase := .active } w d v := by
  have hn := h.near
  have hf := h.far
  have hs := hn.sound
  have hempty (i : Nat) : c.streams[i]? = none := by simp [(hs.unopened hp).1]
  have vacant (id : StreamId) (s : Stream) : c.seat id ≠ .taken s := by
    intro hx
    obtain ⟨-,i,hi⟩ := (seat_eq_taken_iff hs.toRegistry).mp hx
    rw [hempty] at hi
    cases hi
  refine ⟨{ hn with sound := hs.establish hp _, met := fun _ => ⟨rfl,hv⟩, way := ?_ },
    { hf with }⟩
  intro id
  have hw := hn.way id
  refine { hw with flow := ?_, tells := fun _ s hx => absurd hx (vacant id s) }
  have hflow := hw.flow
  cases hx : c.seat id with
  | taken s => exact absurd hx (vacant id s)
  | unseen =>
    rw [show ({ c with peer := d.options.settings.heard, phase := .active } : Connection).seat id =
      .unseen from hx]
    rw [hx] at hflow
    exact hflow
  | passed =>
    rw [show ({ c with peer := d.options.settings.heard, phase := .active } : Connection).seat id =
      .passed from hx]
    rw [hx] at hflow
    exact hflow

theorem seat_fresh (role : Role) (options : Options) (codes : CodeSpace) (id : StreamId) :
    (fresh role options codes).seat id = .unseen :=
  seat_eq_unseen (record_eq_none_iff.mpr fun i s hi => by simp [fresh] at hi)
    (.inr (by simp [fresh]))

theorem bond_fresh (role : Role) (own peer : Options) (codes codes' : CodeSpace) :
    Bond (fresh role own codes) [] (fresh role.other peer codes') [] := by
  have hway (role role' : Role) (own peer : Options) (codes codes' : CodeSpace) (id : StreamId) :
      Way id peer.window.toNat ((fresh role own codes).site id).opener false
        ((fresh role own codes).seat id) ((fresh role own codes).trail id [])
        ((fresh role' peer codes').seat id) ((fresh role' peer codes').trail id []) := by
    rw [seat_fresh,seat_fresh]
    exact .initial id peer.window.toNat _ false
  refine ⟨⟨sound_fresh _ _ _,rfl,?_,?_,?_,?_,hway _ _ _ _ _ _⟩,
    ⟨sound_fresh _ _ _,(Role.other_other role).symm,?_,?_,?_,?_,hway _ _ _ _ _ _⟩⟩
  all_goals simp [fresh,outline]

end Multiplex.Connection
