import Multiplex.Proofs.StreamChanges

/-!
How many streams of the peer wait to be accepted. A stream that both ends are done with leaves the
counters at once but stays in the queue, so the limits do not bound the queue itself.
-/

namespace Multiplex

namespace Stream

def guest (d : Direction) (s : Stream) : Bool := s.remote && decide (s.direction = d) && !s.released

def unfinished (s : Stream) : Bool := !(s.localDone && s.remoteDone)

theorem Proceeds.guest_eq {s s' : Stream} (h : s.Proceeds s') (d : Direction) :
    s'.guest d = s.guest d := by
  simp only [guest,h.remote,h.direction,h.released]

end Stream

namespace Connection

/-- The counters cover the streams of the peer in use, and both ends are done with the others. -/
structure Counted (c : Connection) : Prop where
  covered : ∀ d, c.streams.countP (Stream.guest d) ≤ c.activeRemote.get d
  finished : ∀ {i : Nat} {s : Stream}, c.streams[i]? = some s → s.remote = true →
    s.released = true → s.localDone = true ∧ s.remoteDone = true

/-- How an end stands with the streams of its peer. Once its streams have failed it holds none of
them back, and none comes any more. -/
structure Hosted (c : Connection) : Prop where
  known : ∀ {i : Nat} {s : Stream}, c.streams[i]? = some s → s.remote = true →
    ∃ id, s.id = some id ∧ s.direction = id.direction
  distinct : c.acceptQueue.Nodup
  queued : ∀ {i : Nat}, i ∈ c.acceptQueue → ∃ s, c.streams[i]? = some s ∧ s.remote = true
  heeds : c.closeReceived.isSome → c.phase.Waning
  admitted : ∀ d, c.activeRemote.get d ≤ (c.options.maxStreams d).toNat
  counted : c.phase.Waning ∧ c.acceptQueue = [] ∨ c.Counted

theorem hosted_fresh (role : Role) (options : Options) (codes : CodeSpace) :
    (fresh role options codes).Hosted := by
  refine ⟨fun hi => (by cases hi),List.nodup_nil,fun hi => (by cases hi),fun h => (by cases h),
    fun d => ?_,.inr ⟨fun d => ?_,fun hi => (by cases hi)⟩⟩
  · cases d <;> exact Nat.zero_le _
  · exact Nat.zero_le _

section Step

variable {c c' : Connection} {i j : Nat} {s s' : Stream} {id : StreamId}

theorem countP_guest_set (hi : c.streams[i]? = some s) (s' : Stream) (d : Direction) :
    (c.streams.set i s').countP (Stream.guest d) + (if s.guest d then 1 else 0) =
      c.streams.countP (Stream.guest d) + if s'.guest d then 1 else 0 := by
  obtain ⟨hlt,rfl⟩ := List.getElem?_eq_some_iff.mp hi
  have hle : (if c.streams[i].guest d then 1 else 0) ≤ c.streams.countP (Stream.guest d) := by
    split
    · rename_i hg
      exact List.countP_pos_iff.mpr ⟨_,List.getElem_mem hlt,hg⟩
    · exact Nat.zero_le _
  rw [List.countP_set hlt]
  omega

theorem Counted.change (h : c.Counted) (hi : c.streams[i]? = some s) (hp : s.Proceeds s')
    (hs : c'.streams = c.streams.set i s') (ha : c'.activeRemote = c.activeRemote) :
    c'.Counted := by
  refine ⟨fun d => ?_,fun {j t} hj hr hl => ?_⟩
  · have hcount := countP_guest_set hi s' d
    have hcovered := h.covered d
    rw [hp.guest_eq d] at hcount
    rw [hs,ha]
    omega
  · rw [hs,getElem?_set_of hi] at hj
    split at hj
    · cases hj
      obtain ⟨hlocal,hremote⟩ := h.finished hi (hp.remote ▸ hr) (hp.released ▸ hl)
      exact ⟨hp.localDone hlocal,hp.remoteDone hremote⟩
    · exact h.finished hj hr hl

theorem Hosted.known_set (h : c.Hosted) (hi : c.streams[i]? = some s) (hid : s'.id = s.id)
    (hremote : s'.remote = s.remote) (hd : s'.direction = s.direction) {t : Stream}
    (hj : (c.streams.set i s')[j]? = some t) (ht : t.remote = true) :
    ∃ id, t.id = some id ∧ t.direction = id.direction := by
  rw [getElem?_set_of hi] at hj
  split at hj
  · cases hj
    obtain ⟨id,hx,hy⟩ := h.known hi (hremote ▸ ht)
    exact ⟨id,hid.trans hx,hd.trans hy⟩
  · exact h.known hj ht

theorem Hosted.queued_set (h : c.Hosted) (hi : c.streams[i]? = some s)
    (hremote : s'.remote = s.remote) (hj : j ∈ c.acceptQueue) :
    ∃ t, (c.streams.set i s')[j]? = some t ∧ t.remote = true := by
  obtain ⟨t,hj',hr⟩ := h.queued hj
  rw [getElem?_set_of hi]
  split
  · rename_i hji
    rw [hji,hi] at hj'
    cases hj'
    exact ⟨s',rfl,hremote.trans hr⟩
  · exact ⟨t,hj',hr⟩

/-- A stream that is in use counts for the direction of its number, if it is one of the peer. -/
theorem Hosted.guest_iff (h : c.Hosted) (hi : c.streams[i]? = some s) (hid : s.id = some id)
    (hlive : s.released = false) (d : Direction) :
    s.guest d = true ↔ s.remote = true ∧ d = id.direction := by
  constructor
  · intro hg
    simp only [Stream.guest,Bool.and_eq_true,decide_eq_true_eq] at hg
    obtain ⟨id',hid',hd⟩ := h.known hi hg.1.1
    cases hid.symm.trans hid'
    exact ⟨hg.1.1,hg.1.2.symm.trans hd⟩
  · rintro ⟨hr,rfl⟩
    obtain ⟨id',hid',hd⟩ := h.known hi hr
    cases hid.symm.trans hid'
    simp [Stream.guest,hr,hd,hlive]

theorem Hosted.change (h : c.Hosted) (hi : c.streams[i]? = some s) (hp : s.Proceeds s')
    (hs : c'.streams = c.streams.set i s') (hb : c.Beside c') : c'.Hosted := by
  refine ⟨fun hj hr => ?_,?_,fun hj => ?_,?_,?_,?_⟩
  · rw [hs] at hj
    exact h.known_set hi hp.id hp.remote hp.direction hj hr
  · rw [hb.acceptQueue]
    exact h.distinct
  · rw [hb.acceptQueue] at hj
    rw [hs]
    exact h.queued_set hi hp.remote hj
  · rw [hb.closeReceived,hb.phase]
    exact h.heeds
  · rw [hb.activeRemote,hb.options]
    exact h.admitted
  · rw [hb.acceptQueue,hb.phase]
    exact h.counted.imp_right fun hc => hc.change hi hp hs hb.activeRemote

theorem Hosted.release (h : c.Hosted) (i : Nat) : (c.release i).Hosted := by
  rcases c.release_cases i with heq | ⟨s,id,hi,hid,hlive,hlocal,hremote,heq⟩
  · rw [heq]
    exact h
  · have hactive (d : Direction) := setActive_get ({ c with
      streams := c.streams.set i { s with released := true }
      table := c.table.filter fun entry => entry.1 ≠ id } : Connection) s.remote id.direction d
    rw [← heq] at hactive
    have hstreams : (c.release i).streams = c.streams.set i { s with released := true } := by
      rw [heq,setActive_eq]
    have hkept : (c.release i).acceptQueue = c.acceptQueue ∧ (c.release i).phase = c.phase ∧
        (c.release i).closeReceived = c.closeReceived ∧ (c.release i).options = c.options := by
      rw [release_eq]
      exact ⟨rfl,rfl,rfl,rfl⟩
    obtain ⟨hqueue,hphase,hclose,hoptions⟩ := hkept
    refine ⟨fun hj hr => ?_,?_,fun hj => ?_,?_,fun d => ?_,?_⟩
    · rw [hstreams] at hj
      exact h.known_set hi (by rfl) (by rfl) (by rfl) hj hr
    · rw [hqueue]
      exact h.distinct
    · rw [hqueue] at hj
      rw [hstreams]
      exact h.queued_set hi (by rfl) hj
    · rw [hclose,hphase]
      exact h.heeds
    · rw [hactive,hoptions]
      exact (Nat.sub_le _ _).trans (h.admitted d)
    · rw [hqueue,hphase]
      refine h.counted.imp_right fun hc => ⟨fun d => ?_,fun hj hr hl => ?_⟩
      · have hcovered := hc.covered d
        have hcount := countP_guest_set hi { s with released := true } d
        have hgone : ({ s with released := true } : Stream).guest d = false := by
          simp [Stream.guest]
        simp only [hgone,h.guest_iff hi hid hlive d,Bool.false_eq_true,if_false] at hcount
        rw [hstreams,hactive]
        dsimp only
        omega
      · rw [hstreams,getElem?_set_of hi] at hj
        split at hj
        · cases hj
          exact ⟨hlocal,hremote⟩
        · exact hc.finished hj hr hl

theorem Hosted.add (h : c.Hosted) (d : Direction) :
    ({ c with streams := c.streams ++ [Stream.fresh d false c.options c.peer] } :
      Connection).Hosted := by
  refine ⟨fun hj hr => ?_,h.distinct,fun hj => ?_,h.heeds,h.admitted,?_⟩
  · rcases getElem?_concat hj with hj | ⟨-,rfl⟩
    · exact h.known hj hr
    · cases hr
  · obtain ⟨t,hj',hr⟩ := h.queued hj
    exact ⟨t,getElem?_append_of_some _ hj',hr⟩
  · refine h.counted.imp_right fun hc => ⟨fun d' => ?_,fun hj hr hl => ?_⟩
    · have hcovered := hc.covered d'
      simpa [List.countP_append,Stream.guest,Stream.fresh] using hcovered
    · rcases getElem?_concat hj with hj | ⟨-,rfl⟩
      · exact hc.finished hj hr hl
      · cases hr

theorem Hosted.start (h : c.Hosted) (hs : Start i c c') : c'.Hosted := by
  obtain ⟨hi,hid,-,-,-⟩ := hs
  rename_i s
  -- a stream of the peer has an id from the beginning
  have hlocal : s.remote = false := by
    refine Bool.eq_false_of_not_eq_true fun hr => ?_
    obtain ⟨id,hid',-⟩ := h.known hi hr
    cases hid.symm.trans hid'
  have hold {j : Nat} {t : Stream} (hj : (c.started i s).streams[j]? = some t)
      (hr : t.remote = true) : c.streams[j]? = some t := by
    simp only [started,getElem?_set_of hi] at hj
    split at hj
    · cases hj
      cases (show s.remote = true from hr).symm.trans hlocal
    · exact hj
  refine ⟨fun hj hr => h.known (hold hj hr) hr,h.distinct,fun {j} hj => ?_,h.heeds,h.admitted,?_⟩
  · obtain ⟨t,hj',hr⟩ := h.queued hj
    refine ⟨t,?_,hr⟩
    simp only [started,getElem?_set_of hi]
    rw [if_neg]
    · exact hj'
    · rintro rfl
      cases hi.symm.trans hj'
      cases hlocal.symm.trans hr
  · refine h.counted.imp_right
      fun hc => ⟨fun d => ?_,fun hj hr hl => hc.finished (hold hj hr) hr hl⟩
    have hcovered := hc.covered d
    have hcount := countP_guest_set hi { s with
      id := some (.ofParts (UInt64.ofNat (c.nextLocal.get s.direction)) s.direction c.role) } d
    simp only [started]
    simp only [Stream.guest,hlocal] at hcount hcovered ⊢
    omega

theorem Hosted.surface (h : c.Hosted) (hp : c.phase = .active)
    (hl : c.activeRemote.get id.direction < (c.options.maxStreams id.direction).toNat) :
    (c.surfaced id).Hosted := by
  have hcounted : c.Counted := by
    refine h.counted.resolve_left ?_
    rintro ⟨hw | hw,-⟩ <;> rw [hp] at hw <;> cases hw
  have hnew : c.streams.length ∉ c.acceptQueue := by
    intro hmem
    obtain ⟨t,ht,-⟩ := h.queued hmem
    have := (List.getElem?_eq_some_iff.mp ht).1
    omega
  refine ⟨fun hj hr => ?_,?_,fun hj => ?_,h.heeds,fun d => ?_,.inr ⟨fun d => ?_,fun hj hr hx => ?_⟩⟩
  · rcases getElem?_concat hj with hj | ⟨-,rfl⟩
    · exact h.known hj hr
    · exact ⟨id,rfl,rfl⟩
  · refine List.nodup_append.mpr ⟨h.distinct,List.nodup_singleton _,?_⟩
    intro j hj k hk hjk
    rw [hjk,List.mem_singleton.mp hk] at hj
    exact hnew hj
  · rcases List.mem_append.mp hj with hj | hj
    · obtain ⟨t,hj',hr⟩ := h.queued hj
      exact ⟨t,getElem?_append_of_some _ hj',hr⟩
    · rw [List.mem_singleton.mp hj]
      exact ⟨{ Stream.fresh id.direction true c.options c.peer with id := some id },
        by simp [surfaced],rfl⟩
  · have hadmitted := h.admitted d
    simp only [surfaced,reached,PerDirection.get_set]
    split
    · rename_i hd
      rw [hd]
      omega
    · exact hadmitted
  · have hcovered := hcounted.covered d
    simp only [surfaced,PerDirection.get_set,List.countP_append,List.countP_singleton]
    by_cases hd : d = id.direction
    · simp only [if_pos hd]
      rw [← hd]
      split <;> omega
    · have hother : ({ Stream.fresh id.direction true c.options c.peer with id := some id } :
          Stream).guest d = false := by
        simp [Stream.guest,Stream.fresh,Ne.symm hd]
      simp only [if_neg hd,hother,Bool.false_eq_true,if_false]
      omega
  · rcases getElem?_concat hj with hj | ⟨-,rfl⟩
    · exact hcounted.finished hj hr hx
    · cases hx

theorem Touch.hosted (ht : Touch c c') (h : c.Hosted) : c'.Hosted := by
  cases ht with
  | rest streams _ pending activeRemote options wanes =>
    refine ⟨?_,h.distinct.sublist pending,fun hj => ?_,fun hr => ?_,?_,?_⟩
    · rw [streams]
      exact h.known
    · rw [streams]
      exact h.queued (pending.subset hj)
    · rcases wanes.closeReceived with heq | hw
      · exact wanes.phase (h.heeds (heq ▸ hr))
      · exact hw
    · rw [activeRemote,options]
      exact h.admitted
    · rcases h.counted with ⟨hw,hq⟩ | hc
      · rw [hq] at pending
        exact .inl ⟨wanes.phase hw,List.sublist_nil.mp pending⟩
      · refine .inr ⟨?_,?_⟩
        · rw [streams,activeRemote]
          exact hc.covered
        · rw [streams]
          exact hc.finished
  | change hi streams beside proceeds => exact h.change hi proceeds streams beside
  | release i => exact h.release i
  | add d => exact h.add d
  | start hs => exact h.start hs
  | surface metrics changes hp hl =>
    have hs := h.surface hp hl
    exact { hs with counted := hs.counted.imp_right fun hc => ⟨hc.covered,hc.finished⟩ }
  | fall streams _ acceptQueue activeRemote options wanes ends =>
    have hwaning : c'.phase.Waning := ends.elim (fun hr => wanes.phase (h.heeds hr)) id
    refine ⟨fun {j t'} hj hr => ?_,?_,fun hj => ?_,fun _ => hwaning,fun d => ?_,
      .inl ⟨hwaning,acceptQueue⟩⟩
    · obtain ⟨f,hf,hlapses⟩ := streams j
      rw [hf] at hj
      obtain ⟨t,hj',rfl⟩ := Option.map_eq_some_iff.mp hj
      obtain ⟨_,_,_,_,heq,-⟩ := hlapses t
      rw [heq] at hr ⊢
      have hknown := h.known hj' hr
      exact hknown
    · rw [acceptQueue]
      exact List.nodup_nil
    · rw [acceptQueue] at hj
      cases hj
    · rw [activeRemote]
      cases d <;> exact Nat.zero_le _

end Step

/-- Different places of a list hold no more of something than the list. -/
theorem countP_places_le (streams : List Stream) (p : Stream → Bool) {places : List Nat}
    (h : places.Nodup) : places.countP (fun i => streams[i]?.any p) ≤ streams.countP p := by
  have hall : (List.range streams.length).countP (fun i => streams[i]?.any p) =
      streams.countP p := by
    induction streams using List.reverseRecOn with
    | nil => rfl
    | append_singleton streams s ih =>
      rw [List.length_append,List.length_singleton,List.range_succ,List.countP_append,
        List.countP_append,← ih]
      congr 1
      · refine List.countP_congr fun i hi => ?_
        rw [List.getElem?_append_left (List.mem_range.mp hi)]
      · simp
  rw [← hall,List.countP_eq_length_filter,List.countP_eq_length_filter]
  refine ((h.filter _).subperm fun i hi => ?_).length_le
  obtain ⟨-,hp⟩ := List.mem_filter.mp hi
  obtain ⟨s,hs,-⟩ := Option.any_eq_true _ _ |>.mp hp
  exact List.mem_filter.mpr ⟨List.mem_range.mpr (List.getElem?_eq_some_iff.mp hs).1,hp⟩

def unfinished (c : Connection) (d : Direction) (i : Nat) : Bool :=
  c.streams[i]?.any fun s => decide (s.direction = d) && s.unfinished

/-- Those that wait and are not finished are in use, so the counters cover them. -/
theorem Hosted.countP_unfinished {c : Connection} (h : c.Hosted) (d : Direction) :
    c.acceptQueue.countP (c.unfinished d) ≤ (c.options.maxStreams d).toNat := by
  rcases h.counted with ⟨-,hq⟩ | hc
  · rw [hq]
    exact Nat.zero_le _
  · calc c.acceptQueue.countP (c.unfinished d)
      _ ≤ c.acceptQueue.countP (fun i => c.streams[i]?.any (Stream.guest d)) := by
          refine List.countP_mono_left fun i hi hu => ?_
          obtain ⟨s,hs,hr⟩ := h.queued hi
          simp only [unfinished,hs,Option.any_some,Bool.and_eq_true,decide_eq_true_eq] at hu ⊢
          have hlive : s.released = false := by
            refine Bool.eq_false_of_not_eq_true fun hx => ?_
            obtain ⟨hlocal,hremote⟩ := hc.finished hs hr hx
            simp [Stream.unfinished,hlocal,hremote] at hu
          simp [Stream.guest,hr,hu.1,hlive]
      _ ≤ c.streams.countP (Stream.guest d) := countP_places_le c.streams _ h.distinct
      _ ≤ c.activeRemote.get d := hc.covered d
      _ ≤ (c.options.maxStreams d).toNat := h.admitted d

end Connection

namespace Station

open Connection

theorem Fresh.hosted {s : Station} (h : s.Fresh) (steps : List Step) :
    (s.run steps).connection.Hosted :=
  (h.touches steps).keep Touch.hosted (h.connection hosted_fresh)

/-- Whatever the peer sends, and whether or not anything is accepted, the streams that wait to be
accepted are different streams of the peer, and those of them that are not finished are within the
limits, in each direction and together. -/
theorem queue_within_limits (role : Role) (options : Options) (codes : CodeSpace)
    (channel : Channel) (steps : List Step) :
    let c := ((fresh role options codes channel).run steps).connection
    c.acceptQueue.Nodup ∧
      (∀ i ∈ c.acceptQueue, ∃ s, c.streams[i]? = some s ∧ s.remote = true) ∧
      (∀ d, c.acceptQueue.countP (c.unfinished d) ≤ (options.maxStreams d).toNat) ∧
      c.acceptQueue.countP (fun i => c.streams[i]?.any Stream.unfinished) ≤
        options.maxBidirectional.toNat + options.maxUnidirectional.toNat := by
  intro c
  have hfresh := Fresh.intro role options codes channel
  have hhosted : c.Hosted := hfresh.hosted steps
  have ho : c.options = options := (hfresh.deeds steps).later.options
  have hlimit (d : Direction) : c.acceptQueue.countP (c.unfinished d) ≤
      (options.maxStreams d).toNat := by
    rw [← ho]
    exact hhosted.countP_unfinished d
  refine ⟨hhosted.distinct,fun i hi => hhosted.queued hi,hlimit,?_⟩
  have hsplit : c.acceptQueue.countP (fun i => c.streams[i]?.any Stream.unfinished) ≤
      c.acceptQueue.countP (c.unfinished .bidirectional) +
        c.acceptQueue.countP (c.unfinished .unidirectional) := by
    generalize c.acceptQueue = queue
    induction queue with
    | nil => exact Nat.zero_le _
    | cons i queue ih =>
      simp only [List.countP_cons]
      have hone : (if c.streams[i]?.any Stream.unfinished = true then 1 else 0) ≤
          (if c.unfinished .bidirectional i = true then 1 else 0) +
            if c.unfinished .unidirectional i = true then 1 else 0 := by
        unfold unfinished
        cases c.streams[i]? with
        | none => simp
        | some s => cases hd : s.direction <;> simp [hd]
      omega
  have hbidirectional : _ ≤ options.maxBidirectional.toNat := hlimit .bidirectional
  have hunidirectional : _ ≤ options.maxUnidirectional.toNat := hlimit .unidirectional
  omega

/-- The peer opens streams one after the other and ends or resets each at once. -/
def passersBy : List Step :=
  meeting {} ++ [.hearing [.stream ⟨3⟩ true [1], .stream ⟨7⟩ true [2], .reset ⟨11⟩ 5]]

/-- Of the four streams that wait in the end the last is not finished. -/
theorem queue_within_limits_passersBy :
    let options : Options := { maxBidirectional := 0, maxUnidirectional := 1 }
    let c := ((fresh .client options .direct .plain).run
      (passersBy ++ [.hearing [.stream ⟨15⟩ false [3]]])).connection
    c.acceptQueue = [0, 1, 2, 3] ∧ (∃ s, c.streams[3]? = some s ∧ s.remote = true) ∧
      c.unfinished .unidirectional 3 = true ∧
      c.acceptQueue.countP (c.unfinished .unidirectional) ≤ 1 := by
  intro options c
  have hqueue : c.acceptQueue = [0, 1, 2, 3] := by decide +kernel
  obtain ⟨-,hstreams,hlimit,-⟩ := queue_within_limits .client options .direct .plain
    (passersBy ++ [.hearing [.stream ⟨15⟩ false [3]]])
  refine ⟨hqueue,hstreams 3 ?_,by decide +kernel,hlimit .unidirectional⟩
  rw [show ((fresh .client options .direct .plain).run
    (passersBy ++ [.hearing [.stream ⟨15⟩ false [3]]])).connection.acceptQueue = _ from hqueue]
  simp

/-- One stream at a time is within the limits, and three wait that nobody has accepted. -/
theorem finished_streams_pile_up :
    let options : Options := { maxBidirectional := 0, maxUnidirectional := 1 }
    let c := ((fresh .client options .direct .plain).run passersBy).connection
    c.error = none ∧ c.phase = .active ∧ c.acceptQueue = [0, 1, 2] ∧
      options.maxBidirectional.toNat + options.maxUnidirectional.toNat < c.acceptQueue.length := by
  refine ⟨?_,?_,?_,?_⟩ <;> decide +kernel

end Station

end Multiplex
