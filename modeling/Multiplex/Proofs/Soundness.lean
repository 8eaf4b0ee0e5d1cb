import Multiplex.Proofs.Sound

/-!
Moves, new streams and frames of the peer keep a connection sound.
-/

namespace Multiplex.Connection

variable {c c' : Connection} {f : Frame} {id : StreamId} {i : Nat} {s : Stream} {data : Bytes}
  {w : ReceiveWindow} {b : Batch}

theorem Sound.add (h : c.Sound) (d : Direction) (hp : c.phase = .active) :
    ({ c with streams := c.streams ++ [Stream.fresh d false c.options c.peer] } :
      Connection).Sound := by
  refine ⟨⟨h.numbered,?_,?_,?_,?_⟩,{ h with iff := ?_ },⟨h.control,?_⟩,
    ⟨h.still,?_,h.closing,?_,h.shut⟩⟩
  · intro i j s t hi hj hsome heq
    rcases getElem?_concat hi with hi | ⟨-,rfl⟩
    · rcases getElem?_concat hj with hj | ⟨-,rfl⟩
      · exact h.unique hi hj hsome heq
      · rw [heq] at hsome
        cases hsome
    · cases hsome
  · intro i s hi hid
    rcases getElem?_concat hi with hi | ⟨-,rfl⟩
    · exact h.idle hi hid
    · exact ⟨Stream.fresh_fresh _ _ _ _,rfl⟩
  · intro i s id hi hid
    rcases getElem?_concat hi with hi | ⟨-,rfl⟩
    · exact Holds.congr (c := c) ⟨rfl,rfl,rfl,rfl,rfl⟩ (h.held hi hid)
    · cases hid
  · intro e k hk
    obtain ⟨i,s,hi,hid⟩ := h.complete hk
    exact ⟨i,s,getElem?_append_of_some _ hi,hid⟩
  · intro id i
    refine h.iff.trans ⟨?_,?_⟩
    · rintro ⟨s,hi,hs⟩
      exact ⟨s,getElem?_append_of_some _ hi,hs⟩
    · rintro ⟨s,hi,hid,hl⟩
      rcases getElem?_concat hi with hi | ⟨-,rfl⟩
      · exact ⟨s,hi,hid,hl⟩
      · cases hid
  · intro q hq
    rcases h.data q hq with hx | ⟨i,s,id,fin,data,ho,hi,hs⟩
    · exact .inl hx
    · exact .inr ⟨i,s,id,fin,data,ho,getElem?_append_of_some _ hi,hs⟩
  · intro hx
    cases (show c.phase = .connecting from hx).symm.trans hp
  · intro hx i s hi
    rcases getElem?_concat hi with hi | ⟨-,rfl⟩
    · exact h.healthy hx hi
    · rfl

theorem Sound.enqueueControl (h : c.Sound) (hf : f.Overtakes) : (c.enqueueControl f).Sound := by
  have hc : c.SameSite (c.enqueueControl f) := by
    rw [enqueueControl_eq]
    exact ⟨rfl,rfl,rfl,rfl,rfl⟩
  refine h.congr hc ?_ ?_ ?_ ?_ ⟨?_,?_⟩ ?_ <;> rw [enqueueControl_eq]
  · intro g hg
    rcases mem_enqueueControl hg with hg | rfl
    · exact h.control g hg
    · exact hf
  · exact h.data
  · exact { h with }

theorem Sound.abort (h : c.Sound) (e : Failure) (hp : c.phase ≠ .closed) : (c.abort e).Sound := by
  refine h.fall (h.fell_abort e hp) ?_ ?_ ?_ ?_ ?_ ?_ ?_ ?_ <;> rw [abort_eq c e hp]
  · exact ⟨rfl,rfl,rfl,rfl,rfl⟩
  all_goals simp

theorem Holds.settle {s₁ : Stream} (h : c.Holds id s) (hd : s₁.direction = s.direction)
    (hr : s₁.remote = s.remote) (hm : s₁.hasWriteSide = false → s₁.ledger.sent = [])
    (ht : s₁.window.threshold = s.window.threshold) (hs : s₁.settle.Sound c.options.window) :
    c.Holds id s₁.settle := by
  rw [Stream.settle_agrees] at hs ⊢
  refine ⟨hd.trans h.direction,hr.trans h.remote,?_,hm,ht.trans h.measured,hs⟩
  rw [hr]
  exact h.below

theorem Sound.noted (h : c.Sound) (metrics : Metrics) (changes : Nat) (acceptQueue : List Nat)
    (closedLocally writesShut readEnded : Bool) (journal : Journal) :
    ({ c with metrics, changes, acceptQueue, closedLocally, writesShut, readEnded, journal } :
      Connection).Sound :=
  h.congr ⟨rfl,rfl,rfl,rfl,rfl⟩ rfl rfl rfl rfl ⟨h.control,h.data⟩ { h with }

theorem Sound.hear (h : c.Sound) (f : Frame) (size : Nat) : (c.hear f size).Sound :=
  h.noted _ _ _ _ _ _ _

section Moves

variable (h : c.Sound)

include h

theorem Sound.enqueueClose (code : UInt64) : (c.enqueueClose code).Sound := by
  have hs : c.SameSite (c.enqueueClose code) := by
    rw [enqueueClose_eq]
    exact ⟨rfl,rfl,rfl,rfl,rfl⟩
  refine h.congr hs ?_ ?_ ?_ ?_ ⟨?_,?_⟩ ?_ <;> rw [enqueueClose_eq]
  · exact h.control
  · intro q hq
    simp only [Connection.enqueueClose] at hq
    split at hq
    · exact h.data q hq
    · rcases List.mem_append.mp hq with hq | hq
      · exact h.data q hq
      · rw [List.mem_singleton.mp hq]
        exact .inl ⟨rfl,_,rfl⟩
  · exact { h with }

theorem Sound.failStreams (e : Failure) (hc : c.closeReceived.isSome) :
    (c.failStreams e).Sound := by
  refine h.fall (h.toTabled.fell_failStreams e) ?_ ?_ ?_ ?_ ?_ ?_ ?_ ?_ <;> rw [failStreams_eq]
  · exact ⟨rfl,rfl,rfl,rfl,rfl⟩
  · exact h.closing hc
  · intro hx
    rw [(h.unopened hx).2] at hc
    cases hc
  · exact fun _ => id
  · exact fun _ => id

variable (hi : c.streams[i]? = some s)

include hi

theorem Sound.tend {s' : Stream} {update : Option Frame}
    (ht : s.Tends c.options.window s' update) :
    ({ c with streams := c.streams.set i s' }.enqueueControl? update).Sound := by
  have ha := ht.agrees
  refine h.change hi ⟨_,_,_,enqueueControl?_eq _ _⟩ ha.id ha.released ?_ ?_ ha.error ?_ ?_
  · intro hid
    obtain ⟨hf,hr⟩ := h.idle hi hid
    exact ⟨ht.fresh hid _ _ hf,ha.remote.trans hr⟩
  · intro id hid
    exact Tends.holds ht hid (h.held hi hid)
  · intro f hf
    rcases mem_enqueueControl? hf with hf | hf
    · exact .inl hf
    · obtain ⟨_,_,-,rfl⟩ := ht.announced f (by simp [hf])
      exact .inr trivial
  · intro q hq
    rw [enqueueControl?_eq] at hq
    exact .inl hq

/-- A stream that only remembers a reset, once it has started, is out of use. -/
theorem Sound.unused_of_mark (hid : s.id = some id)
    (hx : s.id = none ∨ (s.released = true ∧ c.phase ≠ .active) ∨ c.phase = .closed) :
    s.released = true ∧ c.phase ≠ .active := by
  rcases hx with hx | hx | hx
  · cases hid.symm.trans hx
  · exact hx
  · refine ⟨?_,by simp [hx]⟩
    by_contra hl
    exact (h.not_closed hi hid (Bool.eq_false_of_not_eq_true hl)).1 hx

theorem Sound.mark (code : UInt64) (hr : ∀ id, s.id = some id → s.released = true) :
    ({ c with streams := c.streams.set i (s.markReset code) } : Connection).Sound := by
  refine h.change hi ⟨_,_,_,rfl⟩ rfl rfl ?_ ?_ rfl (fun _ => .inl) (fun _ => .inl)
  · intro hid
    obtain ⟨hf,hr⟩ := h.idle hi hid
    exact ⟨{ hf with },hr⟩
  · intro id hid
    have hh := h.held hi hid
    refine { hh with sound := { hh.sound with balance := ?_, undone := ?_, spent := ?_ } }
    · intro _ hl
      simp [hr id hid] at hl
    · intro hl
      simp [hr id hid] at hl
    · intro _
      left
      cases hc : s.resetCode <;> simp [Stream.markReset,Stream.localDone,Stream.remoteDone,hc]

variable (hid : s.id = some id)

include hid

theorem Sound.send (hw : s.writeError = none) (data : Bytes) :
    ({ c with streams := c.streams.set i (s.charge data) }.append
      ⟨.stream id false data, some i⟩).Sound := by
  have hh := h.held hi hid
  have hside := (Stream.writeError_eq_none_iff.mp hw).1
  refine h.change hi ⟨_,_,_,rfl⟩ rfl rfl (by simp [hid]) ?_ rfl (fun _ => .inl) ?_
  · intro id' hid'
    cases hid.symm.trans hid'
    refine { hh with mute := fun hx => ?_, sound := { hh.sound with } }
    cases (show s.hasWriteSide = false from hx).symm.trans hside
  · intro q hq
    rcases List.mem_append.mp hq with hq | hq
    · exact .inl hq
    · exact .inr ⟨id,false,data,hid,List.mem_singleton.mp hq⟩

theorem Sound.finish (hw : s.writeError = none) :
    (({ c with streams := c.streams.set i s.finish }.append
      ⟨.stream id true [], some i⟩).release i).Sound := by
  have hh := h.held hi hid
  have hl := hh.sound.live hw
  have hside := (Stream.writeError_eq_none_iff.mp hw).1
  refine h.settle hi hid hl ⟨_,_,_,rfl⟩ hid hl rfl rfl ?_ (fun _ => .inl) ?_
  · refine hh.settle rfl rfl (fun hx => ?_) rfl (.of_settle { hh.sound.toContent with } hl)
    cases (show s.hasWriteSide = false from hx).symm.trans hside
  · intro q hq
    rcases List.mem_append.mp hq with hq | hq
    · exact .inl hq
    · exact .inr ⟨true,[],List.mem_singleton.mp hq⟩

theorem Sound.reset (hl : s.released = false) (code wire : UInt64) :
    ({ c.enqueueControl (.reset id wire) with
      streams := c.streams.set i (s.markReset code)
      dataQueue := c.dataQueue.filter fun q => q.owner ≠ some i }.release i).Sound := by
  have hh := h.held hi hid
  have hid' : (s.markReset code).id = some id := hid
  refine h.settle hi hid hl ⟨(c.enqueueControl (.reset id wire)).controlQueue,
    c.dataQueue.filter fun q => q.owner ≠ some i,(c.enqueueControl (.reset id wire)).journal,?_⟩
    hid' hl rfl rfl ?_ ?_ ?_
  · rw [enqueueControl_eq]
  · exact hh.settle rfl rfl hh.mute rfl (.of_settle { hh.sound.toContent with } hl)
  · intro f hf
    rcases mem_enqueueControl hf with hf | rfl
    · exact .inl hf
    · exact .inr trivial
  · intro q hq
    exact .inl (List.mem_of_mem_filter hq)

end Moves

theorem Move.sound (hm : Move c c') (h : c.Sound) : c'.Sound := by
  cases hm with
  | note => exact h.noted _ _ _ _ _ _ _
  | add d hp => exact h.add d hp
  | tend hi ht => exact h.tend hi ht
  | send hi hid hw => exact h.send hi hid hw _
  | spend credit hi hid hw hp =>
    exact absurd hp (h.not_closed hi hid ((h.held hi hid).sound.live hw)).1
  | finish hi hid hw => exact h.finish hi hid hw
  | reset code wire hi hid hl => exact h.reset hi hid hl code wire
  | mark code hi hx => exact h.mark hi code fun _ hid => (h.unused_of_mark hi hid hx).1
  | @say f hf =>
    refine h.enqueueControl ?_
    rcases hf with ⟨v,rfl⟩ | ⟨v,rfl⟩ <;> trivial
  | close code => exact h.enqueueClose code
  | wane hp =>
    refine h.congr ⟨rfl,rfl,rfl,rfl,rfl⟩ rfl rfl rfl rfl ⟨h.control,h.data⟩
      ⟨?_,by simp,by simp,by simp,by simp⟩
    rintro (hx | hx)
    · cases hx
    · exact h.still (.inr hx)
  | shut hp ht =>
    exact h.congr ⟨rfl,rfl,rfl,rfl,rfl⟩ rfl rfl rfl rfl ⟨h.control,h.data⟩
      { h with still := fun _ => ht, shut := fun _ => .inl hp }
  | complete hp ht =>
    refine h.congr ⟨rfl,rfl,rfl,rfl,rfl⟩ rfl rfl rfl rfl ⟨h.control,h.data⟩
      ⟨fun _ => ?_,by simp,by simp,by simp,by simp⟩
    exact ht.elim id fun hw => h.still (.inr hw)
  | lose e hc => exact h.failStreams e hc
  | abort e hp => exact h.abort e hp

theorem Moves.sound (hm : Moves c c') (h : c.Sound) : c'.Sound := by
  induction hm with
  | refl => exact h
  | tail _ hm ih => exact hm.sound ih

theorem Sound.started_fresh (h : c.Sound) {d : Direction} (hn : c.nextLocal.get d < StreamId.span)
    {j : Nat} {t : Stream} (hj : c.streams[j]? = some t) :
    t.id ≠ some (.ofParts (UInt64.ofNat (c.nextLocal.get d)) d c.role) := by
  intro hid
  have hh := h.held hj hid
  have hr : t.remote = false := by
    rw [hh.remote,StreamId.initiator_ofParts]
    simp
  have hb := hh.below
  rw [hr,StreamId.sequence_ofParts _ _ _ hn,StreamId.direction_ofParts _ _ _ hn] at hb
  simp at hb

/-- A stream takes a place in the table, with an id that no stream has had. -/
theorem Sound.enrol {streams : List Stream}
    {nextLocal nextRemote activeLocal activeRemote : PerDirection Nat} {acceptQueue : List Nat}
    (h : c.Sound) (hc : c' = { c with
      streams, nextLocal, nextRemote, activeLocal, activeRemote, acceptQueue,
      table := c.table ++ [(id, i)] }) (hp : c.phase = .active)
    (hst : ∀ j : Nat, streams[j]? = if j = i then some s else c.streams[j]?)
    (vacant : ∀ t, c.streams[i]? = some t → t.id = none) (hid : s.id = some id)
    (fresh : s.Fresh c.options c.peer)
    (new : ∀ {j : Nat} {t : Stream}, c.streams[j]? = some t → t.id ≠ some id)
    (numbered : c'.Numbered)
    (held : ∀ {j : Nat} {t : Stream} {id' : StreamId}, c.streams[j]? = some t → t.id = some id' →
      c'.Holds id' t) (self : c'.Holds id s)
    (complete : ∀ (d : Direction) (k : Nat), k < nextLocal.get d →
      k < c.nextLocal.get d ∨ id = .ofParts (UInt64.ofNat k) d c.role)
    (counted : ∀ remote d, (if remote then activeRemote else activeLocal).get d =
      (if remote then c.activeRemote else c.activeLocal).get d +
        if counts c.role remote d (id, i) then 1 else 0)
    (within : ∀ d, activeLocal.get d ≤ (c.peer.maxStreams d).toNat)
    (admitted : ∀ d, activeRemote.get d ≤ (c.options.maxStreams d).toNat) : c'.Sound := by
  subst hc
  have hold {j : Nat} {t : Stream} (hj : c.streams[j]? = some t) (ht : t.id.isSome) :
      streams[j]? = some t := by
    rw [hst,if_neg]
    · exact hj
    · rintro rfl
      rw [vacant t hj] at ht
      cases ht
  refine ⟨⟨numbered,?_,?_,?_,?_⟩,⟨?_,?_,?_,within,admitted⟩,⟨h.control,?_⟩,
    ⟨?_,?_,h.closing,?_,h.shut⟩⟩
  · intro j k t u hj hk hsome heq
    rw [hst] at hj hk
    split at hj <;> split at hk
    · omega
    · cases hj
      exact absurd (heq.symm.trans hid) (new hk)
    · cases hk
      exact absurd (heq.trans hid) (new hj)
    · exact h.unique hj hk hsome heq
  · intro j t hj ht
    rw [hst] at hj
    split at hj
    · cases hj
      cases hid.symm.trans ht
    · exact h.idle hj ht
  · intro j t id' hj ht
    rw [hst] at hj
    split at hj
    · cases hj
      cases hid.symm.trans ht
      exact self
    · exact held hj ht
  · intro d k hk
    rcases complete d k hk with hlt | rfl
    · obtain ⟨j,t,hj,ht⟩ := h.complete hlt
      exact ⟨j,t,hold hj (by simp [ht]),ht⟩
    · exact ⟨i,s,by rw [hst,if_pos rfl],hid⟩
  · intro id' j
    rw [List.mem_append,List.mem_singleton,Prod.mk.injEq,h.iff,hst]
    by_cases hj : j = i
    · subst hj
      simp only [if_true,and_true]
      constructor
      · rintro (⟨t,ht,hid',-⟩ | rfl)
        · cases (vacant t ht).symm.trans hid'
        · exact ⟨s,rfl,hid,fresh.released⟩
      · rintro ⟨t,ht,hid',-⟩
        cases ht
        exact .inr (Option.some.inj (hid'.symm.trans hid))
    · simp [hj]
  · rw [List.nodup_append]
    refine ⟨h.distinct,List.nodup_singleton _,?_⟩
    rintro e he f hf rfl
    rw [List.mem_singleton.mp hf] at he
    obtain ⟨t,ht,hid',-⟩ := h.iff.mp he
    exact new ht hid'
  · intro remote d
    rw [counted,h.counted,List.countP_append,List.countP_singleton]
  · intro q hq
    rcases h.data q hq with hx | ⟨j,t,id',fin,data,ho,hj,ht,hf⟩
    · exact .inl hx
    · exact .inr ⟨j,t,id',fin,data,ho,hold hj (by simp [ht]),ht,hf⟩
  · rintro (hx | hx)
    · cases (show c.phase = .closed from hx).symm.trans hp
    · rcases h.shut hx with hx | hx <;> rw [hp] at hx <;> cases hx
  · intro hx
    cases (show c.phase = .connecting from hx).symm.trans hp
  · intro _ j t hj
    rw [hst] at hj
    split at hj
    · cases hj
      exact fresh.error
    · exact h.healthy hp hj

theorem Start.sound (hs : Start i c c') (h : c.Sound) (hn : c'.Numbered) : c'.Sound := by
  obtain ⟨hi,hid,hw,hp,hl⟩ := hs
  rename_i s
  obtain ⟨hfresh,hremote⟩ := h.idle hi hid
  have hreset := (Stream.writeError_eq_none_iff.mp hw).2.2.2.1
  have hk : c.nextLocal.get s.direction < StreamId.span := by
    have := hn s.direction
    simp only [started,PerDirection.get_set,if_true] at this
    omega
  have hnamed : Stream.Fresh c.options c.peer { s with
      id := some (.ofParts (UInt64.ofNat (c.nextLocal.get s.direction)) s.direction c.role) } :=
    { hfresh with }
  have hnew {j : Nat} {t : Stream} (hj : c.streams[j]? = some t) := h.started_fresh hk hj
  have hrole :=
    StreamId.initiator_ofParts (UInt64.ofNat (c.nextLocal.get s.direction)) s.direction c.role
  have hdir := StreamId.direction_ofParts _ s.direction c.role hk
  have hseq := StreamId.sequence_ofParts _ s.direction c.role hk
  have hnext (d : Direction) : c.nextLocal.get d ≤ (c.started i s).nextLocal.get d := by
    simp only [started,PerDirection.get_set]
    split
    · rename_i hd
      rw [hd]
      omega
    · exact le_rfl
  refine h.enrol rfl hp (getElem?_set_of hi _) ?_ rfl hnamed hnew hn ?_ ?_ ?_ ?_ ?_ h.admitted
  · intro t ht
    cases hi.symm.trans ht
    exact hid
  · intro j t id' hj ht
    have hh := h.held hj ht
    refine { hh with below := lt_of_lt_of_le hh.below ?_ }
    split
    · exact le_rfl
    · exact hnext _
  · refine ⟨hdir.symm,by simp [started,hremote,hrole],?_,fun _ => by simp [hfresh.ledger],
      congrArg _ hfresh.window,hnamed.sound hreset⟩
    rw [hseq,hdir]
    simp [started,hremote,PerDirection.get_set]
  · intro d k hkd
    by_cases hold : k < c.nextLocal.get d
    · exact .inl hold
    · simp only [PerDirection.get_set] at hkd
      split at hkd
      · rename_i hd
        obtain rfl : k = c.nextLocal.get s.direction := by
          rw [hd] at hold
          omega
        exact .inr (by rw [hd])
      · omega
  · intro remote d
    cases remote
    · by_cases hd : d = s.direction
      · simp [PerDirection.get_set,counts,hrole,hdir,hd]
      · simp [PerDirection.get_set,counts,hrole,hdir,hd,Ne.symm hd]
    · simp [counts,hrole]
  · intro d
    simp only [PerDirection.get_set]
    split
    · rename_i hd
      rw [hd]
      omega
    · exact h.within d

theorem Sound.find?_iff (h : c.Sound) :
    c.find? id = some i ↔ ∃ s : Stream, c.streams[i]? = some s ∧ s.id = some id ∧
      s.released = false := by
  rw [← h.iff]
  unfold find?
  constructor
  · intro hf
    obtain ⟨⟨id',j⟩,hx,rfl⟩ := Option.map_eq_some_iff.mp hf
    obtain rfl : id' = id := by simpa using List.find?_some hx
    exact List.mem_of_find?_eq_some hx
  · intro hmem
    cases hx : c.table.find? fun entry => decide (entry.1 = id) with
    | none =>
      have := List.find?_eq_none.mp hx _ hmem
      simp at this
    | some e =>
      obtain ⟨id',j⟩ := e
      obtain rfl : id' = id := by simpa using List.find?_some hx
      obtain ⟨s,hi,hs,-⟩ := h.iff.mp hmem
      obtain ⟨t,hj,ht,-⟩ := h.iff.mp (List.mem_of_find?_eq_some hx)
      rw [h.unique hi hj (by simp [hs]) (by rw [hs,ht])]
      rfl

/-- What a stray entry in the table would allow does not happen. -/
theorem Sound.no_stray (h : c.Sound) (hf : c.find? id = some i) : c.streams[i]? ≠ none := by
  obtain ⟨s,hi,-⟩ := h.find?_iff.mp hf
  rw [hi]
  simp

theorem Sound.found (h : c.Sound) (hf : c.find? id = some i) (hi : c.streams[i]? = some s) :
    s.id = some id ∧ s.released = false := by
  obtain ⟨s',hi',hid,hl⟩ := h.find?_iff.mp hf
  cases hi.symm.trans hi'
  exact ⟨hid,hl⟩

theorem Unheard.reach (new : c.Unheard id) (d : Direction) :
    c.nextRemote.get d ≤ (c.reached id).nextRemote.get d := by
  simp only [reached,PerDirection.get_set]
  split
  · rename_i hd
    have := new.next
    rw [hd]
    omega
  · exact le_rfl

theorem Sound.reached (h : c.Sound) (new : c.Unheard id) : (c.reached id).Sound := by
  refine ⟨{ h with held := ?_ },{ h with },⟨h.control,h.data⟩,{ h with }⟩
  intro i s id' hi hid
  have hh := h.held hi hid
  refine { hh with below := lt_of_lt_of_le hh.below ?_ }
  split
  · exact new.reach _
  · exact le_rfl

theorem Sound.surfaced (h : c.Sound) (hs : Surfaces f c id) : (c.surfaced id).Sound := by
  have new := hs.new
  have hr := h.reached new
  have hfresh : Stream.Fresh c.options c.peer
      { Stream.fresh id.direction true c.options c.peer with id := some id } :=
    ⟨rfl,rfl,rfl,rfl,rfl,rfl,rfl,rfl⟩
  refine h.enrol rfl hs.active (fun j => ?_) (fun t ht => ?_) rfl hfresh ?_ hr.numbered ?_ ?_
    ?_ ?_ h.within ?_
  · simp only [List.getElem?_append,List.getElem?_singleton]
    by_cases hj : j = c.streams.length
    · simp [hj]
    · by_cases hlt : j < c.streams.length
      · simp [hlt,hj]
      · have hge : c.streams.length < j := by omega
        have h0 : ¬j - c.streams.length = 0 := by omega
        simp [hlt,hj,h0]
  · simp at ht
  · intro j t hj ht
    have hh := h.held hj ht
    have hrem : t.remote = true := by
      rw [hh.remote]
      exact decide_eq_true new.initiator
    have hb := hh.below
    rw [hrem] at hb
    have := new.next
    simp only [if_true] at hb
    omega
  · intro j t id' hj ht
    exact Holds.congr (c := c.reached id) ⟨rfl,rfl,rfl,rfl,rfl⟩ (hr.held hj ht)
  · refine ⟨rfl,(decide_eq_true new.initiator).symm,?_,fun _ => rfl,rfl,hfresh.sound rfl⟩
    simp [Connection.surfaced,Connection.reached,Stream.fresh,PerDirection.get_set]
  · exact fun d k hk => .inl hk
  · intro remote d
    cases remote
    · simp [Connection.reached,counts,new.initiator]
    · by_cases hd : d = id.direction
      · simp [PerDirection.get_set,counts,new.initiator,hd]
      · simp [PerDirection.get_set,counts,hd,Ne.symm hd]
  · intro d
    simp only [PerDirection.get_set]
    split
    · rename_i hd
      rw [hd]
      exact hs.room
    · exact h.admitted d

theorem Sound.surface (h : c.Sound) (hs : Surfaces f c id) (metrics : Metrics) (changes : Nat) :
    ({ c.surfaced id with metrics, changes } : Connection).Sound :=
  (h.surfaced hs).noted metrics changes _ _ _ _ _

theorem Holds.of_receives {s' : Stream} {fin : Bool} {update : Option Frame} (h : c.Holds id s)
    (hr : s.Receives c.options.window s' fin data update) : c.Holds id s' := by
  refine ⟨hr.direction.trans h.direction,hr.remote.trans h.remote,?_,?_,
    hr.threshold.trans h.measured,hr.sound h.sound⟩
  · rw [hr.remote]
    exact h.below
  · intro hw
    rw [hr.sent]
    refine h.mute ?_
    rw [← hw,Stream.hasWriteSide,Stream.hasWriteSide,hr.direction,hr.remote]

theorem Sound.receive_data (h : c.Sound) (hi : c.streams[i]? = some s) (hid : s.id = some id)
    (hl : s.released = false) (hu : s.finReceived = false)
    (hw : s.window.receive data.length = .ok w) :
    ({ c.enqueueControl? (s.afterData w false data).1 with
      streams := c.streams.set i (s.afterData w false data).2.notify } : Connection).Sound := by
  have hr := Stream.receives_data c.options.window hid hl hu hw
  rw [← enqueueControl?_streams]
  refine h.change hi ⟨_,_,_,enqueueControl?_eq _ _⟩ hr.id (hr.released.trans hl.symm)
    (by simp [hid]) ?_ hr.error ?_ ?_
  · intro id' hid'
    cases hid.symm.trans hid'
    exact (h.held hi hid).of_receives hr
  · intro f hf
    rcases mem_enqueueControl? hf with hf | hf
    · exact .inl hf
    · obtain ⟨_,_,-,rfl⟩ := hr.announced f (by simp [hf])
      exact .inr trivial
  · intro q hq
    rw [enqueueControl?_eq] at hq
    exact .inl hq

theorem Sound.receive_fin (h : c.Sound) (hi : c.streams[i]? = some s) (hid : s.id = some id)
    (hl : s.released = false) (hu : s.finReceived = false)
    (hw : s.window.receive data.length = .ok w) :
    (({ c.enqueueControl? (s.afterData w true data).1 with
      streams :=
        c.streams.set i (s.afterData w true data).2.notify } : Connection).release i).Sound := by
  have hr := Stream.receives_fin c.options.window hid hl hu hw
  have hl' := Stream.afterData_released s w true data
  rw [s.afterData_fin w data]
  generalize (s.afterData w true data).2 = s₁ at hr hl'
  have hheld := (h.held hi hid).of_receives hr
  have hid' := hr.id
  have hrem := hr.remote
  have herr := hr.error
  rw [Stream.settle_agrees] at hid' hrem herr
  exact h.settle hi hid hl ⟨_,_,_,rfl⟩ (hid'.trans hid) (hl'.trans hl) hrem herr
    hheld (fun _ => .inl) (fun _ => .inl)

theorem Take.sound (ht : Take f c c') (h : c.Sound) (hp : c.phase ≠ .connecting) : c'.Sound := by
  induction ht with
  | @data c i s id fin data w hf hi hr hu hw =>
    obtain ⟨hid,hl⟩ := h.found hf hi
    cases fin with
    | false => exact h.receive_data hi hid hl hu hw
    | true => exact h.receive_fin hi hid hl hu hw
  | @grant c i s id n hf hi =>
    obtain ⟨hid,hl⟩ := h.found hf hi
    refine h.change hi ⟨_,_,_,rfl⟩ rfl rfl (by simp [hid]) ?_ rfl (fun _ => .inl) (fun _ => .inl)
    intro id' hid'
    have hh := h.held hi hid'
    exact { hh with sound := { hh.sound with } }
  | @reset c i s id wire code unwritten changes hf hi =>
    obtain ⟨hid,hl⟩ := h.found hf hi
    have hh := h.held hi hid
    have hs := hh.sound
    have hid' : ({ s with unwritten, changes }.markReset code).id = some id := hid
    refine h.settle hi hid hl ⟨_,_,_,rfl⟩ hid' hl rfl rfl ?_ (fun _ => .inl)
      fun q hq => .inl (List.mem_of_mem_filter hq)
    exact hh.settle rfl rfl hh.mute rfl (.of_settle { hs.toContent with } hl)
  | refuse new hp' => exact (h.reached new).enqueueControl trivial
  | pass new hp' => exact h.reached new
  | surface metrics changes hs _ ih =>
    refine ih (h.surface hs metrics changes) ?_
    rw [show ({ surfaced _ _ with metrics, changes } : Connection).phase = .active from hs.active]
    simp
  | drop | idle => exact h
  | @close c wire code hc =>
    by_cases ha : c.phase = .active
    · rw [if_pos ha]
      exact h.congr ⟨rfl,rfl,rfl,rfl,rfl⟩ rfl rfl rfl rfl ⟨h.control,h.data⟩
        ⟨fun hx => h.still (.inr (hx.resolve_left (by simp))),by simp,by simp,by simp,
          fun _ => .inl rfl⟩
    · rw [if_neg ha]
      exact h.congr ⟨rfl,rfl,rfl,rfl,rfl⟩ rfl rfl rfl rfl ⟨h.control,h.data⟩
        ⟨h.still,fun hx => absurd hx hp,fun _ => ha,fun hx => absurd hx ha,h.shut⟩
  | stray _ _ hf hi => exact absurd hi (h.no_stray hf)

theorem Breach.sound {v : Violation} (hb : Breach v f c c') (h : c.Sound) : c'.Sound := by
  induction hb with
  | beyondLimit hx => exact h.reached hx.new
  | surface metrics changes hs _ ih => exact ih (h.surface hs metrics changes)
  | neverOpened | data | duplicateClose | lateSettings => exact h

theorem abort_site (e : Failure) (hp : c.phase ≠ .closed) : c.SameSite (c.abort e) := by
  rw [abort_eq c e hp]
  exact ⟨rfl,rfl,rfl,rfl,rfl⟩

theorem Move.keeps (hm : Move c c') : c.Kept c' ∧ c'.nextRemote = c.nextRemote := by
  have h := Kept.refl c
  cases hm with
  | tend => rw [enqueueControl?_eq]; exact ⟨{ h with },rfl⟩
  | finish => rw [release_eq]; exact ⟨{ h with },rfl⟩
  | reset => rw [release_eq,enqueueControl_eq]; exact ⟨{ h with },rfl⟩
  | say => rw [enqueueControl_eq]; exact ⟨{ h with },rfl⟩
  | close => rw [enqueueClose_eq]; exact ⟨{ h with },rfl⟩
  | lose => rw [failStreams_eq]; exact ⟨{ h with },rfl⟩
  | abort e hp => exact ⟨kept_abort c e,(abort_site e hp).nextRemote⟩
  | note | add | send | spend | mark | wane | shut | complete => exact ⟨{ h with },rfl⟩

theorem Move.kept (hm : Move c c') : c.Kept c' := hm.keeps.1

theorem Move.site (hm : Move c c') : c.SameSite c' :=
  ⟨hm.kept.role,hm.kept.options,hm.kept.peer,hm.kept.nextLocal,hm.keeps.2⟩

theorem Moves.kept (hm : Moves c c') : c.Kept c' := by
  induction hm with
  | refl => exact .refl c
  | tail hm hstep ih => exact ih.trans hstep.kept

theorem takeBatch_eq (hb : c.takeBatch = (some b, c')) : ∃ control data journal,
      c' = { c with controlQueue := control, dataQueue := data, journal } := by
  unfold takeBatch at hb
  split at hb
  · cases hb
  · cases hb
    exact ⟨_,_,_,rfl⟩

theorem Sound.takeBatch (h : c.Sound) (hb : c.takeBatch = (some b, c')) : c'.Sound := by
  unfold Connection.takeBatch at hb
  split at hb
  · cases hb
  · cases hb
    exact h.congr ⟨rfl,rfl,rfl,rfl,rfl⟩ rfl rfl rfl rfl
      ⟨fun f hf => h.control f (List.mem_of_mem_drop hf),
        fun q hq => h.data q (List.mem_of_mem_drop hq)⟩
      { h with }

theorem Sound.establish (h : c.Sound) (hp : c.phase = .connecting) (peer : Settings) :
    ({ c with peer, phase := .active } : Connection).Sound := by
  obtain ⟨hnone,hclose⟩ := h.unopened hp
  have hempty (i : Nat) : c.streams[i]? = none := by simp [hnone]
  have htable : c.table = [] := by
    refine List.eq_nil_iff_forall_not_mem.mpr fun ⟨id,i⟩ hx => ?_
    obtain ⟨s,hi,-⟩ := h.iff.mp hx
    cases (hempty _).symm.trans hi
  refine ⟨{ h with idle := ?_, held := ?_ },{ h with within := ?_ },⟨h.control,h.data⟩,
    ⟨fun _ => htable,?_,?_,?_,?_⟩⟩
  · intro i s hi
    cases (hempty _).symm.trans hi
  · intro i s id hi
    cases (hempty _).symm.trans hi
  · intro e
    have := h.counted false e
    simp only [Bool.false_eq_true,if_false,htable,List.countP_nil] at this
    simp [this]
  · rintro ⟨⟩
  · intro hx
    rw [hclose] at hx
    cases hx
  · intro _ i s hi
    cases (hempty _).symm.trans hi
  · intro hx
    rcases h.shut hx with hy | hy <;> rw [hp] at hy <;> cases hy

end Multiplex.Connection
