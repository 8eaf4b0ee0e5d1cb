import Multiplex.Proofs.Changes

/-!
Whatever calls may wait for, its coming is signalled: on the stream or on the connection that they
listen to. Two things are not signalled where they should be, and both are left out here: the end of
writing, and what becomes of a stream that waits for its start. What has come is read off the
changes that a function is made of, so that each of them is looked at once.
-/

namespace Multiplex

namespace Stream

variable {s s' s'' : Stream} {late late' : Prop}

/-- Nothing has come that a call on the stream may wait for. -/
structure Quiet (s s' : Stream) : Prop where
  error : s'.error = s.error
  resetCode : s'.resetCode = s.resetCode
  disposed : s'.disposed = s.disposed
  abandoned : s'.abandoned = s.abandoned
  finReceived : s'.finReceived = s.finReceived
  inbound : s.inbound = [] → s'.inbound = []
  credit : s.credit.available = 0 → s'.credit.available = 0
  unwritten : s.unwritten ≠ 0 → s'.unwritten ≠ 0
  /-- The end of writing comes with a frame that has to be written. -/
  finQueued : s'.finQueued = s.finQueued ∨ s'.unwritten ≠ 0

theorem Quiet.refl (s : Stream) : s.Quiet s :=
  ⟨rfl,rfl,rfl,rfl,rfl,fun h => h,fun h => h,fun h => h,.inl rfl⟩

theorem Quiet.trans (h : s.Quiet s') (h' : s'.Quiet s'') : s.Quiet s'' := by
  refine ⟨h'.error.trans h.error,h'.resetCode.trans h.resetCode,h'.disposed.trans h.disposed,
    h'.abandoned.trans h.abandoned,h'.finReceived.trans h.finReceived,
    fun hx => h'.inbound (h.inbound hx),fun hx => h'.credit (h.credit hx),
    fun hx => h'.unwritten (h.unwritten hx),?_⟩
  rcases h'.finQueued with hx | hx
  · rcases h.finQueued with hy | hy
    · exact .inl (hx.trans hy)
    · exact .inr (h'.unwritten hy)
  · exact .inr hx

theorem quiet_unwritten (s : Stream) {n : Nat} (h : s.unwritten ≠ 0 → n ≠ 0) :
    s.Quiet { s with unwritten := n } :=
  { Quiet.refl s with unwritten := h, finQueued := .inl rfl }

/-- A stream goes on; unless it is `late`, what has come was signalled. -/
structure Tells (late : Prop) (s s' : Stream) : Prop where
  direction : s'.direction = s.direction
  remote : s'.remote = s.remote
  grows : s.changes ≤ s'.changes
  silent : ¬late → s'.changes = s.changes → s.Quiet s'

theorem Tells.refl (late : Prop) (s : Stream) : s.Tells late s :=
  ⟨rfl,rfl,le_rfl,fun _ _ => .refl s⟩

theorem Tells.trans (h : s.Tells late s') (h' : s'.Tells late' s'') :
    s.Tells (late ∨ late') s'' := by
  refine ⟨h'.direction.trans h.direction,h'.remote.trans h.remote,h.grows.trans h'.grows,?_⟩
  intro hl he
  have hg := h.grows
  have hg' := h'.grows
  exact (h.silent (fun hx => hl (.inl hx)) (by omega)).trans
    (h'.silent (fun hx => hl (.inr hx)) (by omega))

theorem Tells.mono (h : s.Tells late s') (hl : late → late') : s.Tells late' s' :=
  { h with silent := fun hx => h.silent fun hy => hx (hl hy) }

/-- A stream goes on as the effect says: what is neither quiet nor told is late. -/
structure Shows (e : Effect) (s s' : Stream) : Prop extends s.Tells (e = .late) s' where
  id : s'.id = s.id
  told : e = .told → s.changes < s'.changes

theorem Quiet.shows (h : s.Quiet s') (hid : s'.id = s.id) (hd : s'.direction = s.direction)
    (hr : s'.remote = s.remote) (hc : s'.changes = s.changes) : s.Shows .quiet s' :=
  ⟨⟨hd,hr,hc.ge,fun _ _ => h⟩,hid,nofun⟩

theorem shows_late (hid : s'.id = s.id) (hd : s'.direction = s.direction)
    (hr : s'.remote = s.remote) (hc : s'.changes = s.changes) : s.Shows .late s' :=
  ⟨⟨hd,hr,hc.ge,fun h => absurd rfl h⟩,hid,nofun⟩

theorem shows_told (hid : s'.id = s.id) (hd : s'.direction = s.direction)
    (hr : s'.remote = s.remote) (hc : s'.changes = s.changes + 1) : s.Shows .told s' :=
  ⟨⟨hd,hr,by omega,fun _ he => by omega⟩,hid,fun _ => by omega⟩

theorem Tended.shows {e : Effect} (h : s.Tended e s') : s.Shows e s' := by
  cases h with
  | signal | grant => exact shows_told rfl rfl rfl rfl
  | mark | dispose => exact shows_late rfl rfl rfl rfl
  | retire => exact Quiet.shows { Quiet.refl s with } rfl rfl rfl rfl
  | receive =>
    rw [afterData_snd]
    exact shows_told rfl rfl rfl rfl

theorem Used.shows {e : Effect} (h : s.Used e s') : s.Shows e s' := by
  cases h with
  | spend hz => exact Quiet.shows { Quiet.refl s with credit := hz } rfl rfl rfl rfl
  | send queued => exact Quiet.shows { Quiet.refl s with finQueued := .inr queued } rfl rfl rfl rfl
  | take ht =>
    obtain ⟨rest,rfl,-⟩ := takeChunk_spec ht
    rw [consumed_snd]
    refine Quiet.shows { Quiet.refl s with inbound := fun hin => ?_ } rfl rfl rfl rfl
    cases (takeChunk_eq_none_iff.mpr hin).symm.trans ht
  | see => exact Quiet.shows { Quiet.refl s with } rfl rfl rfl rfl
  | abandon =>
    rw [consumed_snd]
    exact shows_told rfl rfl rfl rfl

end Stream

namespace Connection

variable {c c' c'' : Connection} {late late' : Nat → Prop} {i : Nat} {f : Stream → Stream}
  {lag lag' : Prop}

/-- Nothing has come that a call on the connection may wait for. -/
structure Quiet (c c' : Connection) : Prop where
  active : c.phase = .active → c'.phase = .active
  running : c.phase ≠ .closed → c'.phase ≠ .closed
  pongs : c'.metrics.pongs = c.metrics.pongs
  acceptQueue : c.acceptQueue = [] → c'.acceptQueue = []
  full : c.phase = .active → ∀ d, c.Full d → c'.Full d
  /-- No stream has started as long as there was no place for it. -/
  idle : c.phase = .active → ∀ {i : Nat} {s s' : Stream}, c.streams[i]? = some s →
    c'.streams[i]? = some s' → s.id = none → c.Full s.direction → s'.id = none

/-- A connection goes on. What has come was signalled, except on streams that are `late` and, with
`lag`, on the connection. Streams that nobody has accepted are nobody's. -/
structure Tells (late : Nat → Prop) (lag : Prop) (c c' : Connection) : Prop where
  streams : ∀ {i : Nat} {s : Stream}, c.streams[i]? = some s →
    ∃ s', c'.streams[i]? = some s' ∧ s.Tells (late i ∨ i ∈ c.acceptQueue) s'
  unaccepted : ∀ {i : Nat}, i ∈ c'.acceptQueue → c.Unowned i
  peer : c.streams ≠ [] → c'.peer = c.peer
  grows : c.changes ≤ c'.changes
  silent : ¬lag → c'.changes = c.changes → c.Quiet c'

/-- Everything that has come was signalled. -/
abbrev TellsAll : Connection → Connection → Prop := Tells (fun _ => False) False

theorem Quiet.refl (c : Connection) : c.Quiet c := by
  refine ⟨id,id,rfl,id,fun _ _ => id,?_⟩
  intro _ i s s' hi hi' hid _
  cases hi.symm.trans hi'
  exact hid

theorem Tells.refl (late : Nat → Prop) (lag : Prop) (c : Connection) : Tells late lag c c :=
  ⟨fun hi => ⟨_,hi,.refl _ _⟩,.inl,fun _ => rfl,le_rfl,fun _ _ => .refl c⟩

theorem Tells.mono (h : Tells late lag c c') (hl : ∀ i, late i → late' i ∨ c.Unowned i)
    (hg : lag → lag') : Tells late' lag' c c' := by
  refine ⟨?_,h.unaccepted,h.peer,h.grows,fun hx => h.silent fun hy => hx (hg hy)⟩
  intro i s hi
  obtain ⟨s',hi',ht⟩ := h.streams hi
  refine ⟨s',hi',ht.mono ?_⟩
  rintro (hx | hx)
  · exact (hl i hx).imp_right fun hy => hy.resolve_right (hi ▸ Option.some_ne_none s)
  · exact .inr hx

theorem Tells.trans (h : Tells late lag c c') (h' : Tells late' lag' c' c'') :
    Tells (fun i => late i ∨ late' i) (lag ∨ lag') c c'' := by
  refine ⟨?_,?_,?_,h.grows.trans h'.grows,?_⟩
  · intro i s hi
    obtain ⟨s',hi',ht⟩ := h.streams hi
    obtain ⟨s'',hi'',ht'⟩ := h'.streams hi'
    refine ⟨s'',hi'',(ht.trans ht').mono ?_⟩
    rintro ((hx | hx) | hx | hx)
    · exact .inl (.inl hx)
    · exact .inr hx
    · exact .inl (.inr hx)
    · rcases h.unaccepted hx with hy | hy
      · exact .inr hy
      · cases hi.symm.trans hy
  · intro i hi
    rcases h'.unaccepted hi with hx | hx
    · exact h.unaccepted hx
    · right
      cases hy : c.streams[i]? with
      | none => rfl
      | some s =>
        obtain ⟨s',hi',-⟩ := h.streams hy
        cases hx.symm.trans hi'
  · intro hne
    have hne' : c'.streams ≠ [] := by
      intro he
      obtain ⟨s,hs⟩ := List.exists_mem_of_ne_nil _ hne
      obtain ⟨i,hi⟩ := List.mem_iff_getElem?.mp hs
      obtain ⟨s',hi',-⟩ := h.streams hi
      rw [he] at hi'
      cases hi'
    exact (h'.peer hne').trans (h.peer hne)
  · intro hl he
    have hg := h.grows
    have hg' := h'.grows
    have hq := h.silent (fun hx => hl (.inl hx)) (by omega)
    have hq' := h'.silent (fun hx => hl (.inr hx)) (by omega)
    refine ⟨fun hx => hq'.active (hq.active hx),fun hx => hq'.running (hq.running hx),
      hq'.pongs.trans hq.pongs,fun hx => hq'.acceptQueue (hq.acceptQueue hx),
      fun ha d hx => hq'.full (hq.active ha) d (hq.full ha d hx),?_⟩
    intro ha i s s'' hi hi'' hid hf
    obtain ⟨s',hi',ht⟩ := h.streams hi
    refine hq'.idle (hq.active ha) hi' hi'' (hq.idle ha hi hi' hid hf) ?_
    rw [ht.direction]
    exact hq.full ha _ hf

theorem TellsAll.trans (h : TellsAll c c') (h' : TellsAll c' c'') : TellsAll c c'' :=
  (Tells.trans h h').mono (by simp) (by simp)

theorem Tells.andThen (h : Tells late lag c c') (h' : TellsAll c' c'') : Tells late lag c c'' :=
  (h.trans h').mono (fun _ hx => .inl (hx.resolve_right id)) fun hx => hx.resolve_right id

theorem Tells.of_lt (h : Tells late lag c c') (hc : c.changes < c'.changes) :
    Tells late False c c' :=
  { h with silent := fun _ he => absurd he hc.ne' }

/-- Nothing has changed that a call may wait for. -/
structure Same (c c' : Connection) : Prop where
  streams : c'.streams = c.streams
  phase : c'.phase = c.phase
  pongs : c'.metrics.pongs = c.metrics.pongs
  acceptQueue : c'.acceptQueue = c.acceptQueue
  peer : c'.peer = c.peer
  activeLocal : c'.activeLocal = c.activeLocal
  changes : c'.changes = c.changes

theorem Same.tells (h : c.Same c') : TellsAll c c' := by
  refine ⟨?_,?_,fun _ => h.peer,h.changes.ge,fun _ _ => ⟨?_,?_,h.pongs,?_,?_,?_⟩⟩
  · intro i s hi
    exact ⟨s,h.streams ▸ hi,.refl _ _⟩
  · intro i hi
    exact .inl (h.acceptQueue ▸ hi)
  · exact fun hx => h.phase.trans hx
  · exact fun hx => h.phase ▸ hx
  · exact fun hx => h.acceptQueue.trans hx
  · intro _ d hx
    simpa only [Full,h.peer,h.activeLocal] using hx
  · intro _ i s s' hi hi' hid _
    rw [h.streams,hi] at hi'
    cases hi'
    exact hid

theorem tells_lag (hs : c'.streams = c.streams) (ha : ∀ i ∈ c'.acceptQueue, i ∈ c.acceptQueue)
    (hp : c'.peer = c.peer) (hc : c.changes ≤ c'.changes) : Tells (fun _ => False) True c c' :=
  ⟨fun hi => ⟨_,hs ▸ hi,.refl _ _⟩,fun hi => .inl (ha _ hi),fun _ => hp,hc,
    fun h => absurd trivial h⟩

theorem Tells.defer (h : Tells late lag c c') (hs : c''.streams = c'.streams)
    (ha : ∀ i ∈ c''.acceptQueue, i ∈ c'.acceptQueue) (hp : c''.peer = c'.peer)
    (hc : c'.changes ≤ c''.changes) : Tells late True c c'' :=
  (h.trans (tells_lag hs ha hp hc)).mono (fun _ hx => .inl (hx.resolve_right id)) fun _ => trivial

theorem Tells.notify (h : Tells late lag c c') : Tells late False c c'.notify := by
  have hn : Tells (fun _ => False) True c' c'.notify :=
    tells_lag rfl (fun _ => id) rfl (Nat.le_succ _)
  exact ((h.trans hn).mono (fun _ hx => .inl (hx.resolve_right id)) id).of_lt
    (Nat.lt_succ_of_le h.grows)

theorem tells_modify {late : Prop}
    (hf : ∀ s, c.streams[i]? = some s → s.Tells late (f s) ∧ (f s).id = s.id) :
    Tells (fun j => j = i ∧ late) False c (c.modify i f) := by
  refine ⟨?_,.inl,fun _ => rfl,le_rfl,fun _ _ => ⟨id,id,rfl,id,fun _ _ => id,?_⟩⟩
  · intro j s hj
    by_cases hji : j = i
    · subst hji
      exact ⟨f s,getElem?_modify_self hj f,(hf s hj).1.mono fun hx => .inl ⟨rfl,hx⟩⟩
    · refine ⟨s,?_,.refl _ _⟩
      simpa [modify,List.getElem?_modify,Ne.symm hji] using hj
  · intro _ j s s' hj hj' hid _
    by_cases hji : j = i
    · subst hji
      cases (getElem?_modify_self hj f).symm.trans hj'
      exact (hf s hj).2.trans hid
    · have : (c.modify i f).streams[j]? = some s := by
        simpa [modify,List.getElem?_modify,Ne.symm hji] using hj
      cases this.symm.trans hj'
      exact hid

theorem Tells.modify (h : Tells late lag c c') {e : Stream.Effect}
    (hf : ∀ s, c'.streams[i]? = some s → s.Shows e (f s)) :
    Tells ((Word.ofEffect i e).owes late) lag c (c'.modify i f) := by
  have ht := h.trans (tells_modify fun s hi => ⟨(hf s hi).toTells,(hf s hi).id⟩)
  cases e with
  | quiet =>
    refine ht.mono (fun _ hx => .inl (hx.resolve_right fun hy => ?_)) (·.resolve_right id)
    cases hy.2
  | late => exact ht.mono (fun _ hx => .inl (hx.imp_right And.left)) (·.resolve_right id)
  | told =>
    refine ⟨fun {j s} hj => ?_,ht.unaccepted,ht.peer,ht.grows,
      fun hl => ht.silent fun hx => hl (hx.resolve_right id)⟩
    obtain ⟨s'',hj'',hs⟩ := ht.streams hj
    refine ⟨s'',hj'',hs.direction,hs.remote,hs.grows,fun hl he => ?_⟩
    by_cases hji : j = i
    · -- the stream has told of all that came before
      subst hji
      obtain ⟨s',hj',hs'⟩ := h.streams hj
      cases (getElem?_modify_self hj' f).symm.trans hj''
      have hlt := (hf s' hj').told rfl
      have hle := hs'.grows
      omega
    · refine hs.silent (fun hx => hl ?_) he
      exact hx.imp_left fun hy => ⟨hy.resolve_right fun hz => hji hz.1,hji⟩

theorem tells_occupy (c : Connection) (d : Direction) :
    TellsAll c (c.setActive false d (· + 1)) := by
  refine ⟨fun hi => ⟨_,hi,.refl _ _⟩,.inl,fun _ => rfl,le_rfl,fun _ _ => ?_⟩
  refine ⟨id,id,rfl,id,fun _ d' hx => ?_,(Quiet.refl c).idle⟩
  simp only [Full,setActive,Bool.false_eq_true,if_false,PerDirection.get_set] at hx ⊢
  split
  · rename_i hd
    subst hd
    exact Nat.le_succ_of_le hx
  · exact hx

/-- A stream that starts had a place. -/
theorem tells_name (h : ∀ s, c.streams[i]? = some s → ¬c.Full s.direction) (id : StreamId) :
    TellsAll c (c.modify i fun s => { s with id := some id }) := by
  refine ⟨fun {j s} hj => ?_,.inl,fun _ => rfl,le_rfl,fun _ _ => ?_⟩
  · by_cases hji : j = i
    · subst hji
      refine ⟨_,getElem?_modify_self hj _,rfl,rfl,le_rfl,fun _ _ => ?_⟩
      exact ⟨rfl,rfl,rfl,rfl,rfl,fun h => h,fun h => h,fun h => h,.inl rfl⟩
    · exact ⟨s,by simpa [Connection.modify,Ne.symm hji] using hj,.refl _ _⟩
  · refine ⟨fun h => h,fun h => h,rfl,fun h => h,fun _ _ h => h,?_⟩
    intro _ j s s' hj hj' hid hx
    by_cases hji : j = i
    · subst hji
      exact absurd hx (h s hj)
    · have hsame : s = s' := by simpa [Connection.modify,Ne.symm hji,hj] using hj'
      exact hsame ▸ hid

theorem tells_concat (s : Stream) : TellsAll c { c with streams := c.streams ++ [s] } := by
  refine ⟨fun hi => ⟨_,getElem?_append_of_some _ hi,.refl _ _⟩,.inl,fun _ => rfl,le_rfl,
    fun _ _ => ?_⟩
  refine ⟨id,id,rfl,id,fun _ _ => id,?_⟩
  intro _ i s s' hi hi' hid _
  cases (getElem?_append_of_some _ hi).symm.trans hi'
  exact hid

theorem tells_accept {rest : List Nat} (h : rest.Sublist c.acceptQueue) :
    TellsAll c { c with acceptQueue := rest } := by
  refine ⟨fun hi => ⟨_,hi,.refl _ _⟩,fun hi => .inl (h.subset hi),fun _ => rfl,le_rfl,fun _ _ => ?_⟩
  refine ⟨id,id,rfl,fun hx => ?_,fun _ _ => id,(Quiet.refl c).idle⟩
  exact List.eq_nil_of_sublist_nil (hx ▸ h)

/-- What has come with a change is as yet to be told as its word says. -/
theorem Change.tells {k : Kind} {w : Word} (h : Change c' k w c'') (ht : Tells late lag c c') :
    Tells (w.owes late) (w.lags lag) c c'' := by
  cases h with
  | note _ hp => exact ht.andThen (Same.tells ⟨rfl,rfl,congrArg Prod.fst hp,rfl,rfl,rfl,rfl⟩)
  | count hp => exact ht.andThen (Same.tells ⟨rfl,rfl,congrArg Prod.fst hp,rfl,rfl,rfl,rfl⟩)
  | control | say | endInput | reason | discard =>
    exact ht.andThen (Same.tells ⟨rfl,rfl,rfl,rfl,rfl,rfl,rfl⟩)
  | ship =>
    refine ht.andThen ?_
    unfold takeBatch
    split
    · exact .refl _ _ _
    · exact Same.tells ⟨rfl,rfl,rfl,rfl,rfl,rfl,rfl⟩
  | ring => exact ht.notify
  | pong => exact Tells.notify (ht.defer rfl (fun _ h => h) rfl le_rfl)
  | vacate | complete | turn => exact ht.defer rfl (fun _ h => h) rfl le_rfl
  | occupy d => exact ht.andThen (tells_occupy _ d)
  | tend hs =>
    rw [Word.lags_ofEffect]
    exact ht.modify fun s hi => (hs s hi).shows
  | use hs =>
    rw [Word.lags_ofEffect]
    exact ht.modify fun s hi => (hs s hi).shows
  | @purge i =>
    have hnote : Tells late lag c (c'.noteOff i (c'.waiting i)) :=
      ht.andThen (Same.tells ⟨rfl,rfl,rfl,rfl,rfl,rfl,rfl⟩)
    have hoff :=
      hnote.modify (i := i) (f := fun s => { s with unwritten := s.unwritten - c'.waiting i })
        fun _ _ => Stream.shows_late rfl rfl rfl rfl
    exact Tells.andThen hoff (Same.tells ⟨rfl,rfl,rfl,rfl,rfl,rfl,rfl⟩)
  | name hroom id => exact ht.andThen (tells_name hroom id)
  | @queue i =>
    have hcount := ht.modify (i := i) fun s _ =>
      (s.quiet_unwritten fun _ => Nat.succ_ne_zero s.unwritten).shows rfl rfl rfl rfl
    exact hcount.andThen (Same.tells ⟨rfl,rfl,rfl,rfl,rfl,rfl,rfl⟩)
  | add => exact ht.andThen (tells_concat _)
  | arrive id =>
    have harrive : Tells (fun _ => False) True c' _ :=
      ⟨fun hi => ⟨_,getElem?_append_of_some _ hi,.refl _ _⟩,
        fun hi => (Change.arrive id).unowned (.inl hi),fun _ => rfl,le_rfl,
        fun h => absurd trivial h⟩
    exact (ht.trans harrive).mono (fun _ hx => .inl (hx.resolve_right fun hy => hy))
      fun _ => trivial
  | accept hr => exact ht.andThen (tells_accept hr)
  | written i =>
    have hnote : Tells late lag c (c'.noteOff i 1) :=
      ht.andThen (Same.tells ⟨rfl,rfl,rfl,rfl,rfl,rfl,rfl⟩)
    refine hnote.andThen ((tells_modify fun s _ => ?_).mono (fun _ hx => .inl hx.2) id)
    dsimp only
    split
    · refine ⟨Stream.Tells.mono (Stream.Shows.toTells (e := .told) ?_) nofun,rfl⟩
      exact Stream.shows_told rfl rfl rfl rfl
    · rename_i hu
      have hquiet := s.quiet_unwritten fun _ => hu
      exact ⟨(hquiet.shows rfl rfl rfl rfl).toTells.mono nofun,rfl⟩
  | fail => exact ht.modify (e := .late) fun _ _ => Stream.shows_late rfl rfl rfl rfl
  | hail | forget => exact ht.modify (e := .told) fun _ _ => Stream.shows_told rfl rfl rfl rfl

theorem Runs.tells {P : Kind → Prop} (h : Runs P late lag c c') : Tells late lag c c' := by
  induction h with
  | refl => exact .refl _ _ _
  | tail _ _ hc hl hg ih => exact (hc.tells ih).mono hl hg

theorem tells_call (c : Connection) (cancelled : Bool) (k : Call) :
    TellsAll c (c.call cancelled k).2 :=
  Runs.tells (P := fun _ => True) (.call (fun _ => trivial) (fun _ => trivial) (fun _ => trivial)
    trivial trivial cancelled)

theorem tells_resume (c : Connection) (cancelled : Bool) (w : Wait) :
    TellsAll c (c.resume cancelled w).2 :=
  Runs.tells (P := fun _ => True) (.resume (fun _ => trivial) (fun _ => trivial) (fun _ => trivial)
    trivial cancelled)

end Connection

end Multiplex
