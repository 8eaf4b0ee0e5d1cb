import Multiplex.Proofs.Changes
import Multiplex.Proofs.Conduct

/-!
What can become of the streams of an end, of its table and of the streams that wait to be accepted.
Nothing is assumed of the state, so that what each of these changes keeps is kept by every run.
-/

namespace Multiplex

variable {s' : Stream}

/-- Whether a connection is on its way to its end. -/
def Phase.Waning (p : Phase) : Prop := p = .closing ∨ p = .closed

namespace Stream

variable {s : Stream} {w : ReceiveWindow} {fin : Bool} {data : Bytes} {window : UInt64}

/-- How a stream goes on that neither starts nor goes out of use. -/
structure Proceeds (s s' : Stream) : Prop where
  id : s'.id = s.id
  direction : s'.direction = s.direction
  remote : s'.remote = s.remote
  released : s'.released = s.released
  localDone : s.localDone = true → s'.localDone = true
  remoteDone : s.remoteDone = true → s'.remoteDone = true
  threshold : s'.window.threshold = s.window.threshold

theorem Agrees.proceeds (h : s.Agrees s') : s.Proceeds s' :=
  { h with
    localDone := fun hd => h.localDone.trans hd
    remoteDone := fun hd => h.remoteDone.trans hd }

theorem proceeds_charge (s : Stream) (data : Bytes) : s.Proceeds (s.charge data) :=
  ⟨rfl,rfl,rfl,rfl,fun h => h,fun h => h,rfl⟩

theorem proceeds_credit (s : Stream) (credit : SendCredit) : s.Proceeds { s with credit } :=
  ⟨rfl,rfl,rfl,rfl,fun h => h,fun h => h,rfl⟩

theorem proceeds_finish (s : Stream) : s.Proceeds s.finish := by
  refine ⟨rfl,rfl,rfl,rfl,fun _ => ?_,fun h => h,rfl⟩
  simp [localDone,finish,noteSent]

theorem proceeds_markReset (s : Stream) (unwritten changes : Nat) (code : UInt64) :
    s.Proceeds ({ s with unwritten, changes }.markReset code) := by
  refine ⟨rfl,rfl,rfl,rfl,fun _ => ?_,fun _ => ?_,rfl⟩
  · simp [localDone,markReset]
  · simp [remoteDone,markReset]

theorem proceeds_afterData (unended : s.finReceived = false)
    (room : s.window.receive data.length = .ok w) :
    s.Proceeds (s.afterData w fin data).2.notify := by
  obtain ⟨-,hw,-⟩ := receive_eq_ok room
  have hthreshold : (s.afterData w fin data).2.window.threshold = s.window.threshold := by
    rw [afterData_threshold,hw]
  rw [afterData_snd]
  refine ⟨rfl,rfl,rfl,rfl,fun h => h,fun h => ?_,hthreshold⟩
  simp only [remoteDone,unended,Bool.or_false] at h
  simp only [remoteDone,notify,Bool.or_eq_true] at h ⊢
  exact h.imp_left .inl

theorem Bounded.afterData (h : s.Bounded window) (started : s.id.isSome)
    (unended : s.finReceived = false) (room : s.window.receive data.length = .ok w) :
    (s.afterData w fin data).2.notify.Bounded window := by
  suffices hb : (s.afterData w fin data).2.Bounded window from
    { hb with }
  obtain ⟨-,hw,hsum⟩ := receive_eq_ok room
  have hunack : w.unacknowledged = s.window.unacknowledged := by rw [hw]
  have howed : w.unacknowledged < w.threshold := by
    rw [hw]
    exact h.owed
  have hwithin := h.within
  have hnone {t : Stream} (ht : t.id = s.id) (hid : t.id = none) : False := by
    rw [← ht,hid] at started
    cases started
  cases ha : s.abandoned with
  | false =>
    obtain ⟨-,inbound,hin,heq⟩ := afterData_kept ha w fin data
    have hlen : inbound.flatten.length = s.inbound.flatten.length + data.length := by
      rw [hin,List.length_append]
    rw [heq]
    refine ⟨?_,fun _ hr => ?_,howed,fun hid => (hnone rfl hid).elim⟩
    · simp only [noteReceived,hlen,hunack]
      omega
    · have hexact := h.exactly unended hr
      simp only [noteReceived,hlen,hunack]
      omega
  | true =>
    rw [afterData_dropped ha]
    refine bounded_consumed _ (fun hid => (hnone rfl hid).elim) howed ?_ fun _ hr => ?_
    · simp only [noteReceived,hunack]
      omega
    · have hexact := h.exactly unended hr
      simp only [noteReceived,hunack]
      omega

/-- How a stream goes on that fails with its connection, or is spared. -/
def Lapses (s s' : Stream) : Prop :=
  ∃ error released unwritten changes, s' = { s with error, released, unwritten, changes } ∧
    (s.released = true → released = true)

theorem Lapses.refl (s : Stream) : s.Lapses s :=
  ⟨s.error,s.released,s.unwritten,s.changes,rfl,fun h => h⟩

theorem Lapses.trans {s s' s'' : Stream} (h : s.Lapses s') (h' : s'.Lapses s'') : s.Lapses s'' := by
  obtain ⟨_,_,_,_,rfl,hr⟩ := h
  obtain ⟨error,released,unwritten,changes,rfl,hr'⟩ := h'
  exact ⟨error,released,unwritten,changes,rfl,fun hx => hr' (hr hx)⟩

theorem Lapses.bounded (h : s.Lapses s') (hb : s.Bounded window) : s'.Bounded window := by
  obtain ⟨_,released,_,_,rfl,hr⟩ := h
  refine { hb with exactly := fun hf hx => hb.exactly hf ?_ }
  cases hs : s.released with
  | false => rfl
  | true =>
    simp only at hx
    exact absurd (hr hs) (by simp [hx])

end Stream

namespace Connection

variable {c c' : Connection} {streams : List Stream} {f : Frame} {meant : Prop}

/-- What is left of a connection if its streams and its queues are taken away. -/
structure Beside (c c' : Connection) : Prop where
  options : c'.options = c.options
  table : c'.table = c.table
  acceptQueue : c'.acceptQueue = c.acceptQueue
  activeRemote : c'.activeRemote = c.activeRemote
  phase : c'.phase = c.phase
  closeReceived : c'.closeReceived = c.closeReceived

/-- A connection that is on its way to its end goes on with that, and a CLOSE of the peer sets it on
its way. -/
structure Wanes (c c' : Connection) : Prop where
  phase : c.phase.Waning → c'.phase.Waning
  closeReceived : c'.closeReceived = c.closeReceived ∨ c'.phase.Waning

/-- The streams fail with their connection, or are spared. -/
def Lapsed (streams streams' : List Stream) : Prop :=
  ∀ i : Nat, ∃ f : Stream → Stream, streams'[i]? = streams[i]?.map f ∧ ∀ s : Stream, s.Lapses (f s)

/-- One change of the streams of a connection, or of what goes with them. -/
inductive Touch (c : Connection) : Connection → Prop
  /-- No stream changes. Those that wait may be accepted or thrown away. -/
  | rest {c' : Connection} (streams : c'.streams = c.streams) (table : c'.table = c.table)
      (pending : c'.acceptQueue.Sublist c.acceptQueue)
      (activeRemote : c'.activeRemote = c.activeRemote) (options : c'.options = c.options)
      (wanes : c.Wanes c') : Touch c c'
  | change {c' : Connection} {i : Nat} {s s' : Stream} (hi : c.streams[i]? = some s)
      (streams : c'.streams = c.streams.set i s') (beside : c.Beside c') (proceeds : s.Proceeds s')
      (bounded : (i ∈ c.table.map (·.2) → s.id.isSome) → s.Bounded c.options.window →
        s'.Bounded c.options.window) : Touch c c'
  | release (i : Nat) : Touch c (c.release i)
  | add (d : Direction) :
      Touch c { c with streams := c.streams ++ [Stream.fresh d false c.options c.peer] }
  | start {c' : Connection} {i : Nat} (h : Start i c c') : Touch c c'
  | surface {id : StreamId} (metrics : Metrics) (changes : Nat)
      (hp : c.phase = .active)
      (hl : c.activeRemote.get id.direction < (c.options.maxStreams id.direction).toNat) :
      Touch c { c.surfaced id with metrics, changes }
  /-- Only a connection at its end loses its streams. -/
  | fall {c' : Connection} (streams : Lapsed c.streams c'.streams) (table : c'.table = [])
      (acceptQueue : c'.acceptQueue = []) (activeRemote : c'.activeRemote = .both 0)
      (options : c'.options = c.options) (wanes : c.Wanes c')
      (ends : c.closeReceived.isSome ∨ c'.phase.Waning) : Touch c c'

abbrev Touches : Connection → Connection → Prop := Relation.ReflTransGen Touch

theorem Touch.touches (h : Touch c c') : Touches c c' := .single h

theorem Touch.then_release (h : Touch c c') (i : Nat) :
    Touches c (c'.release i) := h.touches.tail (.release i)

theorem Touches.keep {P : Connection → Prop}
    (hstep : ∀ {c c' : Connection}, Touch c c' → P c → P c') (h : Touches c c') (hc : P c) :
    P c' := by
  induction h with
  | refl => exact hc
  | tail _ ht ih => exact hstep ht ih

theorem Wanes.of_eq (hp : c'.phase = c.phase) (hr : c'.closeReceived = c.closeReceived) :
    c.Wanes c' :=
  ⟨fun h => by rwa [hp],.inl hr⟩

theorem Wanes.waning (h : c'.phase.Waning) : c.Wanes c' := ⟨fun _ => h,.inr h⟩

theorem Lapsed.refl (streams : List Stream) : Lapsed streams streams :=
  fun _ => ⟨fun s => s,by simp,.refl⟩

theorem lapsed_modify (streams : List Stream) (i : Nat) {f : Stream → Stream}
    (hf : ∀ s : Stream, s.Lapses (f s)) : Lapsed streams (streams.modify i f) := by
  intro j
  by_cases hij : i = j
  · exact ⟨f,by simp [hij],hf⟩
  · exact ⟨fun s => s,by simp [hij],.refl⟩

theorem Lapsed.trans {streams streams' streams'' : List Stream} (h : Lapsed streams streams')
    (h' : Lapsed streams' streams'') : Lapsed streams streams'' := by
  intro i
  obtain ⟨f,hf,hs⟩ := h i
  obtain ⟨g,hg,ht⟩ := h' i
  refine ⟨g ∘ f,by rw [hg,hf,Option.map_map],fun s => (hs s).trans (ht (f s))⟩

/-- Whether changes of a kind can come with the end of a connection. -/
def Kind.Lapses : Kind → Prop
  | .rest | .accept | .fate => True
  | _ => False

theorem Change.lapsed {k : Kind} {w : Word} (h : Change c k w c') (hk : k.Lapses) :
    Lapsed c.streams c'.streams := by
  cases h with
  | note | ring | occupy | vacate | pong | control | say | complete | accept | turn | reason
  | discard => exact .refl _
  | fail lasting => exact lapsed_modify _ _ fun s => ⟨_,_,_,_,rfl,lasting s⟩
  | hail | forget => exact lapsed_modify _ _ fun _ => ⟨_,_,_,_,rfl,id⟩
  | tend | purge | use | name | queue | add | arrive | endInput | ship | count
  | written => exact hk.elim

theorem Runs.lapsed (h : Changes Kind.Lapses c c') : Lapsed c.streams c'.streams :=
  h.keep (R := fun c c' => Lapsed c.streams c'.streams) trivial (fun _ => .refl _) .trans
    Change.lapsed

theorem lapsed_failStreams (c : Connection) (e : Failure) :
    Lapsed c.streams (c.failStreams e).streams := by
  have hsame : Changes Kind.Lapses c c := .refl
  exact (hsame.failStreams trivial trivial e).lapsed

theorem lapsed_abort (c : Connection) (e : Failure) : Lapsed c.streams (c.abort e).streams :=
  (Runs.abort trivial trivial e).lapsed

theorem touches_abort (c : Connection) (e : Failure) : Touches c (c.abort e) := by
  by_cases hp : c.phase = .closed
  · rw [abort,if_pos hp]
  · have hlapsed := lapsed_abort c e
    have hwaning : (c.abort e).phase.Waning := .inr (abort_phase c e)
    refine Touch.touches (.fall hlapsed ?_ ?_ ?_ ?_ (.waning hwaning) (.inr hwaning)) <;>
      rw [abort_eq c e hp]

section Change

variable {i : Nat} {s : Stream}

/-- A stream changes in a way that its window has no part in. -/
theorem Touch.aside (hi : c.streams[i]? = some s) (hs : c'.streams = c.streams.set i s')
    (hb : c.Beside c') (hp : s.Proceeds s') (hw : s'.window = s.window)
    (hin : s'.inbound = s.inbound) (hf : s'.finReceived = s.finReceived) : Touch c c' := by
  refine .change hi hs hb hp fun _ h => ⟨?_,?_,?_,?_⟩
  · rw [hw,hin]
    exact h.within
  · rw [hw,hin,hf,hp.released]
    exact h.exactly
  · rw [hw]
    exact h.owed
  · rw [hin,hp.id]
    exact h.idle

end Change

theorem Move.touches (h : Move c c') : Touches c c' := by
  cases h with
  | note _ _ _ _ _ pending => exact Touch.touches (.rest rfl rfl pending rfl rfl (.of_eq rfl rfl))
  | add d => exact Touch.touches (.add d)
  | @tend i s s' update hi ht =>
    rw [enqueueControl?_eq]
    exact Touch.touches (.change hi rfl ⟨rfl,rfl,rfl,rfl,rfl,rfl⟩ ht.agrees.proceeds
      fun _ => ht.bounded)
  | send hi =>
    exact Touch.touches (.aside hi rfl ⟨rfl,rfl,rfl,rfl,rfl,rfl⟩ (Stream.proceeds_charge _ _) rfl
      rfl rfl)
  | spend credit hi =>
    exact Touch.touches (.aside hi rfl ⟨rfl,rfl,rfl,rfl,rfl,rfl⟩ (Stream.proceeds_credit _ credit)
      rfl rfl rfl)
  | @finish i s id hi =>
    refine Touch.then_release ?_ i
    exact .aside hi rfl ⟨rfl,rfl,rfl,rfl,rfl,rfl⟩ s.proceeds_finish rfl rfl rfl
  | @reset i s id code wire hi =>
    refine Touch.then_release ?_ i
    refine .aside hi rfl ?_ (s.proceeds_markReset s.unwritten s.changes code) rfl rfl rfl
    rw [enqueueControl_eq]
    exact ⟨rfl,rfl,rfl,rfl,rfl,rfl⟩
  | @mark i s code hi =>
    exact Touch.touches (.aside hi rfl ⟨rfl,rfl,rfl,rfl,rfl,rfl⟩
      (s.proceeds_markReset s.unwritten s.changes code) rfl rfl rfl)
  | say =>
    rw [enqueueControl_eq]
    exact Touch.touches (.rest rfl rfl (.refl _) rfl rfl (.of_eq rfl rfl))
  | close =>
    rw [enqueueClose_eq]
    exact Touch.touches (.rest rfl rfl (.refl _) rfl rfl (.of_eq rfl rfl))
  | wane => exact Touch.touches (.rest rfl rfl (.refl _) rfl rfl (.waning (.inl rfl)))
  | shut => exact Touch.touches (.rest rfl rfl (.refl _) rfl rfl (.of_eq rfl rfl))
  | complete => exact Touch.touches (.rest rfl rfl (.refl _) rfl rfl (.waning (.inr rfl)))
  | lose e closed =>
    have hlapsed := lapsed_failStreams c e
    refine Touch.touches (.fall hlapsed ?_ ?_ ?_ ?_ (.of_eq ?_ ?_) (.inl closed)) <;>
      rw [failStreams_eq]
  | abort e => exact touches_abort c e

theorem Moves.touches (h : Moves c c') : Touches c c' := by
  induction h with
  | refl => exact .refl
  | tail _ h ih => exact ih.trans h.touches

theorem touch_hear (c : Connection) (f : Frame) (size : Nat) : Touch c (c.hear f size) :=
  .rest rfl rfl (.refl _) rfl rfl (.of_eq rfl rfl)

theorem mem_places_of_find? {id : StreamId} {i : Nat} (h : c.find? id = some i) :
    i ∈ c.table.map (·.2) := by
  obtain ⟨entry,hfind,hplace⟩ := Option.map_eq_some_iff.mp h
  exact List.mem_map.mpr ⟨entry,List.mem_of_find?_eq_some hfind,hplace⟩

theorem Take.touches (h : Take f c c') (hp : c.phase ≠ .connecting) : Touches c c' := by
  induction h with
  | @data c i s id fin data w hf hi reads unended room =>
    have hchange : Touch c { c.enqueueControl? (s.afterData w fin data).1 with
        streams := c.streams.set i (s.afterData w fin data).2.notify } := by
      refine .change hi rfl ?_ (Stream.proceeds_afterData unended room) fun hstarted hbounded => ?_
      · rw [enqueueControl?_eq]
        exact ⟨rfl,rfl,rfl,rfl,rfl,rfl⟩
      · exact hbounded.afterData (hstarted (mem_places_of_find? hf)) unended room
    split
    · exact hchange.then_release i
    · exact hchange.touches
  | grant hf hi =>
    exact Touch.touches (.aside hi rfl ⟨rfl,rfl,rfl,rfl,rfl,rfl⟩ (Stream.proceeds_credit _ _) rfl
      rfl rfl)
  | @reset c i s id wire code unwritten changes hf hi =>
    refine Touch.then_release ?_ i
    exact .aside hi rfl ⟨rfl,rfl,rfl,rfl,rfl,rfl⟩ (s.proceeds_markReset unwritten changes code) rfl
      rfl rfl
  | refuse =>
    rw [enqueueControl_eq]
    exact Touch.touches (.rest rfl rfl (.refl _) rfl rfl (.of_eq rfl rfl))
  | surface metrics changes hs _ ih =>
    exact .head (.surface metrics changes hs.active hs.room) (ih hp)
  | drop | idle => exact .refl
  | @close c wire code =>
    refine Touch.touches (.rest rfl rfl (.refl _) rfl rfl (.waning ?_))
    cases hc : c.phase with
    | connecting => exact absurd hc hp
    | active | closing => exact .inl (by simp)
    | closed => exact .inr (by simp)
  | pass | stray => exact Touch.touches (.rest rfl rfl (.refl _) rfl rfl (.of_eq rfl rfl))

theorem Breach.touches {v : Violation} (h : Breach v f c c') : Touches c c' := by
  induction h with
  | beyondLimit => exact Touch.touches (.rest rfl rfl (.refl _) rfl rfl (.of_eq rfl rfl))
  | surface metrics changes hs _ ih =>
    exact .head (.surface metrics changes hs.active hs.room) ih
  | neverOpened | data | duplicateClose | lateSettings => exact .refl

theorem Deed.touches (h : Deed meant c c') : Touches c c' := by
  cases h with
  | move h => exact h.touches
  | start h hm => exact .head (.start h) (Moves.touches hm)
  | take hp _ h => exact .head (touch_hear c _ _) (h.touches hp)
  | breach _ h => exact .head (touch_hear c _ _) (h.touches.trans (touches_abort _ _))
  | endReads | shutOff => exact Touch.touches (.rest rfl rfl (.refl _) rfl rfl (.of_eq rfl rfl))
  | abort e => exact touches_abort c e
  | ship h =>
    obtain ⟨_,_,_,rfl⟩ := takeBatch_eq h
    exact Touch.touches (.rest rfl rfl (.refl _) rfl rfl (.of_eq rfl rfl))
  | establish peer _ hp =>
    refine Touch.touches (.rest rfl rfl (.refl _) rfl rfl ⟨fun h => ?_,.inl rfl⟩)
    rw [hp] at h
    rcases h with h | h <;> cases h

theorem Deeds.touches (h : Deeds meant c c') : Touches c c' := by
  induction h with
  | refl => exact .refl
  | tail _ h ih => exact ih.trans h.touches

end Connection

theorem Station.Fresh.touches {s : Station} (h : s.Fresh) (steps : List Step) :
    Connection.Touches s.connection (s.run steps).connection := (h.deeds steps).touches

end Multiplex
