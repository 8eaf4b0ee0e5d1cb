import Multiplex.Proofs.Closing
import Multiplex.Proofs.Part

/-!
The life of a connection. It only goes forward, and once it is no longer active, its streams are
those that it has.
-/

namespace Multiplex

def Phase.rank : Phase → Nat
  | .connecting => 0
  | .active => 1
  | .closing => 2
  | .closed => 3

theorem Phase.rank_eq_zero {p : Phase} : p.rank = 0 ↔ p = .connecting := by
  cases p <;> simp [Phase.rank]

theorem Phase.Fades.rank_le {p q : Phase} (h : p.Fades q) : p.rank ≤ q.rank := by
  cases p <;> cases q <;> simp_all [Phase.Fades,Phase.rank]

namespace Connection

variable {i : Nat} {f : Frame} {v : Violation} {s : Stream}

variable {meant : Prop} {c c' : Connection}

theorem Deed.rank_le (hd : Deed meant c c') : c.phase.rank ≤ c'.phase.rank := by
  rcases hd.wears with ⟨hp,hp',-⟩ | h
  · simp [hp,hp',Phase.rank]
  · exact h.phase.rank_le

theorem Deeds.rank_le (hd : Deeds meant c c') : c.phase.rank ≤ c'.phase.rank := by
  induction hd with
  | refl => exact le_rfl
  | tail _ hstep ih => exact ih.trans hstep.rank_le

theorem Deeds.closed (hd : Deeds meant c c') (hp : c.phase = .closed) :
    c'.phase = .closed ∧ c'.error = c.error := by
  induction hd with
  | refl => exact ⟨hp,rfl⟩
  | tail _ hstep ih =>
    obtain ⟨hp',he⟩ := hstep.closed ih.1
    exact ⟨hp',he.trans ih.2⟩

theorem handle_closed (c : Connection) (now : Nat) (f : Frame) (hp : c.phase = .closed) :
    (c.handle now f).2.phase = .closed ∧ (c.handle now f).2.error = c.error := by
  have hh := handle_handled c now f
  generalize c.handle now f = r at hh
  obtain ⟨_ | v,c'⟩ := r
  · obtain ⟨c₁,ht,hm⟩ := hh
    exact (ht.wears.trans (Moves.wears hm)).closed hp
  · obtain ⟨hp',he⟩ := hh.phase_eq
    exact ⟨hp'.trans hp,he⟩

/-- Handles frames one after the other, whatever comes of each, at the times they come. -/
def handleAll (c : Connection) (fs : List (Nat × Frame)) : Connection :=
  fs.foldl (fun c f => (c.handle f.1 f.2).2) c

theorem handleAll_closed (c : Connection) (fs : List (Nat × Frame)) (hp : c.phase = .closed) :
    (c.handleAll fs).phase = .closed ∧ (c.handleAll fs).error = c.error := by
  induction fs generalizing c with
  | nil => exact ⟨hp,rfl⟩
  | cons f fs ih =>
    obtain ⟨hphase,herror⟩ := c.handle_closed f.1 f.2 hp
    obtain ⟨hrest,hsame⟩ := ih _ hphase
    exact ⟨hrest,hsame.trans herror⟩

def Past (c : Connection) : Prop := c.phase = .closing ∨ c.phase = .closed

theorem past_iff : c.Past ↔ 2 ≤ c.phase.rank := by
  unfold Past
  cases c.phase <;> simp [Phase.rank]

theorem Past.deed (h : c.Past) (hd : Deed meant c c') : c'.Past :=
  past_iff.mpr ((past_iff.mp h).trans hd.rank_le)

theorem Past.not_active (h : c.Past) : c.phase ≠ .active := by
  rcases h with h | h <;> simp [h]

theorem Past.not_connecting (h : c.Past) : c.phase ≠ .connecting := by
  rcases h with h | h <;> simp [h]

def ids (c : Connection) : List (Option StreamId) := c.streams.map (·.id)

section Ids

theorem ids_set {streams : List Stream} {s s' : Stream} (hi : streams[i]? = some s)
    (hid : s'.id = s.id) : (streams.set i s').map (·.id) = streams.map (·.id) := by
  apply List.ext_getElem?
  intro j
  rw [List.getElem?_map,List.getElem?_map,getElem?_set_of hi]
  split
  · rename_i hj
    rw [hj,hi,Option.map_some,Option.map_some,hid]
  · rfl

theorem ids_foldl_modify {α : Type} (l : List α) (place : α → Nat) {f : Stream → Stream}
    (hf : ∀ s, (f s).id = s.id) (streams : List Stream) :
    (l.foldl (fun ss a => ss.modify (place a) f) streams).map (·.id) = streams.map (·.id) := by
  induction l generalizing streams with
  | nil => rfl
  | cons a l ih =>
    rw [List.foldl_cons,ih,List.modify_eq_set_getElem?]
    cases hi : streams[place a]? with
    | none => rfl
    | some s => exact ids_set hi (hf s)

theorem ids_release (c : Connection) (i : Nat) : (c.release i).ids = c.ids := by
  rcases c.release_cases i with h | ⟨s,_,hi,-,-,-,-,h⟩
  · rw [h]
  · rw [h,setActive_eq]
    exact ids_set hi rfl

theorem ids_failStreams (c : Connection) (e : Failure) : (c.failStreams e).ids = c.ids := by
  simp only [failStreams,foldl_modify_eq]
  exact ids_foldl_modify c.table (·.2) (fun s => by simp [Stream.fail,Stream.notify]) c.streams

theorem ids_abort (c : Connection) (e : Failure) : (c.abort e).ids = c.ids := by
  unfold abort
  split
  · rfl
  · dsimp only
    rw [foldl_modify_eq _ _ fun i => i]
    refine (ids_foldl_modify _ id (fun s => ?_) _).trans (ids_failStreams _ e)
    simp [Stream.fail,Stream.notify]

theorem Move.ids_cases (hm : Move c c') :
    c'.ids = c.ids ∨ c.phase = .active ∧ c'.ids = c.ids ++ [none] := by
  cases hm with
  | add d hp => exact .inr ⟨hp,by simp [ids,Stream.fresh]⟩
  | tend hi ht =>
    rw [enqueueControl?_eq]
    exact .inl (ids_set hi ht.agrees.id)
  | finish hi =>
    rw [ids_release]
    exact .inl (ids_set hi rfl)
  | reset code wire hi =>
    rw [ids_release]
    exact .inl (ids_set hi rfl)
  | send hi => exact .inl (ids_set hi rfl)
  | spend credit hi => exact .inl (ids_set hi rfl)
  | mark code hi => exact .inl (ids_set hi rfl)
  | say => rw [enqueueControl_eq]; exact .inl rfl
  | close => rw [enqueueClose_eq]; exact .inl rfl
  | lose e => exact .inl (c.ids_failStreams e)
  | abort e => exact .inl (c.ids_abort e)
  | note | wane | shut | complete => exact .inl rfl

end Ids

/-- What a connection that is no longer active keeps: it starts no streams, and none of the peer
come up or are counted. -/
structure Frozen (c c' : Connection) : Prop where
  nextLocal : c'.nextLocal = c.nextLocal
  ids : c'.ids = c.ids
  accepted : c'.metrics.streamsAccepted = c.metrics.streamsAccepted
  pending : c'.acceptQueue.Sublist c.acceptQueue
  activeRemote : ∀ d, c'.activeRemote.get d ≤ c.activeRemote.get d

namespace Frozen

theorem refl (c : Connection) : Frozen c c := ⟨rfl,rfl,rfl,.refl _,fun _ => le_rfl⟩

theorem trans {c'' : Connection} (h : Frozen c c') (h' : Frozen c' c'') : Frozen c c'' :=
  ⟨h'.nextLocal.trans h.nextLocal,h'.ids.trans h.ids,h'.accepted.trans h.accepted,
    h'.pending.trans h.pending,fun d => (h'.activeRemote d).trans (h.activeRemote d)⟩

end Frozen

theorem frozen_release (c : Connection) (i : Nat) : Frozen c (c.release i) := by
  have hactive (d : Direction) : (c.release i).activeRemote.get d ≤ c.activeRemote.get d := by
    rcases c.release_cases i with h | ⟨_,_,-,-,-,-,-,h⟩
    · rw [h]
    · rw [h,setActive_get]
      exact Nat.sub_le _ _
  have hids := c.ids_release i
  rw [release_eq] at hids hactive ⊢
  exact ⟨rfl,hids,rfl,.refl _,hactive⟩

theorem Frozen.release (h : Frozen c c') (i : Nat) : Frozen c (c'.release i) :=
  h.trans (c'.frozen_release i)

theorem frozen_abort (c : Connection) (e : Failure) : Frozen c (c.abort e) := by
  by_cases hp : c.phase = .closed
  · rw [abort,if_pos hp]
    exact .refl c
  · have hids := c.ids_abort e
    rw [abort_eq c e hp] at hids ⊢
    exact ⟨rfl,hids,rfl,List.nil_sublist _,fun d => by simp⟩

theorem Move.frozen (hm : Move c c') (hp : c.phase ≠ .active) : Frozen c c' := by
  have hids : c'.ids = c.ids := hm.ids_cases.resolve_right fun hx => hp hx.1
  cases hm with
  | add d hx => exact absurd hx hp
  | note metrics changes acceptQueue closedLocally accepted pending =>
    exact ⟨rfl,rfl,accepted,pending,fun _ => le_rfl⟩
  | tend =>
    rw [enqueueControl?_eq] at hids ⊢
    exact ⟨rfl,hids,rfl,.refl _,fun _ => le_rfl⟩
  | finish hi =>
    apply Frozen.release
    exact ⟨rfl,ids_set hi rfl,rfl,.refl _,fun _ => le_rfl⟩
  | reset code wire hi =>
    apply Frozen.release
    rw [enqueueControl_eq]
    exact ⟨rfl,ids_set hi rfl,rfl,.refl _,fun _ => le_rfl⟩
  | say =>
    rw [enqueueControl_eq]
    exact ⟨rfl,rfl,rfl,.refl _,fun _ => le_rfl⟩
  | close =>
    rw [enqueueClose_eq]
    exact ⟨rfl,rfl,rfl,.refl _,fun _ => le_rfl⟩
  | lose e =>
    rw [failStreams_eq] at hids ⊢
    exact ⟨rfl,hids,rfl,List.nil_sublist _,fun d => by simp⟩
  | abort e => exact c.frozen_abort e
  | send | spend | mark | wane | shut | complete =>
    exact ⟨rfl,hids,rfl,.refl _,fun _ => le_rfl⟩

theorem Take.frozen (ht : Take f c c') (hp : c.phase ≠ .active) : Frozen c c' := by
  cases ht with
  | @data _ i s id fin data w hf hi =>
    have hids := ids_set hi (s.grows_afterData w fin data).id
    have hdata : Frozen c { c.enqueueControl? (s.afterData w fin data).1 with
        streams := c.streams.set i (s.afterData w fin data).2.notify } := by
      rw [enqueueControl?_eq]
      exact ⟨rfl,hids,rfl,.refl _,fun _ => le_rfl⟩
    split
    · exact hdata.release i
    · exact hdata
  | grant hf hi => exact ⟨rfl,ids_set hi rfl,rfl,.refl _,fun _ => le_rfl⟩
  | reset code unwritten changes hf hi =>
    apply Frozen.release
    exact ⟨rfl,ids_set hi rfl,rfl,.refl _,fun _ => le_rfl⟩
  | refuse =>
    rw [enqueueControl_eq]
    exact ⟨rfl,rfl,rfl,.refl _,fun _ => le_rfl⟩
  | surface _ _ hs => exact absurd hs.active hp
  | stray _ _ _ _ accepted => exact ⟨rfl,rfl,accepted,.refl _,fun _ => le_rfl⟩
  | drop | pass | idle | close => exact ⟨rfl,rfl,rfl,.refl _,fun _ => le_rfl⟩

theorem Deed.frozen (hd : Deed meant c c') (hp : c.phase ≠ .active) : Frozen c c' := by
  cases hd with
  | move hm => exact hm.frozen hp
  | start hs =>
    obtain ⟨-,-,-,hx,-⟩ := hs
    exact absurd hx hp
  | take _ _ ht =>
    have hf := ht.frozen hp
    exact { hf with }
  | @breach _ v f size _ hb =>
    have hf := frozen_abort (c.hear f size) (.protocolViolation v)
    rw [hb.unchanged hp]
    exact { hf with }
  | endReads | shutOff | establish => exact ⟨rfl,rfl,rfl,.refl _,fun _ => le_rfl⟩
  | abort e => exact c.frozen_abort e
  | ship hb =>
    obtain ⟨_,_,_,rfl⟩ := takeBatch_eq hb
    exact ⟨rfl,rfl,rfl,.refl _,fun _ => le_rfl⟩

theorem Deeds.frozen (hd : Deeds meant c c') (hp : c.Past) : Frozen c c' ∧ c'.Past := by
  induction hd with
  | refl => exact ⟨.refl c,hp⟩
  | tail _ hstep ih => exact ⟨ih.1.trans (hstep.frozen ih.2.not_active),ih.2.deed hstep⟩

section Table

theorem table_release (c : Connection) (i : Nat) : (c.release i).table.Sublist c.table := by
  rcases c.release_cases i with h | ⟨_,_,-,-,-,-,-,h⟩
  · rw [h]
  · rw [h,setActive_eq]
    exact List.filter_sublist

theorem Move.table (hm : Move c c') : c'.table.Sublist c.table := by
  cases hm with
  | tend => rw [enqueueControl?_eq]
  | finish => exact table_release _ _
  | reset =>
    refine (table_release _ _).trans ?_
    rw [enqueueControl_eq]
  | say => rw [enqueueControl_eq]
  | close => rw [enqueueClose_eq]
  | lose e =>
    rw [failStreams_eq]
    exact List.nil_sublist _
  | abort e hp =>
    rw [abort_eq c e hp]
    exact List.nil_sublist _
  | note | add | send | spend | mark | wane | shut | complete => exact .refl _

end Table

/-- How far a connection is with its end. -/
structure Winding (c : Connection) : Prop where
  past : c.shutdownWrites = true → c.Past
  empty : c.shutdownWrites = true → c.table = []
  shut : c.writesShut = true → c.shutdownWrites = true
  answered : c.closeReceived.isSome → c.Past
  closed : c.phase = .closed → c.table = []

namespace Winding

theorem fresh (role : Role) (options : Options) (codes : CodeSpace) :
    (Connection.fresh role options codes).Winding := by
  constructor <;> simp [Connection.fresh]

theorem of_flags (hw : c.shutdownWrites = false) (hs : c.writesShut = false)
    (hr : c.closeReceived = none) (hp : c.phase ≠ .closed) : c.Winding := by
  constructor <;> simp [hw,hs,hr,hp]

theorem flags (h : c.Winding) (hp : ¬c.Past) :
    c.shutdownWrites = false ∧ c.writesShut = false ∧ c.closeReceived = none := by
  have hw : c.shutdownWrites = false := by
    by_contra hx
    exact hp (h.past (by simpa using hx))
  refine ⟨hw,?_,?_⟩
  · by_contra hx
    cases (h.shut (by simpa using hx)).symm.trans hw
  · by_contra hx
    exact hp (h.answered (Option.isSome_iff_ne_none.mpr hx))

theorem congr (h : c.Winding) (hw : c'.shutdownWrites = c.shutdownWrites)
    (hs : c'.writesShut = c.writesShut) (hr : c'.closeReceived = c.closeReceived)
    (hp : c'.phase = c.phase) (ht : c'.table.Sublist c.table) : c'.Winding := by
  have hnil : c.table = [] → c'.table = [] := fun hx => List.sublist_nil.mp (hx ▸ ht)
  have hpast : c.Past → c'.Past := by
    unfold Past
    rw [hp]
    exact id
  exact ⟨fun hx => hpast (h.past (hw ▸ hx)),fun hx => hnil (h.empty (hw ▸ hx)),
    fun hx => hw ▸ h.shut (hs ▸ hx),fun hx => hpast (h.answered (hr ▸ hx)),
    fun hx => hnil (h.closed (hp ▸ hx))⟩

theorem release (h : c.Winding) (i : Nat) : (c.release i).Winding := by
  have ht := c.table_release i
  rw [release_eq] at ht ⊢
  exact h.congr rfl rfl rfl rfl ht

theorem abort (h : c.Winding) (e : Failure) : (c.abort e).Winding := by
  by_cases hp : c.phase = .closed
  · rw [Connection.abort,if_pos hp]
    exact h
  · rw [abort_eq c e hp]
    exact ⟨fun _ => .inr rfl,fun _ => rfl,h.shut,fun _ => .inr rfl,fun _ => rfl⟩

theorem move (h : c.Winding) (hm : Move c c') : c'.Winding := by
  cases hm with
  | tend =>
    rw [enqueueControl?_eq]
    exact h.congr rfl rfl rfl rfl (.refl _)
  | finish =>
    apply Winding.release
    exact h.congr rfl rfl rfl rfl (.refl _)
  | reset =>
    apply Winding.release
    rw [enqueueControl_eq]
    exact h.congr rfl rfl rfl rfl (.refl _)
  | say =>
    rw [enqueueControl_eq]
    exact h.congr rfl rfl rfl rfl (.refl _)
  | close =>
    rw [enqueueClose_eq]
    exact h.congr rfl rfl rfl rfl (.refl _)
  | lose =>
    rw [failStreams_eq]
    exact h.congr rfl rfl rfl rfl (List.nil_sublist _)
  | wane => exact ⟨fun _ => .inl rfl,h.empty,h.shut,fun _ => .inl rfl,nofun⟩
  | shut hp hnil => exact ⟨fun _ => .inl hp,fun _ => hnil,fun _ => rfl,h.answered,h.closed⟩
  | complete _ hnil =>
    exact ⟨fun _ => .inr rfl,h.empty,h.shut,fun _ => .inr rfl,fun _ => hnil.elim id h.empty⟩
  | abort e => exact h.abort e
  | note | add | send | spend | mark => exact h.congr rfl rfl rfl rfl (.refl _)

end Winding

theorem Moves.winding (hm : Moves c c') (h : c.Winding) : c'.Winding := by
  induction hm with
  | refl => exact h
  | tail _ hstep ih => exact ih.move hstep

theorem Start.winding (hs : Start i c c') (h : c.Winding) : c'.Winding := by
  obtain ⟨-,-,-,hp,-⟩ := hs
  obtain ⟨hw,hs,hr⟩ := h.flags (fun hx => hx.not_active hp)
  refine .of_flags hw hs hr ?_
  simp [started,hp]

theorem Take.winding (ht : Take f c c') (h : c.Winding) (hn : c.phase ≠ .connecting) :
    c'.Winding := by
  induction ht with
  | data =>
    rw [enqueueControl?_eq]
    split
    · apply Winding.release
      exact h.congr rfl rfl rfl rfl (.refl _)
    · exact h.congr rfl rfl rfl rfl (.refl _)
  | reset =>
    apply Winding.release
    exact h.congr rfl rfl rfl rfl (.refl _)
  | refuse =>
    rw [enqueueControl_eq]
    exact h.congr rfl rfl rfl rfl (.refl _)
  | surface _ _ hx _ ih =>
    obtain ⟨hw,hs,hr⟩ := h.flags (fun hp => hp.not_active hx.active)
    exact ih (.of_flags hw hs hr (by simp [surfaced,reached,hx.active])) hn
  | @close c wire code hr =>
    have hpast : Past { c with
        closeReceived := some code
        phase := if c.phase = .active then .closing else c.phase } := by
      unfold Past
      cases hx : c.phase with
      | connecting => exact absurd hx hn
      | active | closing | closed => simp
    refine ⟨fun _ => hpast,h.empty,h.shut,fun _ => hpast,fun hx => h.closed ?_⟩
    split at hx
    · cases hx
    · exact hx
  | grant | drop | pass | idle | stray => exact h.congr rfl rfl rfl rfl (.refl _)

theorem Breach.winding (hb : Breach v f c c') (h : c.Winding) : c'.Winding := by
  induction hb with
  | surface _ _ hx _ ih =>
    obtain ⟨hw,hs,hr⟩ := h.flags (fun hp => hp.not_active hx.active)
    exact ih (.of_flags hw hs hr (by simp [surfaced,reached,hx.active]))
  | neverOpened | beyondLimit | data | duplicateClose | lateSettings =>
    exact h.congr rfl rfl rfl rfl (.refl _)

theorem Deed.winding (hd : Deed meant c c') (h : c.Winding) : c'.Winding := by
  have hheard (f : Frame) (size : Nat) : (c.hear f size).Winding :=
    h.congr rfl rfl rfl rfl (.refl _)
  cases hd with
  | move hm => exact h.move hm
  | start hs hm => exact hm.winding (hs.winding h)
  | take hp _ ht => exact ht.winding (hheard _ _) hp
  | breach _ hb => exact (hb.winding (hheard _ _)).abort _
  | endReads => exact h.congr rfl rfl rfl rfl (.refl _)
  | shutOff hready =>
    simp only [readyToShut,Bool.and_eq_true] at hready
    exact { h with shut := fun _ => hready.1.1 }
  | abort e => exact h.abort e
  | ship hb =>
    obtain ⟨_,_,_,rfl⟩ := takeBatch_eq hb
    exact h.congr rfl rfl rfl rfl (.refl _)
  | establish peer valid hp =>
    obtain ⟨hw,hs,hr⟩ := h.flags (fun hx => hx.not_connecting hp)
    exact .of_flags hw hs hr (by simp)

theorem Deeds.winding (hd : Deeds meant c c') (h : c.Winding) : c'.Winding := by
  induction hd with
  | refl => exact h
  | tail _ hstep ih => exact hstep.winding ih

def said (c : Connection) : List Frame := c.journal.data.map (·.frame) ++ c.journal.control

/-- Whether the connection has no stream of the given id. -/
structure Apart (c : Connection) (x : StreamId) : Prop where
  unlisted : ∀ i, (x, i) ∉ c.table
  absent : some x ∉ c.ids

section Apart

variable {id : StreamId}

variable {x : StreamId}

theorem about_append_data (c : Connection) (q : Outgoing) (hq : q.frame.streamId ≠ some x) :
    about x (c.append q).said = about x c.said := by
  simp [said,append,Journal.noteData,about,hq]

theorem about_say (c : Connection) (hf : f.streamId ≠ some x) :
    about x (c.enqueueControl f).said = about x c.said := by
  obtain ⟨u,hu,he⟩ := c.enqueueControl_cases f
  rw [he]
  rcases hu with rfl | rfl <;> simp [said,about,hf]

theorem about_announce (c : Connection) (update : Option Frame)
    (hu : ∀ g ∈ update, g.streamId ≠ some x) :
    about x (c.enqueueControl? update).said = about x c.said := by
  cases update with
  | none => rfl
  | some g => exact c.about_say (hu g rfl)

theorem Apart.holds (h : c.Apart x) (hi : c.streams[i]? = some s) (hid : s.id = some id) :
    some id ≠ some x := by
  intro hx
  apply h.absent
  rw [← hx,← hid]
  exact List.mem_map.mpr ⟨s,List.mem_of_getElem? hi,rfl⟩

theorem said_release (c : Connection) (i : Nat) : (c.release i).said = c.said := by
  rw [release_eq]
  rfl

theorem Move.said (hm : Move c c') (h : c.Apart x) : about x c'.said = about x c.said := by
  cases hm with
  | @tend i s s' update hi ht =>
    refine about_announce { c with streams := c.streams.set i s' } update fun g hg => ?_
    obtain ⟨id,n,hid,rfl⟩ := ht.announced g hg
    exact h.holds hi hid
  | send hi hid => exact about_append_data _ _ (h.holds hi hid)
  | finish hi hid =>
    rw [said_release]
    exact about_append_data _ _ (h.holds hi hid)
  | reset code wire hi hid =>
    rw [said_release]
    exact c.about_say (h.holds hi hid)
  | say hf =>
    refine c.about_say ?_
    rcases hf with ⟨v,rfl⟩ | ⟨v,rfl⟩ <;> simp [Frame.streamId]
  | close code =>
    unfold enqueueClose
    split
    · rfl
    · exact c.about_append_data _ (by simp [Frame.streamId])
  | lose e => rw [failStreams_eq]; rfl
  | abort e hp => rw [abort_eq c e hp]; rfl
  | note | add | spend | mark | wane | shut | complete => rfl

namespace Apart

section

variable (h : c.Apart x)

include h

theorem move (hm : Move c c') : c'.Apart x := by
  refine ⟨fun i hi => h.unlisted i (hm.table.subset hi),?_⟩
  rcases hm.ids_cases with he | ⟨-,he⟩
  · rw [he]
    exact h.absent
  · rw [he]
    simpa using h.absent

theorem moves (hm : Moves c c') : c'.Apart x ∧ about x c'.said = about x c.said := by
  induction hm with
  | refl => exact ⟨h,rfl⟩
  | tail _ hstep ih => exact ⟨ih.1.move hstep,(hstep.said ih.1).trans ih.2⟩

theorem start (hr : x.initiator ≠ c.role) (hs : Start i c c') :
    c'.Apart x ∧ about x c'.said = about x c.said := by
  obtain ⟨hi,-,-,-,-⟩ := hs
  rename_i s
  have hne : x ≠
      StreamId.ofParts (UInt64.ofNat (c.nextLocal.get s.direction)) s.direction c.role := by
    rintro rfl
    exact hr (StreamId.initiator_ofParts _ _ _)
  refine ⟨⟨fun j hj => ?_,fun hmem => ?_⟩,rfl⟩
  · rcases List.mem_append.mp hj with hj | hj
    · exact h.unlisted j hj
    · exact hne (by simpa using congrArg Prod.fst (List.mem_singleton.mp hj))
  · obtain ⟨t,ht,hid⟩ := List.mem_map.mp hmem
    rcases List.mem_or_eq_of_mem_set ht with ht | rfl
    · exact h.absent (List.mem_map.mpr ⟨t,ht,hid⟩)
    · exact hne (Option.some.inj hid).symm

theorem not_found : c.find? x = none := by
  rw [find?,Option.map_eq_none_iff,List.find?_eq_none]
  rintro ⟨y,i⟩ hmem hy
  obtain rfl : y = x := by simpa using hy
  exact h.unlisted i hmem

theorem release (i : Nat) : (c.release i).Apart x :=
  ⟨fun j hj => h.unlisted j ((c.table_release i).subset hj),by rw [ids_release]; exact h.absent⟩

theorem congr (ht : c'.table = c.table) (hids : c'.ids = c.ids) : c'.Apart x :=
  ⟨by rw [ht]; exact h.unlisted,by rw [hids]; exact h.absent⟩

theorem surfaced (hne : x ≠ id) (metrics : Metrics) (changes : Nat) :
    ({ c.surfaced id with metrics, changes } : Connection).Apart x := by
  constructor
  · intro j hj
    rcases List.mem_append.mp hj with hj | hj
    · exact h.unlisted j hj
    · exact hne (by simpa using congrArg Prod.fst (List.mem_singleton.mp hj))
  · have habsent := h.absent
    simp only [ids,Connection.surfaced,List.map_append] at habsent ⊢
    simpa [hne] using habsent

theorem abort (e : Failure) : (c.abort e).Apart x ∧ about x (c.abort e).said = about x c.said := by
  by_cases hp : c.phase = .closed
  · rw [Connection.abort,if_pos hp]
    exact ⟨h,rfl⟩
  · have hids := c.ids_abort e
    rw [abort_eq c e hp] at hids ⊢
    exact ⟨⟨by simp,by rw [hids]; exact h.absent⟩,rfl⟩

end

end Apart

theorem lt_reached (c : Connection) (id : StreamId) :
    id.sequence.toNat < (c.reached id).nextRemote.get id.direction := by
  simp [reached,PerDirection.get_set]

theorem Take.reach (ht : Take f c c') (d : Direction) :
    c.nextRemote.get d ≤ c'.nextRemote.get d := by
  induction ht with
  | data =>
    rw [enqueueControl?_eq]
    split
    · rw [release_eq]
    · exact le_rfl
  | reset => rw [release_eq]
  | refuse new =>
    rw [enqueueControl_eq]
    exact new.reach d
  | pass new => exact new.reach d
  | surface _ _ hs _ ih => exact (hs.new.reach d).trans ih
  | grant | drop | idle | close | stray => exact le_rfl

theorem Apart.other (ht : Take f c c') (h : c.Apart x) (hf : f.streamId ≠ some x) :
    c'.Apart x ∧ about x c'.said = about x c.said := by
  induction ht with
  | @data c i s id fin data w _ hi =>
    have hids := ids_set hi (s.grows_afterData w fin data).id
    have hsaid : about x (c.enqueueControl? (s.afterData w fin data).1).said = about x c.said := by
      refine about_announce c _ fun g hg => ?_
      obtain ⟨id,n,hid,rfl⟩ := s.afterData_announced w fin data g hg
      exact h.holds hi hid
    have hdata : ({ c.enqueueControl? (s.afterData w fin data).1 with
        streams := c.streams.set i (s.afterData w fin data).2.notify } : Connection).Apart x := by
      rw [enqueueControl?_eq]
      exact h.congr rfl hids
    split
    · rw [said_release]
      exact ⟨hdata.release i,hsaid⟩
    · exact ⟨hdata,hsaid⟩
  | grant _ hi => exact ⟨h.congr rfl (ids_set hi rfl),rfl⟩
  | reset code unwritten changes _ hi =>
    rw [said_release]
    refine ⟨Apart.release ?_ _,rfl⟩
    exact h.congr rfl (ids_set hi rfl)
  | refuse =>
    refine ⟨?_,about_say _ hf⟩
    rw [enqueueControl_eq]
    exact h.congr rfl rfl
  | surface metrics changes hs _ ih =>
    refine ih (h.surfaced (fun hx => hf ?_) metrics changes) hf
    rw [hx,hs.about]
  | pass | drop | idle | close | stray => exact ⟨h.congr rfl rfl,rfl⟩

/-- How a connection refuses a stream. -/
def refusal (c : Connection) (id : StreamId) : Frame :=
  .reset id (c.codes.toWire (c.codes.resetCode .refused))

/-- What a frame of a stream that is not there does: nothing, unless the peer gets further with
it. -/
theorem Apart.own (ht : Take f c c') (h : c.Apart x) (hf : f.streamId = some x) :
    c'.Apart x ∧ about x c'.said = about x c.said ∨
    c.Unheard x ∧ x.sequence.toNat < c'.nextRemote.get x.direction ∧
      (c.phase = .active ∨
        c'.Apart x ∧ (about x c.said = [] → about x c'.said = [c.refusal x])) := by
  cases ht with
  | data hfound | grant hfound | reset _ _ _ hfound =>
    cases hf
    cases h.not_found.symm.trans hfound
  | pass | drop | stray => exact .inl ⟨h.congr rfl rfl,rfl⟩
  | @refuse _ id _ _ new hp =>
    obtain rfl := Option.some.inj hf
    obtain ⟨u,hu,he⟩ := (c.reached id).enqueueControl_cases (c.refusal id)
    rw [refusal] at he
    rw [he]
    rcases hu with rfl | rfl
    · exact .inl ⟨h.congr rfl rfl,rfl⟩
    · refine .inr ⟨new,c.lt_reached id,.inr ⟨h.congr rfl rfl,fun hx => ?_⟩⟩
      rw [said,about_append,List.append_eq_nil_iff] at hx
      calc about id (c.journal.data.map (·.frame) ++ ([c.refusal id] ++ c.journal.control))
          = about id [c.refusal id] := by rw [about_append,about_append,hx.1,hx.2]; simp
        _ = [c.refusal id] := about_of_eq rfl
  | surface _ _ hs rest =>
    cases hs.about.symm.trans hf
    exact .inr ⟨hs.new,(lt_reached c _).trans_le (rest.reach _),.inl hs.active⟩
  | idle hx => rcases hx with ⟨_,rfl⟩ | ⟨_,rfl⟩ <;> cases hf
  | close => cases hf

end Apart

/-- A connection knows nothing of the streams that its peer has not come to. -/
def Rooted (c : Connection) : Prop :=
  ∀ x : StreamId, x.initiator ≠ c.role → c.nextRemote.get x.direction ≤ x.sequence.toNat →
    c.Apart x ∧ about x c.said = []

theorem rooted_fresh (role : Role) (options : Options) (codes : CodeSpace) :
    (Connection.fresh role options codes).Rooted := by
  intro x _ _
  exact ⟨⟨by simp [Connection.fresh],by simp [Connection.fresh,ids]⟩,rfl⟩

section Rooted

variable {x : StreamId}

theorem Breach.reach (hb : Breach v f c c') (d : Direction) :
    c.nextRemote.get d ≤ c'.nextRemote.get d := by
  induction hb with
  | beyondLimit hx => exact hx.new.reach d
  | surface _ _ hs _ ih => exact (hs.new.reach d).trans ih
  | neverOpened | data | duplicateClose | lateSettings => exact le_rfl

theorem abort_nextRemote (c : Connection) (e : Failure) :
    (c.abort e).nextRemote = c.nextRemote := by
  by_cases hp : c.phase = .closed
  · rw [abort,if_pos hp]
  · rw [abort_eq c e hp]

theorem Moves.nextRemote (hm : Moves c c') : c'.nextRemote = c.nextRemote := by
  induction hm with
  | refl => rfl
  | tail _ hstep ih => exact hstep.site.nextRemote.trans ih

theorem Deed.reach (hd : Deed meant c c') (d : Direction) :
    c.nextRemote.get d ≤ c'.nextRemote.get d := by
  cases hd with
  | move hm => rw [hm.site.nextRemote]
  | start hs hm =>
    obtain ⟨-,-,-,-,-⟩ := hs
    rw [hm.nextRemote]
    exact le_rfl
  | take _ _ ht => exact ht.reach d
  | breach _ hb =>
    rw [abort_nextRemote]
    exact hb.reach d
  | abort e => rw [abort_nextRemote]
  | ship hb =>
    obtain ⟨_,_,_,rfl⟩ := takeBatch_eq hb
    exact le_rfl
  | endReads | shutOff | establish => exact le_rfl

theorem Apart.breach (hb : Breach v f c c') (h : c.Apart x)
    (hn : c'.nextRemote.get x.direction ≤ x.sequence.toNat) :
    c'.Apart x ∧ about x c'.said = about x c.said := by
  induction hb with
  | surface metrics changes _ rest ih =>
    refine ih ?_ hn
    refine h.surfaced ?_ metrics changes
    rintro rfl
    have := (lt_reached _ _).trans_le (rest.reach x.direction)
    omega
  | neverOpened | beyondLimit | data | duplicateClose | lateSettings => exact ⟨h.congr rfl rfl,rfl⟩

theorem Deed.rooted (hd : Deed meant c c') (h : c.Rooted) : c'.Rooted := by
  intro x hr hn
  rw [hd.later.role] at hr
  obtain ⟨ha,hs⟩ := h x hr ((hd.reach _).trans hn)
  have hkeep {y : Connection} (hy : y.Apart x ∧ about x y.said = about x c.said) :
      y.Apart x ∧ about x y.said = [] := ⟨hy.1,hy.2.trans hs⟩
  apply hkeep
  cases hd with
  | move hm => exact ha.moves hm.moves
  | start hst hm =>
    obtain ⟨ha',hs'⟩ := ha.start hr hst
    obtain ⟨ha'',hs''⟩ := ha'.moves hm
    exact ⟨ha'',hs''.trans hs'⟩
  | @take _ f size _ _ ht =>
    have hheard : (c.hear f size).Apart x := ha.congr rfl rfl
    by_cases hf : f.streamId = some x
    · rcases hheard.own ht hf with hkept | ⟨-,hlt,-⟩
      · exact hkept
      · omega
    · obtain ⟨ha',hs'⟩ := hheard.other ht hf
      exact ⟨ha',hs'⟩
  | @breach _ v f size _ hb =>
    rw [abort_nextRemote] at hn
    have hheard : (c.hear f size).Apart x := ha.congr rfl rfl
    obtain ⟨ha',hs'⟩ := hheard.breach hb hn
    obtain ⟨ha'',hs''⟩ := ha'.abort (.protocolViolation v)
    exact ⟨ha'',hs''.trans hs'⟩
  | abort e => exact ha.abort e
  | ship hb =>
    obtain ⟨_,-,rfl⟩ := takeBatch_spec hb
    exact ⟨ha.congr rfl rfl,rfl⟩
  | endReads | shutOff | establish => exact ⟨ha.congr rfl rfl,rfl⟩

theorem Deeds.rooted (hd : Deeds meant c c') (h : c.Rooted) : c'.Rooted := by
  induction hd with
  | refl => exact h
  | tail _ hstep ih => exact hstep.rooted ih

/-- Nothing is said about a stream, or no more than that it is refused, once and for all. -/
def Rebuffed (c : Connection) (x : StreamId) : Prop :=
  c.Apart x ∧ (about x c.said = [] ∨
    x.sequence.toNat < c.nextRemote.get x.direction ∧ about x c.said = [c.refusal x])

theorem Deed.rebuffed (hd : Deed meant c c') (hp : c.Past) (h : c.Rebuffed x) : c'.Rebuffed x := by
  have hcodes : c'.refusal x = c.refusal x := by
    unfold refusal
    rw [hd.later.codes]
  have hreach := hd.reach x.direction
  have hkeep (hy : c'.Apart x ∧ about x c'.said = about x c.said) : c'.Rebuffed x := by
    refine ⟨hy.1,?_⟩
    rw [hy.2,hcodes]
    exact h.2.imp id fun hx => ⟨hx.1.trans_le hreach,hx.2⟩
  cases hd with
  | move hm => exact hkeep (h.1.moves hm.moves)
  | start hs =>
    obtain ⟨-,-,-,hx,-⟩ := hs
    exact absurd hx hp.not_active
  | @take _ f size _ _ ht =>
    have hheard : (c.hear f size).Apart x := h.1.congr rfl rfl
    by_cases hf : f.streamId = some x
    · rcases hheard.own ht hf with hkept | ⟨new,hlt,hcase⟩
      · exact hkeep hkept
      · obtain ⟨ha,hsaid⟩ := hcase.resolve_left hp.not_active
        have hunsaid : about x c.said = [] :=
          h.2.resolve_right fun hx => absurd hx.1 (Nat.not_lt.mpr new.next)
        exact ⟨ha,.inr ⟨hlt,hcodes ▸ hsaid hunsaid⟩⟩
    · obtain ⟨ha,hsaid⟩ := hheard.other ht hf
      exact hkeep ⟨ha,hsaid⟩
  | @breach _ v f size _ hb =>
    have hheard : (c.hear f size).Apart x := h.1.congr rfl rfl
    apply hkeep
    rw [hb.unchanged hp.not_active]
    exact hheard.abort (.protocolViolation v)
  | abort e => exact hkeep (h.1.abort e)
  | ship hb =>
    obtain ⟨_,-,rfl⟩ := takeBatch_spec hb
    exact hkeep ⟨h.1.congr rfl rfl,rfl⟩
  | endReads | shutOff => exact hkeep ⟨h.1.congr rfl rfl,rfl⟩
  | establish peer valid hx => exact absurd hx hp.not_connecting

theorem Deeds.rebuffed (hd : Deeds meant c c') (hp : c.Past) (h : c.Rebuffed x) :
    c'.Rebuffed x := by
  have hboth : c'.Past ∧ c'.Rebuffed x := by
    induction hd with
    | refl => exact ⟨hp,h⟩
    | tail _ hstep ih => exact ⟨ih.1.deed hstep,hstep.rebuffed ih.1 ih.2⟩
  exact hboth.2

theorem handle_refused (new : c.Unheard x) (hp : c.Past) (now : Nat) (fin : Bool) (data : Bytes) :
    c.handle now (.stream x fin data) = (none, (c.reached x).enqueueControl (c.refusal x)) := by
  unfold handle
  dsimp only
  rw [openRemote_of_not_active new hp.not_active]
  rfl

end Rooted

namespace Winding

theorem unshut (h : c.Winding) (hc : c.phase = .active ∨ c.table ≠ []) :
    c.phase ≠ .closed ∧ c.writesShut = false := by
  rcases hc with hp | ht
  · exact ⟨by simp [hp],(h.flags fun hx => hx.not_active hp).2.1⟩
  · refine ⟨fun hx => ht (h.closed hx),?_⟩
    by_contra hx
    exact ht (h.empty (h.shut (by simpa using hx)))

theorem continues_beginClose (h : c.Winding) (hc : c.phase = .active ∨ c.table ≠ [])
    (hi : c.streams[i]? = some s) (hs : s.id.isSome) (hq : i ∉ c.acceptQueue) (code : UInt64) :
    Continues i c (c.beginClose code) := by
  obtain ⟨hlive,hw⟩ := h.unshut hc
  obtain ⟨hstream,-,hpeer,hphase⟩ := c.beginClose_spares code hq
  exact continues_of_eq hi hs hstream hpeer hlive (by simp [hphase hlive hw])

theorem continues_receiveClose {d : Connection} {code : UInt64} (h : c.Winding)
    (hc : c.phase = .active ∨ c.table ≠ []) (hi : c.streams[i]? = some s) (hs : s.id.isSome)
    (hd : c.receiveClose code = .ok d) : Continues i c d := by
  obtain ⟨hlive,hw⟩ := h.unshut hc
  obtain ⟨hstream,-,hpeer,hphase⟩ := c.receiveClose_spares code hd i
  refine continues_of_eq hi hs hstream hpeer hlive ?_
  rw [hphase hw]
  split
  · simp
  · exact hlive

theorem closing (h : c.Winding) (hp : c.phase = .active) (code : UInt64) :
    (c.beginClose code).phase = .closing ∧
      ∃ d, c.receiveClose code = .ok d ∧ d.phase = .closing := by
  obtain ⟨-,hw,hr⟩ := h.flags fun hx => hx.not_active hp
  constructor
  · obtain ⟨i,hi⟩ := Infinite.exists_notMem_finset c.acceptQueue.toFinset
    exact (c.beginClose_spares code (by simpa using hi)).2.2.2 (by simp [hp]) hw
  · have hd : ∃ d, c.receiveClose code = .ok d := by simp [receiveClose,hr]
    obtain ⟨d,hd⟩ := hd
    refine ⟨d,hd,?_⟩
    rw [(c.receiveClose_spares code hd 0).2.2.2 hw,if_pos hp]

end Winding

end Connection

namespace Station

open Connection

variable (role : Role) (options : Options) (codes : CodeSpace) (channel : Channel)

/-- A connection only goes forward, and a closed one stays as it is. Once it is no longer active, it
has the streams that it has, and refuses new ones of its peer, each at most once. That it begins to
close does not touch the streams that are in use, except those that this end has not accepted when
it closes. -/
theorem lifecycle (steps more : List Step) :
    let c := ((fresh role options codes channel).run steps).connection
    let later := ((fresh role options codes channel).run (steps ++ more)).connection
    c.phase.rank ≤ later.phase.rank ∧
    (c.phase = .closed →
      (later.phase = .closed ∧ later.error = c.error) ∧
      ∀ fs, (c.handleAll fs).phase = .closed ∧ (c.handleAll fs).error = c.error) ∧
    (c.Past → Frozen c later ∧
      ∀ x : StreamId, x.initiator ≠ role → c.nextRemote.get x.direction ≤ x.sequence.toNat →
        (∀ now fin data, c.handle now (.stream x fin data) =
          (none, (c.reached x).enqueueControl (c.refusal x))) ∧
        (about x later.said = [] ∨ about x later.said = [c.refusal x])) ∧
    (∀ code i, i ∉ c.acceptQueue → (c.beginClose code).streams[i]? = c.streams[i]?) ∧
    (∀ code d, c.receiveClose code = .ok d → d.streams = c.streams) ∧
    (c.phase = .active → ∀ code, (c.beginClose code).phase = .closing ∧
      ∃ d, c.receiveClose code = .ok d ∧ d.phase = .closing) ∧
    (c.phase = .active ∨ c.table ≠ [] → ∀ code i s, c.streams[i]? = some s → s.id.isSome →
      (i ∉ c.acceptQueue → Continues i c (c.beginClose code)) ∧
      ∀ d, c.receiveClose code = .ok d → Continues i c d) := by
  intro c later
  have hfresh := Fresh.intro role options codes channel
  have hrun := hfresh.deeds steps
  have hmore : Deeds _ c later := hfresh.deeds_more steps more
  have hrole : c.role = role := hrun.later.role
  have hrooted : c.Rooted := hrun.rooted (rooted_fresh role options codes)
  have hwinding : c.Winding := hrun.winding (.fresh role options codes)
  refine ⟨hmore.rank_le,fun hp => ⟨hmore.closed hp,fun fs => c.handleAll_closed fs hp⟩,
    fun hp => ⟨(hmore.frozen hp).1,fun x hr hn => ?_⟩,
    fun code i hq => (c.beginClose_spares code hq).1,fun code d hd => ?_,hwinding.closing,
    fun hc code i s hi hs => ⟨fun hq => hwinding.continues_beginClose hc hi hs hq code,
      fun d => hwinding.continues_receiveClose hc hi hs⟩⟩
  · obtain ⟨ha,hsaid⟩ := hrooted x (hrole ▸ hr) hn
    refine ⟨handle_refused ⟨ha.not_found,hrole ▸ hr,hn⟩ hp,?_⟩
    have hcodes : later.refusal x = c.refusal x := by
      unfold refusal
      rw [hmore.later.codes]
    rw [← hcodes]
    exact (hmore.rebuffed hp ⟨ha,.inl hsaid⟩).2.imp id And.right
  · exact List.ext_getElem? fun i => (c.receiveClose_spares code hd i).1

/-- One stream is open, and one of the peer waits to be accepted. -/
def company : List Step :=
  meeting {} ++ [.quiet (.create .bidirectional), .quiet (.call false (.write 0 [1])),
    .hearing [.stream ⟨3⟩ false [2]]]

/-- In that company this end closes, and the peer goes on to open a stream. -/
theorem lifecycle_company :
    let before := ((fresh .client {} .direct .plain).run company).connection
    let closed := company ++ [.quiet (.call false (.close 0))]
    let more := [.hearing [.stream ⟨7⟩ false [3]], .hearing [.stream ⟨7⟩ true []]]
    let c := ((fresh .client {} .direct .plain).run closed).connection
    let later := ((fresh .client {} .direct .plain).run (closed ++ more)).connection
    (before.phase = .active ∧ before.acceptQueue = [1] ∧ Continues 0 before (before.beginClose 0)) ∧
      c.phase = .closing ∧ Frozen c later ∧ about ⟨7⟩ later.said = [c.refusal ⟨7⟩] := by
  intro before closed more c later
  have hp : before.phase = .active := by decide +kernel
  have hq : before.acceptQueue = [1] := by decide +kernel
  have hs : (before.streams[0]?.map (·.id.isSome)) = some true := by decide +kernel
  obtain ⟨s,hi,hs⟩ := Option.map_eq_some_iff.mp hs
  have hc : c.phase = .closing := by decide +kernel
  have hopen := (lifecycle .client {} .direct .plain company []).2.2.2.2.2.2 (.inl hp) 0 0 s hi hs
  have hpast := (lifecycle .client {} .direct .plain closed more).2.2.1 (.inl hc)
  have hrefused := (hpast.2 ⟨7⟩ (by decide) (by decide +kernel)).2
  refine ⟨⟨hp,hq,hopen.1 (by simp [before,hq])⟩,hc,hpast.1,hrefused.resolve_left ?_⟩
  decide +kernel

end Station

end Multiplex
