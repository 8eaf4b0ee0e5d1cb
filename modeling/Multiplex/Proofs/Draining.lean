import Multiplex.Proofs.ConnectionPair
import Multiplex.Proofs.Journal

/-!
The end of a graceful close, at one connection: once its writer is to shut down nothing is queued
any more.
-/

namespace Multiplex.Connection

variable {meant : Prop} {c c' c'' : Connection} {i : Nat} {f : Frame}

/-- What the writer has no part in, and the end of the input neither. -/
structure Withholds (c c' : Connection) : Prop where
  taken : c'.journal.taken = c.journal.taken
  writesShut : c'.writesShut = c.writesShut
  readEnded : c'.readEnded = c.readEnded

namespace Withholds

theorem refl (c : Connection) : Withholds c c := ⟨rfl,rfl,rfl⟩

theorem trans (h : Withholds c c') (h' : Withholds c' c'') : Withholds c c'' :=
  ⟨h'.taken.trans h.taken,h'.writesShut.trans h.writesShut,h'.readEnded.trans h.readEnded⟩

end Withholds

theorem Kept.withholds (h : c.Kept c') : Withholds c c' := { h with }

theorem Start.withholds (hs : Start i c c') : Withholds c c' := by
  obtain ⟨-,-,-,-,-⟩ := hs
  exact ⟨rfl,rfl,rfl⟩

theorem Evolves.withholds {ready : Prop} (h : Evolves ready c c') : Withholds c c' := by
  rcases h with hm | ⟨i,c₁,hs,hm,-⟩
  · exact (Moves.kept hm).withholds
  · exact hs.withholds.trans (Moves.kept hm).withholds

theorem withholds_receive (c : Connection) (now : Nat) (inbox : Bytes) :
    Withholds c (c.receive now inbox).1 := by
  refine receive_induct Withholds.refl ?_ ?_ (fun c _ => (c.kept_abort _).withholds) c inbox
  · intro c c₁ c' f size hx hrest
    have hh := handle_handled (c.hear f size) now f
    rw [hx] at hh
    obtain ⟨c₂,ht,hm⟩ := hh
    have hw := (ht.kept.trans (Moves.kept hm)).withholds.trans hrest
    exact { hw with }
  · intro c c₁ f size v hx
    have hh := handle_handled (c.hear f size) now f
    rw [hx] at hh
    have hw := (Breach.kept hh).trans (c₁.kept_abort (.protocolViolation v))
    exact { hw with }

/-- What was queued, and what waits, when nothing is added. -/
structure Hushed (c c' : Connection) : Prop where
  control : c'.journal.control = c.journal.control
  data : c'.journal.data = c.journal.data
  controlQueue : c'.controlQueue.Sublist c.controlQueue
  dataQueue : c'.dataQueue.Sublist c.dataQueue
  silent : c'.Silent

theorem Hushed.trans (h : Hushed c c') (h' : Hushed c' c'') : Hushed c c'' :=
  ⟨h'.control.trans h.control,h'.data.trans h.data,h'.controlQueue.trans h.controlQueue,
    h'.dataQueue.trans h.dataQueue,h'.silent⟩

theorem Sound.silent_not_active (h : c.Sound) (hq : c.Silent) : c.phase ≠ .active := by
  rcases hq with hp | hw
  · simp [hp]
  · rcases h.shut hw with hp | hp <;> simp [hp]

theorem Enters.hushed {heard : Option Frame} (he : Enters heard c c') (hq : c.Silent)
    (hq' : c'.Silent) : Hushed c c' := by
  cases he with
  | requeue h =>
    refine ⟨by rw [h.journal,h.quiet hq]; rfl,by rw [h.journal],?_,?_,hq'⟩
    · rw [h.control,h.quiet hq,List.append_nil]
    · rw [h.data]
      exact List.filter_sublist
  | append _ _ _ _ loud => exact absurd hq loud
  | discard hd hk hj =>
    exact ⟨by rw [hj],by rw [hj],hk ▸ List.nil_sublist _,hd ▸ List.nil_sublist _,hq'⟩

theorem hushed_abort (hq : c.Silent) (e : Failure) : Hushed c (c.abort e) := by
  by_cases hp : c.phase = .closed
  · rw [abort,if_pos hp]
    exact ⟨rfl,rfl,.refl _,.refl _,hq⟩
  · exact (enters_abort e hp).hushed hq (.inl (abort_phase c e))

theorem Move.hushed (hm : Move c c') (h : c.Sound) (hq : c.Silent) : Hushed c c' :=
  (hm.enters h).hushed hq (hq.imp hm.wears.phase.closed (hm.pursues h).shutdownWrites)

theorem Take.hushed (ht : Take f c c') (h : c.Sound) (hq : c.Silent) : Hushed c c' := by
  refine (ht.enters h).hushed hq (hq.imp ht.wears.phase.closed fun hw => ?_)
  rcases ht.frame.2 with ⟨-,hf⟩ | ⟨-,-,_,hf⟩ <;> exact (congrArg (·.2.1) hf).trans hw

/-- Nothing is queued any more once the writer is to shut down, or the connection is closed. -/
theorem Deed.hushed (hd : Deed meant c c') (h : c.Sound) (hq : c.Silent) : Hushed c c' := by
  have hrefl : Hushed c c := ⟨rfl,rfl,.refl _,.refl _,hq⟩
  cases hd with
  | move hm => exact hm.hushed h hq
  | start hs =>
    obtain ⟨-,-,-,hp,-⟩ := hs
    exact absurd hp (h.silent_not_active hq)
  | @take _ f size _ _ ht =>
    have hh := ht.hushed (h.hear f size) hq
    exact { hh with }
  | @breach _ v f size _ hb =>
    have hh := hushed_abort (c := c.hear f size) hq (.protocolViolation v)
    rw [hb.unchanged (h.silent_not_active hq)]
    exact { hh with }
  | abort e => exact hushed_abort hq e
  | ship hb =>
    obtain ⟨_,-,rfl⟩ := takeBatch_spec hb
    exact ⟨rfl,rfl,List.drop_sublist _ _,List.drop_sublist _ _,hq⟩
  | establish peer _ hp =>
    rcases hq with hx | hx
    · cases hp.symm.trans hx
    · rcases h.shut hx with hx | hx <;> rw [hp] at hx <;> cases hx
  | endReads | shutOff => exact ⟨rfl,rfl,.refl _,.refl _,hq⟩

theorem Deeds.hushed (hd : Deeds meant c c') (h : c.Sound) (hn : c'.Numbered) (hq : c.Silent) :
    Hushed c c' :=
  hd.keep (fun _ _ hstep hs _ hh => hh.trans (hstep.hushed hs hh.silent)) h hn
    ⟨rfl,rfl,.refl _,.refl _,hq⟩

/-- How far a connection is with a graceful close. -/
structure Drained (c : Connection) : Prop where
  answered : c.shutdownWrites = true → c.closeSent = true ∧ c.closeReceived.isSome
  shut : c.writesShut = true →
    c.shutdownWrites = true ∧ c.controlQueue = [] ∧ c.dataQueue = []
  done : c.phase = .closed → c.error = none → c.writesShut = true ∧ c.readEnded = true
  closes : c.journal.data.countP (·.frame.isClose) = c.closeSent.toNat
  heard : c.error = none → c.journal.heard.countP Frame.isClose = c.closeReceived.isSome.toNat

theorem drained_fresh (role : Role) (options : Options) (codes : CodeSpace) :
    (fresh role options codes).Drained := by
  constructor <;> simp [fresh]

namespace Drained

variable {size : Nat}

section

variable (h : c.Drained)

include h

/-- The flags stay, but for what a CLOSE of the peer changes. -/
theorem congr {closeReceived : Option UInt64} {phase : Phase}
    (hf : c'.flags = flags { c with closeReceived, phase })
    (hr : c.closeReceived.isSome → closeReceived.isSome) (hp : phase = .closed → c.phase = .closed)
    (hd : c'.journal.data.countP (·.frame.isClose) = c.journal.data.countP (·.frame.isClose))
    (hh : c.error = none → c'.journal.heard.countP Frame.isClose = closeReceived.isSome.toNat)
    (hq : c.writesShut = true → c'.controlQueue.Sublist c.controlQueue ∧
      c'.dataQueue.Sublist c.dataQueue) : c'.Drained := by
  simp only [flags,Prod.mk.injEq] at hf
  obtain ⟨⟨hphase,he⟩,hw,hs,hc,hreceived,hre⟩ := hf
  refine ⟨?_,?_,?_,?_,?_⟩
  · rw [hw,hc,hreceived]
    exact fun hx => (h.answered hx).imp_right hr
  · rw [hs,hw]
    intro hx
    obtain ⟨h₁,h₂,h₃⟩ := h.shut hx
    obtain ⟨hk,hd⟩ := hq hx
    rw [h₂] at hk
    rw [h₃] at hd
    exact ⟨h₁,List.sublist_nil.mp hk,List.sublist_nil.mp hd⟩
  · rw [hphase,he,hs,hre]
    exact fun hx => h.done (hp hx)
  · rw [hd,hc]
    exact h.closes
  · rw [he,hreceived]
    exact hh

theorem same (hf : c'.flags = c.flags)
    (hd : c'.journal.data.countP (·.frame.isClose) = c.journal.data.countP (·.frame.isClose))
    (hh : c'.journal.heard.countP Frame.isClose = c.journal.heard.countP Frame.isClose)
    (hq : c.writesShut = true → c'.controlQueue.Sublist c.controlQueue ∧
      c'.dataQueue.Sublist c.dataQueue) : c'.Drained :=
  h.congr hf id id hd (fun he => hh.trans (h.heard he)) hq

theorem silent (hs : c.writesShut = true) : c.Silent := .inr (h.shut hs).1

theorem hushed (hh : c.Silent → Hushed c c') (hs : c.writesShut = true) :
    c'.controlQueue.Sublist c.controlQueue ∧ c'.dataQueue.Sublist c.dataQueue :=
  ⟨(hh (h.silent hs)).controlQueue,(hh (h.silent hs)).dataQueue⟩

theorem abort (e : Failure) : (c.abort e).Drained := by
  by_cases hp : c.phase = .closed
  · rw [Connection.abort,if_pos hp]
    exact h
  · rw [abort_eq c e hp]
    exact ⟨h.answered,fun hs => ⟨(h.shut hs).1,rfl,rfl⟩,by simp,h.closes,by simp⟩

theorem move (hm : Move c c') (hs : c.Sound) : c'.Drained := by
  have hhushed := h.hushed (hm.hushed hs)
  cases hm with
  | note | add | spend | mark => exact h.same rfl rfl rfl hhushed
  | send =>
    refine h.same rfl ?_ rfl hhushed
    simp [append,Journal.noteData,Frame.isClose]
  | finish =>
    rw [release_eq] at hhushed ⊢
    refine h.same rfl ?_ rfl hhushed
    simp [append,Journal.noteData,Frame.isClose]
  | reset code wire =>
    obtain ⟨_,-,he⟩ := c.enqueueControl_cases (.reset _ wire)
    rw [release_eq,he] at hhushed ⊢
    exact h.same rfl rfl rfl hhushed
  | @tend i s s' update =>
    obtain ⟨_,-,he⟩ := enqueueControl?_cases { c with streams := c.streams.set i s' } update
    rw [he] at hhushed ⊢
    exact h.same rfl rfl rfl hhushed
  | @say f =>
    obtain ⟨_,-,he⟩ := c.enqueueControl_cases f
    rw [he] at hhushed ⊢
    exact h.same rfl rfl rfl hhushed
  | close code hc =>
    unfold enqueueClose
    split
    · exact h
    · rename_i hq
      have hloud : ¬c.Silent := by simpa [Silent] using hq
      refine ⟨fun hx => ⟨rfl,(h.answered hx).2⟩,fun hx => absurd (h.silent hx) hloud,h.done,?_,
        h.heard⟩
      have hone := h.closes
      rw [hc] at hone
      exact (List.countP_cons_of_pos rfl).trans (congrArg (· + 1) hone)
  | wane => exact { h with done := by simp }
  | shut hp ht said answered =>
    exact ⟨fun _ => ⟨said,answered⟩,fun hw => ⟨rfl,(h.shut hw).2⟩,h.done,h.closes,h.heard⟩
  | complete hp _ hw hr => exact { h with done := fun _ _ => ⟨hw,hr⟩ }
  | lose e =>
    rw [failStreams_eq] at hhushed ⊢
    exact h.same rfl rfl rfl hhushed
  | abort e => exact h.abort e

theorem moves (hm : Moves c c') (hs : c.Sound) : c'.Drained := by
  induction hm with
  | refl => exact h
  | tail hm hstep ih => exact ih.move hstep (Moves.sound hm hs)

theorem take (ht : Take f (c.hear f size) c') (hs : c.Sound) : c'.Drained := by
  have hs₁ := hs.hear f size
  have hhushed := h.hushed fun hq =>
    let hh := ht.hushed hs₁ hq
    ({ hh with } : Hushed c c')
  obtain ⟨u,keep,hq⟩ := ht.requeue hs₁
  rcases ht.frame.2 with ⟨hf,hflags⟩ | ⟨hf,hr,code,hflags⟩
  · refine h.same hflags (by rw [hq.journal]; rfl) ?_ hhushed
    rw [hq.journal]
    exact List.countP_cons_of_neg (by simp [hf])
  · refine h.congr hflags (fun _ => rfl) (fun hx => ?_) (by rw [hq.journal]; rfl) (fun he => ?_)
      hhushed
    · split at hx
      · cases hx
      · exact hx
    · have hnone := h.heard he
      rw [show c.closeReceived = none from hr] at hnone
      rw [hq.journal]
      exact (List.countP_cons_of_pos hf).trans (congrArg (· + 1) hnone)

/-- A frame that breaks a rule comes before the end of the input. -/
theorem breach {v : Violation} (reads : c.readEnded = false) (hb : Breach v f (c.hear f size) c') :
    (c'.abort (.protocolViolation v)).Drained := by
  by_cases hp : c.phase = .closed
  · obtain rfl := hb.unchanged (by simp [hear,hp])
    rw [show (c.hear f size).abort _ = c.hear f size from if_pos hp]
    refine { h with heard := fun he => ?_ }
    cases ((h.done hp he).2).symm.trans reads
  · obtain ⟨-,hflags,-,-,hd⟩ := hb.frame
    simp only [Connection.flags,Prod.mk.injEq] at hflags
    obtain ⟨⟨hp',-⟩,hw,hsh,hc,hr,-⟩ := hflags
    rw [abort_eq c' _ (by rw [hp']; exact hp)]
    refine ⟨?_,?_,by simp,?_,by simp⟩
    · dsimp only
      rw [hw,hc,hr]
      exact h.answered
    · dsimp only
      rw [hsh,hw]
      exact fun hx => ⟨(h.shut hx).1,rfl,rfl⟩
    · dsimp only
      rw [hd,hc]
      exact h.closes

end

end Drained

theorem Deed.drained (hd : Deed meant c c') (h : c.Drained) (hs : c.Sound) (hn : c'.Numbered) :
    c'.Drained := by
  cases hd with
  | move hm => exact h.move hm hs
  | start hst hm =>
    have hs₁ := hst.sound hs (hn.of_later (Moves.kept hm).later)
    refine Drained.moves ?_ hm hs₁
    cases hst
    exact h.same rfl rfl rfl fun _ => ⟨.refl _,.refl _⟩
  | take _ _ ht => exact h.take ht hs
  | breach reads hb => exact h.breach reads hb
  | endReads => exact { h with done := fun hp he => ⟨(h.done hp he).1,rfl⟩ }
  | shutOff hready =>
    simp only [readyToShut,queuesEmpty,Bool.and_eq_true,List.isEmpty_iff] at hready
    exact { h with
      shut := fun _ => ⟨hready.1.1,hready.2⟩
      done := fun hp he => ⟨rfl,(h.done hp he).2⟩ }
  | abort e => exact h.abort e
  | ship hb =>
    obtain ⟨_,-,rfl⟩ := takeBatch_spec hb
    exact h.same rfl rfl rfl fun _ => ⟨List.drop_sublist _ _,List.drop_sublist _ _⟩
  | establish peer _ hp => exact { h with done := by simp }

theorem Deeds.drained (hd : Deeds meant c c') (h : c.Drained) (hs : c.Sound) (hn : c'.Numbered) :
    c'.Drained :=
  hd.keep (fun _ _ hstep hs hn h => hstep.drained h hs hn) hs hn h

theorem Deed.taken (hd : Deed meant c c') (h : c.Drained) (hw : c.writesShut = true) :
    c'.journal.taken = c.journal.taken := by
  cases hd with
  | move hm => exact hm.kept.taken
  | start hs hm => exact (Moves.kept hm).taken.trans hs.withholds.taken
  | take _ _ ht => exact ht.kept.taken
  | breach _ hb => exact (hb.kept.trans (kept_abort _ _)).taken
  | abort e => exact (c.kept_abort e).taken
  | ship hb =>
    obtain ⟨-,hk,hd⟩ := h.shut hw
    simp [takeBatch,queuesEmpty,hk,hd] at hb
  | endReads | shutOff | establish => rfl

theorem Deed.shut (hd : Deed meant c c') (hw : c.writesShut = true) : c'.writesShut = true := by
  cases hd with
  | move hm => exact hm.kept.writesShut.trans hw
  | start hs hm => exact ((Moves.kept hm).writesShut.trans hs.withholds.writesShut).trans hw
  | take _ _ ht => exact ht.kept.writesShut.trans hw
  | breach _ hb => exact (hb.kept.trans (kept_abort _ _)).writesShut.trans hw
  | abort e => exact (c.kept_abort e).writesShut.trans hw
  | ship hb =>
    obtain ⟨_,-,rfl⟩ := takeBatch_spec hb
    exact hw
  | shutOff => rfl
  | endReads | establish => exact hw

theorem Deeds.shut (hd : Deeds meant c c') (hw : c.writesShut = true) : c'.writesShut = true := by
  induction hd with
  | refl => exact hw
  | tail _ hstep ih => exact hstep.shut ih

theorem Deeds.taken (hd : Deeds meant c c') (h : c.Drained) (hs : c.Sound) (hn : c'.Numbered)
    (hw : c.writesShut = true) : c'.journal.taken = c.journal.taken := by
  have hstep (x y : Connection) (hstep : Deed meant x y) (hs : x.Sound) (hn : y.Numbered)
      (h : x.Drained ∧ x.writesShut = true ∧ x.journal.taken = c.journal.taken) :
      y.Drained ∧ y.writesShut = true ∧ y.journal.taken = c.journal.taken :=
    ⟨hstep.drained h.1 hs hn,hstep.shut h.2.1,(hstep.taken h.1 h.2.1).trans h.2.2⟩
  exact (hd.keep hstep hs hn ⟨h,hw,rfl⟩).2.2

def Graceful (c : Connection) : Prop := c.phase = .closed ∧ c.error = none

section Graceful

variable {ks : List (Frame × Fate)} {ds : List (Outgoing × Fate)}

/-- What is counted among all entries is counted among those that were taken, if it is never found
in others. -/
theorem countP_taken {α : Type} {p : α → Bool} {fates : List (α × Fate)}
    (h : ∀ a x, (a, x) ∈ fates → x ≠ .taken → p a = false) :
    (Fate.taken.those fates).countP p = (fates.map Prod.fst).countP p := by
  induction fates with
  | nil => rfl
  | cons q fates ih =>
    obtain ⟨a,x⟩ := q
    have htail := ih fun b y hb => h b y (List.mem_cons_of_mem _ hb)
    rw [Fate.those_cons,List.map_cons,List.countP_cons,← htail]
    by_cases hx : x = .taken
    · rw [if_pos hx,List.countP_cons]
    · rw [if_neg hx,h a x List.mem_cons_self hx]
      simp

theorem Graceful.fates (hg : c.Graceful) (h : c.Drained) (ha : c.Account ks ds) :
    (∀ f x, (f, x) ∈ ks → x = .taken) ∧
      ∀ q x, (q, x) ∈ ds → x = .taken ∨ x = .purged ∧ c.TakenBack q := by
  obtain ⟨-,hk,hd⟩ := h.shut (h.done hg.1 hg.2).1
  have hlost : ¬c.Aborted := by
    rintro ⟨-,he⟩
    rw [hg.2] at he
    cases he
  constructor
  · intro f x hf
    cases x with
    | taken => rfl
    | waiting =>
      have hm := Fate.mem_those.mpr hf
      rw [ha.control.waiting,hk] at hm
      cases hm
    | purged => exact absurd hf (ha.unpurged f)
    | lost => exact absurd (ha.lost (.inl ⟨f,hf⟩)) hlost
  · intro q x hq
    cases x with
    | taken => exact .inl rfl
    | waiting =>
      have hm := Fate.mem_those.mpr hq
      rw [ha.data.waiting,hd] at hm
      cases hm
    | purged => exact .inr ⟨rfl,ha.purged q hq⟩
    | lost => exact absurd (ha.lost (.inr ⟨q,hq⟩)) hlost

theorem countP_wire (j : Journal) :
    j.wire.countP Frame.isClose = j.takenData.countP (·.frame.isClose) := by
  have hkind (f : Frame) : (f.isClose && decide ¬f.Overtakes) = f.isClose := by
    cases f <;> rfl
  rw [Journal.wire,Journal.takenData,List.countP_map,List.countP_filter]
  simp only [hkind]
  rfl

theorem Graceful.closes (hg : c.Graceful) (h : c.Drained) (ha : c.Account ks ds) :
    c.journal.wire.countP Frame.isClose = 1 ∧ c.journal.hearing.countP Frame.isClose = 1 := by
  obtain ⟨hw,hr⟩ := h.done hg.1 hg.2
  obtain ⟨hsent,hreceived⟩ := h.answered (h.shut hw).1
  constructor
  · have hfates : ∀ q x, (q, x) ∈ ds → x ≠ .taken → q.frame.isClose = false := by
      intro q x hq hx
      obtain ⟨-,_,_,-,-,hsome,hid,-⟩ := ((hg.fates h ha).2 q x hq).resolve_left hx
      rw [hid] at hsome
      obtain ⟨id,hid⟩ := Option.isSome_iff_exists.mp hsome
      exact Frame.isClose_of_streamId hid
    rw [countP_wire,← ha.data.taken,countP_taken hfates,ha.data.entered,List.countP_reverse,
      h.closes,hsent]
    rfl
  · rw [Journal.hearing,List.countP_reverse,h.heard hg.2,hreceived]
    rfl

end Graceful

end Multiplex.Connection
