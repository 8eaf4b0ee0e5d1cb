import Multiplex.Proofs.Conduct

/-!
What becomes of the frames that a connection queues: each of them waits, was taken by the writer,
was taken back with its stream, or was lost with the connection.
-/

namespace Multiplex

instance Frame.decidableOvertakes : DecidablePred Frame.Overtakes
  | .windowUpdate .. | .reset .. | .ping _ | .pong _ => .isTrue trivial
  | .stream .. | .settings _ | .close _ => .isFalse id

namespace Journal

/-- The frames that the writer took, in order. -/
def wire (j : Journal) : List Frame := j.taken.reverse.map (·.frame)

/-- The frames of the peer that were handled, in order. -/
def hearing (j : Journal) : List Frame := j.heard.reverse

/-- Those that the writer took ahead of data. -/
def takenControl (j : Journal) : List Frame := j.wire.filter (·.Overtakes)

/-- Those that the writer took behind data, with the streams that sent them. -/
def takenData (j : Journal) : List Outgoing := j.taken.reverse.filter fun q => ¬q.frame.Overtakes

theorem wire_noteTaken (j : Journal) (qs : List Outgoing) :
    (j.noteTaken qs).wire = j.wire ++ qs.map (·.frame) := by
  simp [wire,noteTaken,List.reverseAux_eq]

theorem hearing_noteHeard (j : Journal) (f : Frame) :
    (j.noteHeard f).hearing = j.hearing ++ [f] := by
  simp [hearing,noteHeard]

theorem takenControl_noteTaken (j : Journal) (qs : List Outgoing) :
    (j.noteTaken qs).takenControl = j.takenControl ++ (qs.map (·.frame)).filter (·.Overtakes) := by
  rw [takenControl,wire_noteTaken,List.filter_append]
  rfl

theorem takenData_noteTaken (j : Journal) (qs : List Outgoing) :
    (j.noteTaken qs).takenData = j.takenData ++ qs.filter fun q => ¬q.frame.Overtakes := by
  simp [takenData,noteTaken,List.reverseAux_eq]

end Journal

/-- What became of a frame that was queued. -/
inductive Fate
  | waiting
  | taken
  /-- Taken back when its stream was reset. -/
  | purged
  /-- Lost when the connection was given up. -/
  | lost
  deriving DecidableEq, Repr

namespace Fate

variable {α : Type}

def those (fate : Fate) (fates : List (α × Fate)) : List α :=
  (fates.filter fun p => p.2 = fate).map Prod.fst

@[simp]
theorem those_nil (fate : Fate) : fate.those ([] : List (α × Fate)) = [] := rfl

@[simp]
theorem those_append (fate : Fate) (ps qs : List (α × Fate)) :
    fate.those (ps ++ qs) = fate.those ps ++ fate.those qs := by
  simp [those]

theorem those_cons (fate : Fate) (a : α) (x : Fate) (ps : List (α × Fate)) :
    fate.those ((a, x) :: ps) = if x = fate then a :: fate.those ps else fate.those ps := by
  by_cases h : x = fate <;> simp [those,h]

theorem mem_those {fate : Fate} {a : α} {ps : List (α × Fate)} :
    a ∈ fate.those ps ↔ (a, fate) ∈ ps := by
  simp [those]

def advance : Nat → List (α × Fate) → List (α × Fate)
  | _, [] => []
  | 0, ps => ps
  | n + 1, (a, .waiting) :: ps => (a, .taken) :: advance n ps
  | n + 1, p :: ps => p :: advance (n + 1) ps

/-- The entries that wait and are not to be kept meet another fate. -/
def withdraw (fate : Fate) (keep : α → Bool) (ps : List (α × Fate)) : List (α × Fate) :=
  ps.map fun (a, x) => (a, if x = .waiting ∧ keep a = false then fate else x)

section Withdraw

variable {fate : Fate} (hw : fate ≠ .waiting) (ht : fate ≠ .taken) (keep : α → Bool)

include ht in
theorem taken_those_withdraw (ps : List (α × Fate)) :
    taken.those (withdraw fate keep ps) = taken.those ps := by
  induction ps with
  | nil => rfl
  | cons p ps ih =>
    obtain ⟨a,x⟩ := p
    have hx : (if x = waiting ∧ keep a = false then fate else x) = taken ↔ x = taken := by
      split
      · rename_i h
        simp [h.1,ht]
      · rfl
    simp only [withdraw,List.map_cons,those_cons,hx]
    rw [show List.map _ ps = withdraw fate keep ps from rfl,ih]

include hw in
theorem waiting_those_withdraw (ps : List (α × Fate)) :
    waiting.those (withdraw fate keep ps) = (waiting.those ps).filter keep := by
  induction ps with
  | nil => rfl
  | cons p ps ih =>
    obtain ⟨a,x⟩ := p
    simp only [withdraw,List.map_cons,those_cons]
    rw [show List.map _ ps = withdraw fate keep ps from rfl,ih]
    by_cases hx : x = waiting
    · cases hk : keep a <;> simp [hx,hk,hw]
    · simp [hx]

omit hw ht in
theorem mem_withdraw {ps : List (α × Fate)} {a : α} {x : Fate}
    (h : (a, x) ∈ withdraw fate keep ps) :
    (a, x) ∈ ps ∨ x = fate ∧ (a, waiting) ∈ ps ∧ keep a = false := by
  obtain ⟨⟨b,y⟩,hm,he⟩ := List.mem_map.mp h
  dsimp only at he
  split at he
  · rename_i hy
    cases he
    exact .inr ⟨rfl,hy.1 ▸ hm,hy.2⟩
  · cases he
    exact .inl hm

end Withdraw

section Advance

variable {ps : List (α × Fate)}

theorem fst_advance (n : Nat) (ps : List (α × Fate)) :
    (advance n ps).map Prod.fst = ps.map Prod.fst := by
  fun_induction advance n ps with
  | case1 | case2 => rfl
  | case3 n a ps ih => simp [ih]
  | case4 n p ps _ ih => simp [ih]

theorem waiting_those_advance (n : Nat) (ps : List (α × Fate)) :
    waiting.those (advance n ps) = (waiting.those ps).drop n := by
  fun_induction advance n ps with
  | case1 => simp
  | case2 => rfl
  | case3 n a ps ih => simp [those_cons,ih]
  | case4 n p ps hx ih =>
    obtain ⟨a,x⟩ := p
    have hne : x ≠ waiting := fun he => hx a (by rw [he])
    simp [those_cons,hne,ih]

/-- Nothing that was taken came in after what waits. -/
theorem taken_those_advance (n : Nat) (ps : List (α × Fate))
    (h : ps.Pairwise fun p q => p.2 = waiting → q.2 ≠ taken) :
    taken.those (advance n ps) = taken.those ps ++ (waiting.those ps).take n := by
  fun_induction advance n ps with
  | case1 | case2 => simp
  | case3 n a ps ih =>
    obtain ⟨hhead,htail⟩ := List.pairwise_cons.mp h
    have hnone : taken.those ps = [] := by
      refine List.eq_nil_iff_forall_not_mem.mpr fun b hb => ?_
      exact hhead _ (mem_those.mp hb) rfl rfl
    simp [those_cons,ih htail,hnone]
  | case4 n p ps hx ih =>
    obtain ⟨a,x⟩ := p
    have hne : x ≠ waiting := fun he => hx a (by rw [he])
    have htail := (List.pairwise_cons.mp h).2
    by_cases hy : x = taken <;> simp [those_cons,hne,hy,ih htail]

theorem mem_advance {n : Nat} {ps : List (α × Fate)} {a : α} {x : Fate} (h : (a, x) ∈ advance n ps)
    (hx : x ≠ taken) : (a, x) ∈ ps := by
  fun_induction advance n ps with
  | case1 => cases h
  | case2 => exact h
  | case3 n b ps ih =>
    rcases List.mem_cons.mp h with h | h
    · exact absurd (congrArg Prod.snd h) hx
    · exact List.mem_cons_of_mem _ (ih h)
  | case4 n q ps _ ih =>
    rcases List.mem_cons.mp h with rfl | h
    · exact List.mem_cons_self
    · exact List.mem_cons_of_mem _ (ih h)

theorem fair_advance (n : Nat) (ps : List (α × Fate))
    (h : ps.Pairwise fun p q => p.2 = waiting → q.2 ≠ taken) :
    (advance n ps).Pairwise fun p q => p.2 = waiting → q.2 ≠ taken := by
  fun_induction advance n ps with
  | case1 => exact .nil
  | case2 => exact h
  | case3 n a ps ih =>
    exact List.pairwise_cons.mpr ⟨by simp,ih (List.pairwise_cons.mp h).2⟩
  | case4 n p ps hx ih =>
    refine List.pairwise_cons.mpr ⟨fun q _ hp => ?_,ih (List.pairwise_cons.mp h).2⟩
    exact (hx p.1 (Prod.ext rfl hp)).elim

end Advance

end Fate

/-- What became of each entry of a queue, in the order of entry. Those that were taken went before
those that wait. -/
structure Accounts {α : Type} (fates : List (α × Fate)) (entered taken waiting : List α) :
    Prop where
  entered : fates.map Prod.fst = entered
  taken : Fate.taken.those fates = taken
  waiting : Fate.waiting.those fates = waiting
  fair : fates.Pairwise fun p q => p.2 = .waiting → q.2 ≠ .taken

namespace Accounts

variable {α : Type} {fates : List (α × Fate)} {entered taken waiting : List α}

theorem initial : Accounts ([] : List (α × Fate)) [] [] [] := ⟨rfl,rfl,rfl,.nil⟩

section

variable (h : Accounts fates entered taken waiting)

include h

theorem enter (as : List α) :
    Accounts (fates ++ as.map (·, .waiting)) (entered ++ as) taken (waiting ++ as) := by
  have hw : Fate.waiting.those (as.map fun a => (a, Fate.waiting)) = as := by
    simp [Fate.those,List.filter_map,Function.comp_def]
  have ht : Fate.taken.those (as.map fun a => (a, Fate.waiting)) = [] := by
    simp [Fate.those,List.filter_map,Function.comp_def]
  refine ⟨?_,?_,?_,?_⟩
  · simp [h.entered,Function.comp_def]
  · rw [Fate.those_append,h.taken,ht,List.append_nil]
  · rw [Fate.those_append,h.waiting,hw]
  · refine List.pairwise_append.mpr ⟨h.fair,?_,?_⟩
    · exact List.pairwise_map.mpr (List.pairwise_of_forall (by simp))
    · simp

theorem withdraw (fate : Fate) (hw : fate ≠ .waiting) (ht : fate ≠ .taken) (keep : α → Bool) :
    Accounts (Fate.withdraw fate keep fates) entered taken (waiting.filter keep) := by
  refine ⟨?_,?_,?_,?_⟩
  · rw [← h.entered]
    simp [Fate.withdraw,Function.comp_def]
  · rw [Fate.taken_those_withdraw ht,h.taken]
  · rw [Fate.waiting_those_withdraw hw,h.waiting]
  · refine List.pairwise_map.mpr (h.fair.imp fun {p q} hpq hp => ?_)
    obtain ⟨a,x⟩ := p
    obtain ⟨b,y⟩ := q
    dsimp only at hp ⊢
    split at hp
    · exact absurd hp hw
    · split
      · exact ht
      · exact hpq hp

theorem advance (n : Nat) :
    Accounts (Fate.advance n fates) entered (taken ++ waiting.take n) (waiting.drop n) := by
  refine ⟨?_,?_,?_,Fate.fair_advance n fates h.fair⟩
  · rw [Fate.fst_advance,h.entered]
  · rw [Fate.taken_those_advance n fates h.fair,h.taken,h.waiting]
  · rw [Fate.waiting_those_advance,h.waiting]

end

end Accounts

namespace Connection

/-- Whether a frame belongs to a stream that was reset. -/
def TakenBack (c : Connection) (q : Outgoing) : Prop :=
  ∃ (i : Nat) (s : Stream), q.owner = some i ∧ c.streams[i]? = some s ∧ s.id.isSome ∧
    s.id = q.frame.streamId ∧ s.resetCode.isSome

theorem TakenBack.lasts {c c' : Connection} {q : Outgoing} (h : c.TakenBack q) (hl : Lasts c c') :
    c'.TakenBack q := by
  obtain ⟨i,s,ho,hi,hsome,hid,hr⟩ := h
  obtain ⟨s',hi',hg⟩ := hl i s hi hsome
  exact ⟨i,s',ho,hi',by rw [hg.id]; exact hsome,hg.id.trans hid,hg.reset hr⟩

def Aborted (c : Connection) : Prop := c.phase = .closed ∧ c.error.isSome

/-- Whether nothing is queued any more. -/
def Silent (c : Connection) : Prop := c.phase = .closed ∨ c.shutdownWrites = true

/-- Control frames `u` come in, and the data that is not to be kept is taken back: all data of
streams that are reset, as `u` says or as the frame says that was heard. -/
structure Requeues (heard : Option Frame) (c c' : Connection) (u : List Frame)
    (keep : Frame → Bool) :
    Prop where
  overtakes : ∀ g ∈ u, g.Overtakes
  control : c'.controlQueue = c.controlQueue ++ u
  data : c'.dataQueue = c.dataQueue.filter fun q => keep q.frame
  quiet : c.Silent → u = []
  journal : c'.journal = { c.journal with control := u.reverse ++ c.journal.control }
  reset : ∀ g, keep g = false → ∃ id code, g.streamId = some id ∧
    (.reset id code ∈ u ∨ heard = some (.reset id code)) ∧
    (∀ g', g'.streamId = some id → keep g' = false) ∧
    ∃ (i : Nat) (s : Stream), c'.streams[i]? = some s ∧ s.id = some id ∧ s.resetCode.isSome
  takenBack : ∀ q ∈ c.dataQueue, keep q.frame = false → c'.TakenBack q

/-- What happens to the queues, and what the journal says of it. -/
inductive Enters (heard : Option Frame) (c c' : Connection) : Prop
  | requeue {u : List Frame} {keep : Frame → Bool} (h : Requeues heard c c' u keep)
  | append {f : Frame} (owner : Option Nat) (data : c'.dataQueue = c.dataQueue ++ [⟨f, owner⟩])
      (control : c'.controlQueue = c.controlQueue)
      (journal : c'.journal = c.journal.noteData ⟨f, owner⟩)
      (loud : ¬c.Silent)
      (queued : (∃ code, f = .close code ∧ c.closeSent = false ∧ c'.closeSent = true) ∨
        ∃ id fin data, ∃ (i : Nat) (s : Stream), f = .stream id fin data ∧ c.streams[i]? = some s ∧
          s.id = some id ∧ s.writeError = none ∧ data.length ≤ s.credit.available.toNat ∧
          data.length ≤ c.peer.maxFrame.toNat)
  | discard (data : c'.dataQueue = []) (control : c'.controlQueue = [])
      (journal : c'.journal = c.journal) (aborted : c'.Aborted)

section Enters

variable {c c' : Connection} {i : Nat} {s : Stream} {b : Batch} {heard : Option Frame}
    {u : List Frame}
  {keep : Frame → Bool}

namespace Requeues

theorem of_insert (hu : ∀ g ∈ u, g.Overtakes) (hk : c'.controlQueue = c.controlQueue ++ u)
    (hd : c'.dataQueue = c.dataQueue) (hq : c.Silent → u = [])
    (hj : c'.journal = { c.journal with control := u.reverse ++ c.journal.control }) :
    Requeues heard c c' u fun _ => true :=
  ⟨hu,hk,by simp [hd],hq,hj,by simp,by simp⟩

theorem of_eq (hk : c'.controlQueue = c.controlQueue) (hd : c'.dataQueue = c.dataQueue)
    (hj : c'.journal = c.journal) : Requeues heard c c' [] fun _ => true :=
  .of_insert (by simp) (by simp [hk]) hd (fun _ => rfl) (by simp [hj])

theorem frames (h : Requeues heard c c' u keep) :
    c'.dataQueue.map (·.frame) = (c.dataQueue.map (·.frame)).filter keep := by
  rw [h.data,List.filter_map]
  rfl

theorem no_stream (h : Requeues heard c c' u keep) (id : StreamId) (fin : Bool) (data : Bytes) :
    .stream id fin data ∉ u :=
  fun hx => (h.overtakes _ hx).elim

end Requeues

theorem Enters.of_eq (hk : c'.controlQueue = c.controlQueue) (hd : c'.dataQueue = c.dataQueue)
    (hj : c'.journal = c.journal) : Enters heard c c' :=
  .requeue (.of_eq hk hd hj)

theorem Enters.passage (h : Enters heard c c') :
    c'.journal.taken = c.journal.taken ∧ c'.journal.heard = c.journal.heard := by
  cases h with
  | requeue h => rw [h.journal]; exact ⟨rfl,rfl⟩
  | append _ _ _ journal => rw [journal]; exact ⟨rfl,rfl⟩
  | discard _ _ journal => rw [journal]; exact ⟨rfl,rfl⟩

theorem enqueueControl_cases (c : Connection) (f : Frame) :
    ∃ u, (u = [] ∨ u = [f]) ∧ c.enqueueControl f = { c with
      controlQueue := c.controlQueue ++ u
      journal := { c.journal with control := u.reverse ++ c.journal.control } } := by
  unfold enqueueControl
  split
  · exact ⟨[],.inl rfl,by simp⟩
  · exact ⟨[f],.inr rfl,rfl⟩

theorem enqueueControl?_cases (c : Connection) (f : Option Frame) :
    ∃ u, (∀ g ∈ u, f = some g) ∧ c.enqueueControl? f = { c with
      controlQueue := c.controlQueue ++ u
      journal := { c.journal with control := u.reverse ++ c.journal.control } } := by
  cases f with
  | none => exact ⟨[],by simp,by simp [enqueueControl?]⟩
  | some f =>
    obtain ⟨u,hu,he⟩ := c.enqueueControl_cases f
    refine ⟨u,?_,he⟩
    rcases hu with rfl | rfl <;> simp

theorem enqueueControl_of_silent (hq : c.Silent) (f : Frame) : c.enqueueControl f = c := by
  unfold enqueueControl
  rw [if_pos (by simpa [Silent] using hq)]

theorem enqueueControl?_of_silent (hq : c.Silent) (f : Option Frame) : c.enqueueControl? f = c := by
  cases f with
  | none => rfl
  | some f => exact enqueueControl_of_silent hq f

theorem Sound.not_writable (h : c.Sound) (hq : c.Silent) {s : Stream} {id : StreamId}
    (hi : c.streams[i]? = some s) (hid : s.id = some id) : s.writeError ≠ none := by
  intro hw
  have hm : (id, i) ∈ c.table := h.iff.mpr ⟨s,hi,hid,(h.held hi hid).sound.live hw⟩
  rw [h.still hq] at hm
  cases hm

theorem requeues_control (heard : Option Frame) (c : Connection) (f : Option Frame)
    (hf : ∀ g ∈ f, g.Overtakes) : ∃ u, Requeues heard c (c.enqueueControl? f) u fun _ => true := by
  obtain ⟨u,hu,he⟩ := c.enqueueControl?_cases f
  have hquiet (hq : c.Silent) : u = [] := by
    simpa using congrArg controlQueue (he.symm.trans (enqueueControl?_of_silent hq f))
  rw [he]
  exact ⟨u,.of_insert (fun g hg => hf g (hu g hg)) rfl rfl hquiet rfl⟩

/-- A stream in use is reset. -/
theorem Sound.requeues {x : Connection} {id : StreamId} {code : UInt64} {s' : Stream} (h : c.Sound)
    (hi : c.streams[i]? = some s) (hid : s.id = some id) (hl : s.released = false)
    (hx : x.streams = c.streams.set i s') (hid' : s'.id = s.id) (hl' : s'.released = s.released)
    (hr : s'.resetCode.isSome) (hu : ∀ g ∈ u, g.Overtakes)
    (hk : x.controlQueue = c.controlQueue ++ u)
    (hd : x.dataQueue = c.dataQueue.filter fun q => q.owner ≠ some i) (hq : c.Silent → u = [])
    (hj : x.journal = { c.journal with control := u.reverse ++ c.journal.control })
    (hwhy : .reset id code ∈ u ∨ heard = some (.reset id code)) :
    Requeues heard c (x.release i) u fun g => g.streamId ≠ some id := by
  have hi' : (x.release i).streams[i]? = some s'.settle := by
    rw [streams_release hi hx (hid'.trans hid) (hl'.trans hl),getElem?_set_of hi,if_pos rfl]
  have hid'' : s'.settle.id = some id := s'.settle_id.trans (hid'.trans hid)
  have hr' : s'.settle.resetCode.isSome := by rwa [Stream.settle_agrees]
  rw [h.purge hi hid] at hd
  refine ⟨hu,by rwa [release_eq],by rwa [release_eq],hq,by rwa [release_eq],fun g hg => ?_,
    fun q hq hkeep => ?_⟩
  · exact ⟨id,code,by simpa using hg,hwhy,by simp,i,s'.settle,hi',hid'',hr'⟩
  · have hf : q.frame.streamId = some id := by simpa using hkeep
    exact ⟨i,s'.settle,(h.owner_iff hi hid hq).mpr hf,hi',by simp [hid''],hid''.trans hf.symm,hr'⟩

theorem enters_abort (e : Failure) (hp : c.phase ≠ .closed) : Enters none c (c.abort e) := by
  rw [abort_eq c e hp]
  exact .discard rfl rfl rfl ⟨rfl,rfl⟩

theorem Move.enters (hm : Move c c') (h : c.Sound) : Enters none c c' := by
  cases hm with
  | note | add | spend | mark | wane | shut | complete => exact .of_eq rfl rfl rfl
  | @tend i s s' update hi ht =>
    obtain ⟨u,hq⟩ := requeues_control none { c with streams := c.streams.set i s' } update
      fun g hg => by obtain ⟨_,_,-,rfl⟩ := ht.announced g hg; trivial
    exact .requeue { hq with }
  | @send i s id data hi hid hw hp credit size =>
    exact .append (some i) rfl rfl rfl (fun hq => h.not_writable hq hi hid hw)
      (.inr ⟨id,false,data,i,s,rfl,hi,hid,hw,credit,size⟩)
  | @finish i s id hi hid hw =>
    rw [release_eq]
    exact .append (some i) rfl rfl rfl (fun hq => h.not_writable hq hi hid hw)
      (.inr ⟨id,true,[],i,s,rfl,hi,hid,hw,Nat.zero_le _,Nat.zero_le _⟩)
  | @reset i s id code wire hi hid hl =>
    obtain ⟨hp,hw⟩ := h.not_closed hi hid hl
    exact .requeue (h.requeues (u := [.reset id wire]) hi hid hl rfl rfl rfl
      (by simp [Stream.markReset]) (by simp [Frame.Overtakes]) (by simp [enqueueControl,hp,hw]) rfl
      (by simp [Silent,hp,hw]) (by simp [enqueueControl,hp,hw,Journal.noteControl])
      (.inl List.mem_cons_self))
  | @say f hf =>
    obtain ⟨u,hq⟩ := requeues_control none c (some f)
      (by rcases hf with ⟨_,rfl⟩ | ⟨_,rfl⟩ <;> simp [Frame.Overtakes])
    exact .requeue hq
  | close code said =>
    unfold enqueueClose
    split
    · exact .of_eq rfl rfl rfl
    · rename_i hq
      exact .append none rfl rfl rfl (by simpa [Silent] using hq) (.inl ⟨_,rfl,said,rfl⟩)
  | lose e =>
    rw [failStreams_eq]
    exact .of_eq rfl rfl rfl
  | abort e hp => exact enters_abort e hp

theorem Take.requeue {f : Frame} (ht : Take f c c') (h : c.Sound) :
    ∃ u keep, Requeues (some f) c c' u keep := by
  induction ht with
  | @data c i s id fin data w hf hi =>
    obtain ⟨u,hq⟩ := requeues_control (some (.stream id fin data)) c (s.afterData w fin data).1
      fun g hg => by obtain ⟨_,_,-,rfl⟩ := Stream.afterData_announced s w fin data g hg; trivial
    refine ⟨u,fun _ => true,?_⟩
    split
    · rw [release_eq]
      exact { hq with reset := by simp, takenBack := by simp }
    · exact { hq with reset := by simp, takenBack := by simp }
  | @reset c i s id wire code unwritten changes hf hi =>
    obtain ⟨hid,hl⟩ := h.found hf hi
    exact ⟨[],_,
      h.requeues hi hid hl rfl rfl rfl (by simp [Stream.markReset]) (by simp) (by simp) rfl
      (fun _ => rfl) (by simp) (.inr rfl)⟩
  | @refuse c id fin data new hp =>
    obtain ⟨u,hq⟩ := requeues_control (some (.stream id fin data)) (c.reached id)
      (some (.reset id (c.codes.toWire (c.codes.resetCode .refused)))) (by simp [Frame.Overtakes])
    exact ⟨u,fun _ => true,{ hq with }⟩
  | surface metrics changes hs _ ih =>
    obtain ⟨u,keep,hq⟩ := ih (h.surface hs metrics changes)
    exact ⟨u,keep,{ hq with }⟩
  | grant | drop | pass | idle | close => exact ⟨[],_,.of_eq rfl rfl rfl⟩
  | stray _ _ hf hi => exact absurd hi (h.no_stray hf)

theorem Take.enters {f : Frame} (ht : Take f c c') (h : c.Sound) : Enters (some f) c c' := by
  obtain ⟨u,keep,hq⟩ := ht.requeue h
  exact .requeue hq

/-- What a move goes on with. Streams come up only while the connection is active. -/
structure Pursues (c c' : Connection) : Prop where
  streams : c'.streams ≠ [] → c.phase = .active ∨ c.streams ≠ []
  closeReceived : c'.closeReceived = c.closeReceived
  closeSent : c.closeSent = true → c'.closeSent = true
  shutdownWrites : c.shutdownWrites = true → c'.shutdownWrites = true

theorem Fell.ne_nil (h : Fell c.streams c'.streams) (hx : c'.streams ≠ []) : c.streams ≠ [] := by
  intro he
  refine hx (List.eq_nil_iff_forall_not_mem.mpr fun s hs => ?_)
  obtain ⟨i,hi⟩ := List.mem_iff_getElem?.mp hs
  rw [(h i).1 (by simp [he])] at hi
  cases hi

theorem Sound.pursues_abort (h : c.Sound) (e : Failure) (hp : c.phase ≠ .closed) :
    Pursues c (c.abort e) := by
  refine ⟨fun hx => .inr ((h.fell_abort e hp).ne_nil hx),?_,?_,?_⟩ <;>
    rw [abort_eq c e hp] <;>
    exact id

theorem Move.pursues (hm : Move c c') (h : c.Sound) : Pursues c c' := by
  have hsome {i : Nat} {s : Stream} (hi : c.streams[i]? = some s) {P : Prop} (_ : P) :
      c.phase = .active ∨ c.streams ≠ [] := .inr (List.ne_nil_of_mem (List.mem_of_getElem? hi))
  cases hm with
  | add d hp => exact ⟨fun _ => .inl hp,rfl,id,id⟩
  | tend hi =>
    rw [enqueueControl?_eq]
    exact ⟨hsome hi,rfl,id,id⟩
  | send hi => exact ⟨hsome hi,rfl,id,id⟩
  | spend _ hi => exact ⟨hsome hi,rfl,id,id⟩
  | finish hi =>
    rw [release_eq]
    exact ⟨hsome hi,rfl,id,id⟩
  | reset _ _ hi =>
    rw [release_eq,enqueueControl_eq]
    exact ⟨hsome hi,rfl,id,id⟩
  | mark _ hi => exact ⟨hsome hi,rfl,id,id⟩
  | say =>
    rw [enqueueControl_eq]
    exact ⟨.inr,rfl,id,id⟩
  | close =>
    unfold enqueueClose
    split
    · exact ⟨.inr,rfl,id,id⟩
    · exact ⟨.inr,rfl,fun _ => rfl,id⟩
  | shut => exact ⟨.inr,rfl,id,fun _ => rfl⟩
  | note | wane | complete => exact ⟨.inr,rfl,id,id⟩
  | lose e =>
    refine ⟨fun hx => .inr ((h.toTabled.fell_failStreams e).ne_nil hx),?_,?_,?_⟩ <;>
      rw [failStreams_eq] <;> exact id
  | abort e hp => exact h.pursues_abort e hp

theorem takeBatch_spec (hb : c.takeBatch = (some b, c')) :
    ∃ n, b.frames = (c.controlQueue.take n).map (⟨·, none⟩) ++
        c.dataQueue.take (n - c.controlQueue.length) ∧
      c' = { c with
        controlQueue := c.controlQueue.drop n
        dataQueue := c.dataQueue.drop (n - c.controlQueue.length)
        journal := c.journal.noteTaken b.frames } := by
  unfold takeBatch at hb
  split at hb
  · cases hb
  · cases hb
    refine ⟨_,?_,rfl⟩
    simp [Batch.ofFrames,queued,List.take_append]

theorem takeBatch_bytes (hb : c.takeBatch = (some b, c')) :
    b.bytes = (b.frames.map (·.frame)).flatMap Frame.encode := by
  unfold takeBatch at hb
  split at hb
  · cases hb
  · cases hb
    simp only [Batch.ofFrames,List.flatMap_map]

end Enters

/-- What became of all that was queued: of control frames, `ks`, and of data, `ds`. -/
structure Account (c : Connection) (ks : List (Frame × Fate)) (ds : List (Outgoing × Fate)) :
    Prop where
  control : Accounts ks c.journal.control.reverse c.journal.takenControl c.controlQueue
  data : Accounts ds c.journal.data.reverse c.journal.takenData c.dataQueue
  unpurged : ∀ f, (f, .purged) ∉ ks
  purged : ∀ q, (q, .purged) ∈ ds → c.TakenBack q
  lost : (∃ f, (f, .lost) ∈ ks) ∨ (∃ q, (q, .lost) ∈ ds) → c.Aborted

/-- Every frame that was queued can be accounted for. -/
def Accounted (c : Connection) : Prop := ∃ ks ds, c.Account ks ds

section Account

variable {c c' : Connection} {ks : List (Frame × Fate)} {ds : List (Outgoing × Fate)} {b : Batch}
  {meant : Prop} {heard : Option Frame}

theorem Account.enters (h : c.Account ks ds) (he : Enters heard c c') (hl : Lasts c c')
    (haborted : c.Aborted → c'.Aborted) : c'.Accounted := by
  cases he with
  | @requeue u keep hq =>
    refine ⟨ks ++ u.map (·, .waiting),Fate.withdraw .purged (fun q => keep q.frame) ds,?_,?_,?_,
      ?_,?_⟩
    · rw [hq.control,hq.journal]
      rw [List.reverse_append,List.reverse_reverse]
      exact h.control.enter u
    · rw [hq.data,hq.journal]
      exact h.data.withdraw .purged (by simp) (by simp) _
    · intro f hf
      rcases List.mem_append.mp hf with hf | hf
      · exact h.unpurged f hf
      · simp at hf
    · intro q hm
      rcases Fate.mem_withdraw _ hm with hm | ⟨-,hm,hkeep⟩
      · exact (h.purged q hm).lasts hl
      · refine hq.takenBack q ?_ hkeep
        rw [← h.data.waiting]
        exact Fate.mem_those.mpr hm
    · intro hx
      refine haborted (h.lost ?_)
      rcases hx with ⟨f,hf⟩ | ⟨q,hm⟩
      · exact .inl ⟨f,by simpa using hf⟩
      · rcases Fate.mem_withdraw _ hm with hm | ⟨hx,-⟩
        · exact .inr ⟨q,hm⟩
        · cases hx
  | @append f owner hd hk hj =>
    refine ⟨ks,ds ++ [⟨f,owner⟩].map (·, .waiting),?_,?_,h.unpurged,?_,?_⟩
    · rw [hk,hj]
      exact h.control
    · rw [hd,hj]
      have hq := h.data.enter [⟨f,owner⟩]
      rwa [← List.reverse_cons] at hq
    · intro p hp
      refine TakenBack.lasts (h.purged p ?_) hl
      simpa using hp
    · intro hx
      refine haborted (h.lost ?_)
      simpa using hx
  | discard hd hk hj haborted =>
    refine ⟨Fate.withdraw .lost (fun _ => false) ks,Fate.withdraw .lost (fun _ => false) ds,
      ?_,?_,?_,?_,fun _ => haborted⟩
    · rw [hk,hj]
      simpa using h.control.withdraw .lost (by simp) (by simp) fun _ => false
    · rw [hd,hj]
      simpa using h.data.withdraw .lost (by simp) (by simp) fun _ => false
    · intro f hf
      rcases Fate.mem_withdraw _ hf with hf | ⟨hx,-⟩
      · exact h.unpurged f hf
      · cases hx
    · intro q hq
      rcases Fate.mem_withdraw _ hq with hq | ⟨hx,-⟩
      · exact (h.purged q hq).lasts hl
      · cases hx

/-- What a batch holds: what waited longest of the control frames, then of the data. -/
theorem Sound.batch (hs : c.Sound) {n m : Nat}
    (hb : b.frames = (c.controlQueue.take n).map (⟨·, none⟩) ++ c.dataQueue.take m) :
    (b.frames.map (·.frame)).filter (·.Overtakes) = c.controlQueue.take n ∧
      b.frames.filter (fun q => ¬q.frame.Overtakes) = c.dataQueue.take m := by
  have hk : ∀ f ∈ c.controlQueue.take n, f.Overtakes :=
    fun f hf => hs.control f (List.mem_of_mem_take hf)
  have hd : ∀ q ∈ c.dataQueue.take m, ¬q.frame.Overtakes := by
    intro q hq
    rcases hs.data q (List.mem_of_mem_take hq) with ⟨-,_,hx⟩ | ⟨_,_,_,_,_,-,-,-,hx⟩ <;> rw [hx] <;>
      exact id
  generalize c.controlQueue.take n = k at hb hk
  generalize c.dataQueue.take m = d at hb hd
  have hk' : k.filter (·.Overtakes) = k := List.filter_eq_self.mpr (by simpa using hk)
  have hd' : d.filter (fun q => ¬q.frame.Overtakes) = d :=
    List.filter_eq_self.mpr (by simpa using hd)
  constructor
  · have hnone : (d.map (·.frame)).filter (·.Overtakes) = [] :=
      List.filter_eq_nil_iff.mpr (by simpa using hd)
    rw [hb,List.map_append,List.filter_append,hnone,List.append_nil]
    simpa [Function.comp_def] using hk'
  · have hnone : (k.map fun f => Outgoing.mk f none).filter (fun q => ¬q.frame.Overtakes) = [] :=
      List.filter_eq_nil_iff.mpr (by simpa using hk)
    rw [hb,List.filter_append,hnone,hd',List.nil_append]

theorem Account.ship (h : c.Account ks ds) (hs : c.Sound) (hb : c.takeBatch = (some b, c')) :
    c'.Accounted := by
  obtain ⟨n,hframes,rfl⟩ := takeBatch_spec hb
  obtain ⟨hcontrol,hdata⟩ := hs.batch hframes
  refine ⟨Fate.advance n ks,Fate.advance (n - c.controlQueue.length) ds,?_,?_,?_,?_,?_⟩
  · have hk := h.control.advance n
    rw [← hcontrol,← Journal.takenControl_noteTaken] at hk
    exact hk
  · have hd := h.data.advance (n - c.controlQueue.length)
    rw [← hdata,← Journal.takenData_noteTaken] at hd
    exact hd
  · exact fun f hf => h.unpurged f (Fate.mem_advance hf (by simp))
  · exact fun q hq => h.purged q (Fate.mem_advance hq (by simp))
  · rintro (⟨f,hf⟩ | ⟨q,hq⟩)
    · exact h.lost (.inl ⟨f,Fate.mem_advance hf (by simp)⟩)
    · exact h.lost (.inr ⟨q,Fate.mem_advance hq (by simp)⟩)

theorem Aborted.deed (h : c.Aborted) (hd : Deed meant c c') : c'.Aborted := by
  obtain ⟨hp,he⟩ := hd.closed h.1
  exact ⟨hp,he ▸ h.2⟩

theorem Account.moves (h : c.Account ks ds) (hs : c.Sound) (hm : Moves c c') : c'.Accounted := by
  induction hm with
  | refl => exact ⟨ks,ds,h⟩
  | tail hm hstep ih =>
    obtain ⟨ks',ds',h'⟩ := ih
    have hs' := Moves.sound hm hs
    exact h'.enters (hstep.enters hs') (hstep.grown hs').lasts
      fun ha => ha.deed (.move hstep : Deed True _ _)

theorem Account.abort (h : c.Account ks ds) (hs : c.Sound) (e : Failure) :
    (c.abort e).Accounted := by
  by_cases hp : c.phase = .closed
  · rw [Connection.abort,if_pos hp]
    exact ⟨ks,ds,h⟩
  · exact h.enters (enters_abort e hp) (hs.grown_abort e).lasts
      fun ha => absurd ha.1 hp

theorem Account.hear (h : c.Account ks ds) (f : Frame) (size : Nat) :
    (c.hear f size).Account ks ds :=
  { h with }

theorem Breach.enters {v : Violation} {f : Frame} (hb : Breach v f c c') : Enters none c c' := by
  obtain ⟨-,-,hk,hd,hj⟩ := hb.frame
  exact .of_eq hk hd hj

theorem Accounted.deed (h : c.Accounted) (hd : Deed meant c c') (hs : c.Sound) (hn : c'.Numbered) :
    c'.Accounted := by
  obtain ⟨ks,ds,h⟩ := h
  have haborted (ha : c.Aborted) : c'.Aborted := ha.deed hd
  cases hd with
  | move hm => exact h.moves hs hm.moves
  | @start c₁ _ i hstart hm =>
    have hs₁ := hstart.sound hs (hn.of_later (Moves.kept hm).later)
    have h₁ : c₁.Account ks ds := by
      have hl := hstart.lasts
      cases hstart
      exact { h with purged := fun q hq => (h.purged q hq).lasts hl }
    exact h₁.moves hs₁ hm
  | take hp reads ht =>
    exact (h.hear _ _).enters (ht.enters (hs.hear _ _))
      (ht.grown (hs.hear _ _)).lasts haborted
  | breach reads hb =>
    obtain ⟨ks',ds',h'⟩ := (h.hear _ _).enters hb.enters hb.grown.lasts
      fun ha => ⟨hb.phase_eq.1.trans ha.1,by rw [hb.phase_eq.2]; exact ha.2⟩
    exact h'.abort (hb.sound (hs.hear _ _)) _
  | abort e hp => exact h.abort hs e
  | ship hb => exact h.ship hs hb
  | endReads | shutOff | establish =>
    exact ⟨ks,ds,h.control,h.data,h.unpurged,h.purged,fun hx => haborted (h.lost hx)⟩

theorem Accounted.deeds (h : c.Accounted) (hd : Deeds meant c c') (hs : c.Sound)
    (hn : c'.Numbered) : c'.Accounted :=
  hd.keep (fun _ _ hstep hs hn h => h.deed hstep hs hn) hs hn h

theorem accounted_fresh (role : Role) (options : Options) (codes : CodeSpace) :
    (fresh role options codes).Accounted :=
  ⟨[],[],.initial,.initial,by simp,by simp,by simp⟩

end Account

end Connection

end Multiplex
