import Multiplex.Proofs.Soundness

/-!
What a connection holds of one stream id, and everything that can happen to it.
-/

namespace Multiplex

/-- What an end knows of a stream id. -/
inductive Seat
  /-- No stream has the id yet, and one still may. -/
  | unseen
  /-- The peer got further than this stream, so none will have the id. -/
  | passed
  | taken (s : Stream)

/-- What a connection holds of one stream id: the stream, and the frames about it that wait. -/
structure Part where
  seat : Seat
  control : List Frame
  data : List Frame

/-- What is fixed for one id at one end. -/
structure Site where
  options : Options
  peer : Settings
  id : StreamId
  /-- Whether this end is the one that opens the stream. -/
  opener : Bool

namespace Part

variable {x : Site} {calm : Bool} {p m : Part}

/-- What an end does about a stream id. `calm` excludes what only a connection that is no longer
active does. -/
inductive Step (x : Site) (calm : Bool) : Part → Part → Prop
  | start {s : Stream} {k d : List Frame} (opener : x.opener = true) (busy : calm = true)
      (fresh : s.Fresh x.options x.peer) (unreset : s.resetCode = none) :
      Step x calm ⟨.unseen, k, d⟩ ⟨.taken s, k, d⟩
  | tend {s s' : Stream} {update : Option Frame} {k d : List Frame}
      (h : s.Tends x.options.window s' update) :
      Step x calm ⟨.taken s, k, d⟩ ⟨.taken s', k ++ update.toList, d⟩
  | send {s : Stream} {data : Bytes} {k d : List Frame} (hw : s.writeError = none)
      (credit : data.length ≤ s.credit.available.toNat)
      (size : data.length ≤ x.peer.maxFrame.toNat) :
      Step x calm ⟨.taken s, k, d⟩ ⟨.taken (s.charge data), k, d ++ [.stream x.id false data]⟩
  | finish {s : Stream} {k d : List Frame} (hw : s.writeError = none) :
      Step x calm ⟨.taken s, k, d⟩ ⟨.taken s.finish.settle, k, d ++ [.stream x.id true []]⟩
  | reset {s : Stream} {code wire : UInt64} {k d : List Frame} (live : s.released = false) :
      Step x calm ⟨.taken s, k, d⟩
        ⟨.taken (s.markReset code).settle, k ++ [.reset x.id wire], []⟩
  /-- A stream that is out of use remembers a reset. -/
  | mark {s : Stream} {code : UInt64} {k d : List Frame} (stormy : calm = false)
      (spent : s.released = true) : Step x calm ⟨.taken s, k, d⟩ ⟨.taken (s.markReset code), k, d⟩
  /-- The stream fails, and what waits may be lost. -/
  | fail {s s' : Stream} {k d k' d' : List Frame} (stormy : calm = false)
      (h : Connection.Falls s s') (hq : (k' = k ∧ d' = d) ∨ (k' = [] ∧ d' = [])) :
      Step x calm ⟨.taken s, k, d⟩ ⟨.taken s', k', d'⟩
  | clear {seat : Seat} {k d : List Frame} (stormy : calm = false)
      (vacant : ∀ s, seat ≠ .taken s) : Step x calm ⟨seat, k, d⟩ ⟨seat, [], []⟩

/-- What becomes of a stream id of the peer when the peer has got as far. -/
inductive Arrives (x : Site) (calm : Bool) : Part → Part → Prop
  | pass {k d : List Frame} (guest : x.opener = false) :
      Arrives x calm ⟨.unseen, k, d⟩ ⟨.passed, k, d⟩
  | refuse {wire : UInt64} {k d : List Frame} (guest : x.opener = false) (stormy : calm = false) :
      Arrives x calm ⟨.unseen, k, d⟩ ⟨.passed, k ++ [.reset x.id wire], d⟩
  | surface {s : Stream} {k d : List Frame} (guest : x.opener = false) (busy : calm = true)
      (fresh : s.Fresh x.options x.peer) (unreset : s.resetCode = none) (hid : s.id = some x.id)
      (direction : s.direction = x.id.direction) (remote : s.remote = true) :
      Arrives x calm ⟨.unseen, k, d⟩ ⟨.taken s, k, d⟩

theorem Arrives.seat (h : Arrives x calm p m) : p.seat = .unseen ∧ m.seat ≠ .unseen := by
  cases h <;> simp

/-- Whether a frame about the stream has no effect at this end. -/
def Deaf (x : Site) (f : Frame) (p : Part) : Prop :=
  match p.seat with
  | .unseen => x.opener = true ∨ f.kind = .windowUpdate
  | .passed => True
  | .taken s => s.released = true

/-- What a frame of the peer about the stream does. -/
inductive Takes (x : Site) : Frame → Part → Part → Prop
  | data {s s' : Stream} {fin : Bool} {data : Bytes} {update : Option Frame} {k d : List Frame}
      (reads : s.hasReadSide = true) (h : s.Receives x.options.window s' fin data update)
      (last : fin = true → update = none) :
      Takes x (.stream x.id fin data) ⟨.taken s, k, d⟩ ⟨.taken s', k ++ update.toList, d⟩
  | grant {s : Stream} {n : UInt64} {k d : List Frame} (live : s.released = false) :
      Takes x (.windowUpdate x.id n) ⟨.taken s, k, d⟩
        ⟨.taken { s with credit := s.credit.grant n }, k, d⟩
  | reset {s : Stream} {code wire : UInt64} {unwritten changes : Nat} {k d : List Frame}
      (live : s.released = false) :
      Takes x (.reset x.id wire) ⟨.taken s, k, d⟩
        ⟨.taken ({ s with unwritten, changes }.markReset code).settle, k, []⟩
  | drop {f : Frame} {p : Part} (about : f.streamId = some x.id) (deaf : Deaf x f p) : Takes x f p p

/-- What holds of the part of every sound connection. -/
structure Sound (x : Site) (p : Part) : Prop where
  sound : ∀ s, p.seat = .taken s → s.Sound x.options.window
  id : ∀ s, p.seat = .taken s → s.id = some x.id
  direction : ∀ s, p.seat = .taken s → s.direction = x.id.direction
  remote : ∀ s, p.seat = .taken s → s.remote = !x.opener
  mute : ∀ s, p.seat = .taken s → s.hasWriteSide = false → s.ledger.sent = []
  opened : x.opener = true → p.seat ≠ .passed
  control : ∀ f ∈ p.control, (∃ n, f = .windowUpdate x.id n) ∨ ∃ wire, f = .reset x.id wire
  data : ∀ f ∈ p.data, ∃ fin data, f = .stream x.id fin data

theorem Arrives.sound (h : Arrives x calm p m) (hp : p.Sound x) : m.Sound x := by
  cases h with
  | pass guest => exact ⟨by simp,by simp,by simp,by simp,by simp,by simp [guest],hp.control,hp.data⟩
  | refuse guest =>
    refine ⟨by simp,by simp,by simp,by simp,by simp,by simp [guest],?_,hp.data⟩
    intro f hf
    rcases List.mem_append.mp hf with hf | hf
    · exact hp.control f hf
    · exact .inr ⟨_,List.mem_singleton.mp hf⟩
  | @surface s k d guest busy fresh unreset hid direction remote =>
    refine ⟨?_,?_,?_,?_,?_,by simp,hp.control,hp.data⟩ <;> rintro _ ⟨⟩
    · exact fresh.sound unreset
    · exact hid
    · exact direction
    · rw [remote,guest]
      rfl
    · intro _
      rw [fresh.ledger]

end Part

namespace Connection

variable {c c' : Connection} {id : StreamId} {s s' : Stream} {i : Nat} {f : Frame}

def site (c : Connection) (id : StreamId) : Site where
  options := c.options
  peer := c.peer
  id
  opener := decide (id.initiator = c.role)

def record (c : Connection) (id : StreamId) : Option Stream :=
  c.streams.find? fun s => s.id = some id

def seat (c : Connection) (id : StreamId) : Seat :=
  match c.record id with
  | some s => .taken s
  | none =>
    if id.initiator ≠ c.role ∧ id.sequence.toNat < c.nextRemote.get id.direction then .passed
    else .unseen

def about (id : StreamId) (fs : List Frame) : List Frame :=
  fs.filter fun f => f.streamId = some id

def part (c : Connection) (id : StreamId) : Part where
  seat := c.seat id
  control := about id c.controlQueue
  data := about id (c.dataQueue.map (·.frame))

theorem record_eq_some_iff (h : c.Registry) :
    c.record id = some s ↔ s.id = some id ∧ ∃ i : Nat, c.streams[i]? = some s := by
  unfold record
  constructor
  · intro hx
    refine ⟨by simpa using List.find?_some hx,?_⟩
    exact List.mem_iff_getElem?.mp (List.mem_of_find?_eq_some hx)
  · rintro ⟨hid,i,hi⟩
    cases hx : c.streams.find? fun s => s.id = some id with
    | none =>
      have := List.find?_eq_none.mp hx s (List.mem_of_getElem? hi)
      simp [hid] at this
    | some t =>
      have ht : t.id = some id := by simpa using List.find?_some hx
      obtain ⟨j,hj⟩ := List.mem_iff_getElem?.mp (List.mem_of_find?_eq_some hx)
      obtain rfl := h.unique hi hj (by simp [hid]) (by rw [hid,ht])
      exact (hi.symm.trans hj).symm

theorem record_eq_none_iff :
    c.record id = none ↔ ∀ (i : Nat) (s : Stream), c.streams[i]? = some s → s.id ≠ some id := by
  unfold record
  rw [List.find?_eq_none]
  constructor
  · intro h i s hi
    simpa using h s (List.mem_of_getElem? hi)
  · intro h s hs
    obtain ⟨i,hi⟩ := List.mem_iff_getElem?.mp hs
    simpa using h i s hi

theorem seat_eq_taken_iff (h : c.Registry) :
    c.seat id = .taken s ↔ s.id = some id ∧ ∃ i : Nat, c.streams[i]? = some s := by
  rw [← record_eq_some_iff h]
  unfold seat
  cases c.record id with
  | some t => simp
  | none =>
    simp only [reduceCtorEq,iff_false]
    split <;> simp

theorem record_set (h : c.Registry) (h' : c'.Registry) (hi : c.streams[i]? = some s)
    (hs : c'.streams = c.streams.set i s') (hx : s.id ≠ some id) (hx' : s'.id ≠ some id) :
    c'.record id = c.record id := by
  refine Option.ext fun t => ?_
  rw [record_eq_some_iff h',record_eq_some_iff h]
  refine and_congr_right fun ht => exists_congr fun j => ?_
  rw [hs,getElem?_set_of hi]
  split
  · rename_i hji
    subst hji
    rw [hi]
    constructor
    · rintro ⟨⟩
      exact absurd ht hx'
    · rintro ⟨⟩
      exact absurd ht hx
  · exact Iff.rfl

theorem seat_set (h : c.Registry) (h' : c'.Registry) (hc : c.SameSite c')
    (hi : c.streams[i]? = some s) (hs : c'.streams = c.streams.set i s') (hid : s'.id = s.id)
    (id : StreamId) : c'.seat id = if s.id = some id then .taken s' else c.seat id := by
  split
  · rename_i hx
    exact (seat_eq_taken_iff h').mpr ⟨hid.trans hx,i,by rw [hs,getElem?_set_of hi,if_pos rfl]⟩
  · rename_i hx
    simp only [seat,record_set h h' hi hs hx (hid ▸ hx),hc.role,hc.nextRemote]

@[simp]
theorem about_append (id : StreamId) (fs gs : List Frame) :
    about id (fs ++ gs) = about id fs ++ about id gs :=
  List.filter_append _ _

theorem about_of_eq (h : f.streamId = some id) : about id [f] = [f] := by
  simp [about,h]

theorem about_of_ne (h : f.streamId ≠ some id) : about id [f] = [] := by
  simp [about,h]

theorem Sound.part (h : c.Sound) (id : StreamId) : (c.part id).Sound (c.site id) := by
  have hheld {s : Stream} (hs : c.seat id = .taken s) : s.id = some id ∧ c.Holds id s := by
    obtain ⟨hid,i,hi⟩ := (seat_eq_taken_iff h.toRegistry).mp hs
    exact ⟨hid,h.held hi hid⟩
  refine ⟨?_,?_,?_,?_,?_,?_,?_,?_⟩
  · exact fun s hs => (hheld hs).2.sound
  · exact fun s hs => (hheld hs).1
  · exact fun s hs => (hheld hs).2.direction
  · intro s hs
    rw [(hheld hs).2.remote]
    simp [site]
  · exact fun s hs => (hheld hs).2.mute
  · intro ho hs
    have ho' : id.initiator = c.role := by simpa [site] using ho
    simp only [Connection.part,seat] at hs
    split at hs
    · cases hs
    · simp [ho'] at hs
  · intro f hf
    obtain ⟨hmem,hid⟩ := List.mem_filter.mp hf
    have ho := h.control f hmem
    cases f with
    | windowUpdate id' n =>
      obtain rfl : id' = id := by simpa [Frame.streamId] using hid
      exact .inl ⟨n,rfl⟩
    | reset id' w =>
      obtain rfl : id' = id := by simpa [Frame.streamId] using hid
      exact .inr ⟨w,rfl⟩
    | ping | pong => simp [Frame.streamId] at hid
    | stream | settings | close => cases ho
  · intro f hf
    obtain ⟨hmem,hid⟩ := List.mem_filter.mp hf
    obtain ⟨q,hq,rfl⟩ := List.mem_map.mp hmem
    rcases h.data q hq with ⟨-,code,hx⟩ | ⟨i,s,id',fin,data,-,-,-,hx⟩
    · simp [hx,Frame.streamId] at hid
    · obtain rfl : id' = id := by simpa [hx,Frame.streamId] using hid
      exact ⟨fin,data,hx⟩

theorem Sound.about_purge (h : c.Sound) (hi : c.streams[i]? = some s) (hid : s.id = some id)
    (id' : StreamId) :
    about id' ((c.dataQueue.filter fun q => q.owner ≠ some i).map (·.frame)) =
      if id' = id then [] else about id' (c.dataQueue.map (·.frame)) := by
  rw [h.purge hi hid]
  unfold about
  rw [List.filter_map,List.filter_map,List.filter_filter]
  split
  · rename_i hx
    simp [hx]
  · rename_i hne
    congr 1
    refine List.filter_congr fun q _ => ?_
    by_cases hx : q.frame.streamId = some id' <;> simp [hx,hne]

/-- How the part of one id changes. -/
def Turns (c c' : Connection) (id : StreamId) : Prop :=
  c'.part id = c.part id ∨
    Part.Step (c.site id) (decide (c'.phase = .active)) (c.part id) (c'.part id)

theorem Turns.of_eq (hs : c'.seat id = c.seat id)
    (hc : about id c'.controlQueue = about id c.controlQueue)
    (hd : about id (c'.dataQueue.map (·.frame)) = about id (c.dataQueue.map (·.frame))) :
    Turns c c' id := by
  left
  simp only [part,hs,hc,hd]

theorem Turns.set (h : c.Sound) (h' : c'.Sound) (hc : c.SameSite c')
    (hi : c.streams[i]? = some s) (hs : c'.streams = c.streams.set i s') (hid : s'.id = s.id)
    (hother : ∀ id', s.id ≠ some id' → about id' c'.controlQueue = about id' c.controlQueue ∧
      about id' (c'.dataQueue.map (·.frame)) = about id' (c.dataQueue.map (·.frame)))
    (hstep : s.id = some id → Part.Step (c.site id) (decide (c'.phase = .active))
      ⟨.taken s, about id c.controlQueue, about id (c.dataQueue.map (·.frame))⟩
      ⟨.taken s', about id c'.controlQueue, about id (c'.dataQueue.map (·.frame))⟩) :
    Turns c c' id := by
  have hseat := seat_set h.toRegistry h'.toRegistry hc hi hs hid id
  by_cases hx : s.id = some id
  · right
    have hold : c.seat id = .taken s := (seat_eq_taken_iff h.toRegistry).mpr ⟨hx,i,hi⟩
    rw [if_pos hx] at hseat
    simp only [part,hseat,hold]
    exact hstep hx
  · rw [if_neg hx] at hseat
    exact .of_eq hseat (hother id hx).1 (hother id hx).2

theorem about_enqueueControl (c : Connection) (f : Frame) (id : StreamId)
    (hf : f.streamId ≠ some id ∨ (c.phase ≠ .closed ∧ c.shutdownWrites = false)) :
    about id (c.enqueueControl f).controlQueue = about id c.controlQueue ++ about id [f] := by
  unfold enqueueControl
  split
  · rename_i hx
    rcases hf with hf | ⟨hp,hw⟩
    · rw [about_of_ne hf,List.append_nil]
    · simp [hp,hw] at hx
  · rw [about_append]

theorem about_enqueueControl? {update : Option Frame}
    (hu : ∀ f ∈ update, ∃ n, f = .windowUpdate id n)
    (hl : update.isSome → c.phase ≠ .closed ∧ c.shutdownWrites = false) (id' : StreamId) :
    about id' (c.enqueueControl? update).controlQueue =
      about id' c.controlQueue ++ if id' = id then update.toList else [] := by
  cases update with
  | none => simp [enqueueControl?]
  | some f =>
    obtain ⟨n,rfl⟩ := hu f rfl
    simp only [enqueueControl?]
    rw [about_enqueueControl _ _ _ (.inr (hl rfl))]
    split
    · rename_i hx
      rw [hx,about_of_eq rfl]
      rfl
    · rename_i hx
      rw [about_of_ne (by simpa [Frame.streamId] using Ne.symm hx)]

theorem record_append (hs : s.id = none) (id : StreamId) :
    ({ c with streams := c.streams ++ [s] } : Connection).record id = c.record id := by
  simp [record,List.find?_append,hs]

theorem Fell.seat (hf : Fell c.streams c'.streams) (h : c.Sound) (h' : c'.Sound)
    (hc : c.SameSite c') (id : StreamId) :
    (c'.seat id = c.seat id ∧ ∀ s, c.seat id ≠ .taken s) ∨
      ∃ s s', c.seat id = .taken s ∧ c'.seat id = .taken s' ∧ Falls s s' := by
  cases hr : c.record id with
  | some s =>
    right
    obtain ⟨hid,i,hi⟩ := (record_eq_some_iff h.toRegistry).mp hr
    obtain ⟨s',hi',-,hfalls⟩ := (hf i).2 s hi
    have hfs := hfalls (by simp [hid])
    exact ⟨s,s',(seat_eq_taken_iff h.toRegistry).mpr ⟨hid,i,hi⟩,
      (seat_eq_taken_iff h'.toRegistry).mpr ⟨hfs.id.trans hid,i,hi'⟩,hfs⟩
  | none =>
    left
    have hr' : c'.record id = none := by
      rw [record_eq_none_iff] at hr ⊢
      intro i s' hi'
      obtain ⟨s,hi,hid,-⟩ := hf.of_some hi'
      rw [hid]
      exact hr i s hi
    refine ⟨by simp only [Connection.seat,hr,hr',hc.role,hc.nextRemote],?_⟩
    intro s
    simp only [Connection.seat,hr]
    split <;> simp

theorem Sound.turns_abort (h : c.Sound) (e : Failure) (hp : c.phase ≠ .closed) (id : StreamId) :
    Turns c (c.abort e) id := by
  have hst : decide ((c.abort e).phase = .active) = false := by
    rw [abort_eq c e hp]
    rfl
  have hq : about id (c.abort e).controlQueue = [] ∧
      about id ((c.abort e).dataQueue.map (·.frame)) = [] := by
    rw [abort_eq c e hp]
    exact ⟨rfl,rfl⟩
  right
  rcases (h.fell_abort e hp).seat h (h.abort e hp) (abort_site e hp) id with
    ⟨hs,hv⟩ | ⟨s,s',hs,hs',hf⟩
  · simp only [Connection.part,hs,hq.1,hq.2]
    exact .clear hst hv
  · simp only [Connection.part,hs,hs',hq.1,hq.2]
    exact .fail hst hf (.inr ⟨rfl,rfl⟩)

/-- A frame that a stream queues is about that stream alone. -/
theorem about_queued {s : Stream} {id' : StreamId} (hid : s.id = some id') (qs : List Outgoing)
    (i : Nat) (fin : Bool) (data : Bytes) (id : StreamId) :
    about id ((qs.concat ⟨.stream id' fin data, some i⟩).map (·.frame)) =
      about id (qs.map (·.frame)) ++ if s.id = some id then [.stream id fin data] else [] := by
  rw [List.concat_eq_append,List.map_append,about_append,List.map_singleton,hid]
  split
  · rename_i hx
    cases hx
    rw [about_of_eq rfl]
  · rename_i hx
    rw [about_of_ne (f := Frame.stream id' fin data) hx]

section Moves

variable (h : c.Sound)

include h

theorem Sound.turns_lose (e : Failure) (hc : c.closeReceived.isSome) (hr : c.readEnded = true)
    (id : StreamId) : Turns c (c.failStreams e) id := by
  have hm : Move c (c.failStreams e) := .lose e hc hr
  rcases (h.toTabled.fell_failStreams e).seat h (hm.sound h) hm.site id with
    ⟨hs,-⟩ | ⟨s,s',hs,hs',hf⟩
  · refine .of_eq hs ?_ ?_ <;> rw [failStreams_eq]
  · right
    simp only [Connection.part,hs,hs']
    refine .fail ?_ hf (.inl ?_)
    · rw [failStreams_eq]
      exact decide_eq_false (h.closing hc)
    · rw [failStreams_eq]
      exact ⟨rfl,rfl⟩

variable (hi : c.streams[i]? = some s)

include hi

theorem Sound.turns_tend {s' : Stream} {update : Option Frame}
    (ht : s.Tends c.options.window s' update) (id : StreamId) :
    Turns c ({ c with streams := c.streams.set i s' }.enqueueControl? update) id := by
  have hm := Move.tend hi ht
  have hd (c : Connection) : (c.enqueueControl? update).dataQueue = c.dataQueue := by
    rw [enqueueControl?_eq]
  have hu {id' : StreamId} (hid : s.id = some id') :
      ∀ f ∈ update, ∃ n, f = .windowUpdate id' n := by
    intro f hf
    obtain ⟨id₁,n,hid₁,rfl⟩ := ht.announced f hf
    cases hid.symm.trans hid₁
    exact ⟨n,rfl⟩
  have hopen {id' : StreamId} (hid : s.id = some id') (hx : update.isSome) :
      c.phase ≠ .closed ∧ c.shutdownWrites = false := by
    refine h.not_closed hi hid ?_
    by_contra hr
    rw [ht.silent (.inr (Bool.eq_true_of_not_eq_false hr))] at hx
    cases hx
  refine .set h (hm.sound h) hm.site hi (by rw [enqueueControl?_eq]) ht.agrees.id ?_ ?_
  · intro id' hne
    rw [hd]
    refine ⟨?_,rfl⟩
    cases hid : s.id with
    | none =>
      have hnone : update = none := by
        cases update with
        | none => rfl
        | some f =>
          obtain ⟨_,_,hid₁,-⟩ := ht.announced f rfl
          cases hid.symm.trans hid₁
      rw [hnone]
      rfl
    | some id₁ =>
      rw [about_enqueueControl? (c := { c with streams := c.streams.set i s' })
        (hu hid) (hopen hid),if_neg,List.append_nil]
      rintro rfl
      exact hne hid
  · intro hid
    rw [hd,about_enqueueControl? (c := { c with streams := c.streams.set i s' }) (hu hid)
      (hopen hid),if_pos rfl]
    exact .tend ht

theorem Sound.turns_mark (code : UInt64)
    (hx : s.id = none ∨ (s.released = true ∧ c.phase ≠ .active) ∨ c.phase = .closed)
    (id : StreamId) : Turns c { c with streams := c.streams.set i (s.markReset code) } id := by
  have hm := Move.mark code hi hx
  refine .set h (hm.sound h) hm.site hi rfl rfl (fun _ _ => ⟨rfl,rfl⟩) fun hid => ?_
  obtain ⟨hr,hp⟩ := h.unused_of_mark hi hid hx
  exact .mark (by simpa using hp) hr

variable {id' : StreamId} (hid : s.id = some id')

include hid

theorem Sound.turns_send {data : Bytes} (hw : s.writeError = none) (hp : c.phase ≠ .closed)
    (credit : data.length ≤ s.credit.available.toNat)
    (size : data.length ≤ c.peer.maxFrame.toNat) (id : StreamId) :
    Turns c ({ c with streams := c.streams.set i (s.charge data) }.append
      ⟨.stream id' false data, some i⟩) id := by
  have hm := Move.send hi hid hw hp credit size
  refine .set h (hm.sound h) hm.site hi rfl rfl ?_ ?_ <;> dsimp only [append]
  · intro id₁ hne
    rw [← List.concat_eq_append,about_queued hid,if_neg hne,List.append_nil]
    exact ⟨rfl,rfl⟩
  · intro hx
    rw [← List.concat_eq_append,about_queued hid,if_pos hx]
    exact .send hw credit size

theorem Sound.turns_finish (hw : s.writeError = none) (hp : c.phase ≠ .closed) (id : StreamId) :
    Turns c (({ c with streams := c.streams.set i s.finish }.append
      ⟨.stream id' true [], some i⟩).release i) id := by
  have hm := Move.finish hi hid hw hp
  refine .set h (hm.sound h) hm.site hi (streams_release hi rfl hid ((h.held hi hid).sound.live hw))
    s.finish.settle_id ?_ ?_ <;> rw [release_eq] <;> dsimp only [append]
  · intro id₁ hne
    rw [← List.concat_eq_append,about_queued hid,if_neg hne,List.append_nil]
    exact ⟨rfl,rfl⟩
  · intro hx
    rw [← List.concat_eq_append,about_queued hid,if_pos hx]
    exact .finish hw

theorem Sound.turns_reset (hl : s.released = false) (code wire : UInt64) (id : StreamId) :
    Turns c ({ c.enqueueControl (.reset id' wire) with
      streams := c.streams.set i (s.markReset code)
      dataQueue := c.dataQueue.filter fun q => q.owner ≠ some i }.release i) id := by
  have hm := Move.reset code wire hi hid hl
  have hk (id : StreamId) := about_enqueueControl c (.reset id' wire) id
    (.inr (h.not_closed hi hid hl))
  refine .set h (hm.sound h) hm.site hi (streams_release hi rfl hid hl)
    (s.markReset code).settle_id ?_ ?_ <;> rw [release_eq]
  · intro id₁ hne
    have hne' : id' ≠ id₁ := fun hx => hne (hx ▸ hid)
    refine ⟨?_,?_⟩
    · rw [hk,about_of_ne (by simpa [Frame.streamId] using hne'),List.append_nil]
    · exact (h.about_purge hi hid id₁).trans (if_neg (Ne.symm hne'))
  · intro hx
    obtain rfl := Option.some.inj (hid.symm.trans hx)
    have hdata := (h.about_purge hi hid id').trans (if_pos rfl)
    simp only [hk,about_of_eq (f := Frame.reset id' wire) rfl,hdata]
    exact .reset hl

end Moves

theorem Move.turns (hm : Move c c') (h : c.Sound) (id : StreamId) : Turns c c' id := by
  cases hm with
  | add d hp =>
    refine .of_eq ?_ rfl rfl
    simp only [seat,record_append (s := Stream.fresh d false c.options c.peer) rfl]
  | tend hi ht => exact h.turns_tend hi ht id
  | send hi hid hw hp credit size =>
    exact h.turns_send hi hid hw hp credit size id
  | spend credit hi hid hw hp =>
    exact absurd hp (h.not_closed hi hid ((h.held hi hid).sound.live hw)).1
  | finish hi hid hw hp => exact h.turns_finish hi hid hw hp id
  | reset code wire hi hid hl => exact h.turns_reset hi hid hl code wire id
  | mark code hi hx => exact h.turns_mark hi code hx id
  | @say f hf =>
    have hne : f.streamId ≠ some id := by
      rcases hf with ⟨v,rfl⟩ | ⟨v,rfl⟩ <;> simp [Frame.streamId]
    refine .of_eq ?_ ?_ ?_
    · rw [enqueueControl_eq]
      rfl
    · rw [about_enqueueControl _ _ _ (.inl hne),about_of_ne hne,List.append_nil]
    · rw [enqueueControl_eq]
  | close code hc =>
    refine .of_eq ?_ ?_ ?_
    · rw [enqueueClose_eq]
      rfl
    · rw [enqueueClose_eq]
    · unfold enqueueClose
      split
      · rfl
      · simp [append,about,Frame.streamId]
  | note | wane | shut | complete => exact .inl rfl
  | lose e hc hr => exact h.turns_lose e hc hr id
  | abort e hp => exact h.turns_abort e hp id

theorem seat_eq_unseen (hr : c.record id = none)
    (hn : id.initiator = c.role ∨ c.nextRemote.get id.direction ≤ id.sequence.toNat) :
    c.seat id = .unseen := by
  unfold seat
  rw [hr]
  refine if_neg ?_
  rintro ⟨h₁,h₂⟩
  rcases hn with hn | hn
  · exact h₁ hn
  · omega

/-- A start concerns the id that is given out, and no other. -/
theorem Start.turns (hs : Start i c c') (h : c.Sound) (hn : c'.Numbered) (id : StreamId) :
    Turns c c' id := by
  have h' := hs.sound h hn
  obtain ⟨hi,hid,hw,hp,hl⟩ := hs
  rename_i s
  have hk : c.nextLocal.get s.direction < StreamId.span := by
    have := hn s.direction
    simp only [started,PerDirection.get_set,if_true] at this
    omega
  have hst : (c.started i s).streams = c.streams.set i { s with
      id := some (.ofParts (UInt64.ofNat (c.nextLocal.get s.direction)) s.direction c.role) } := rfl
  have hnew {j : Nat} {t : Stream} (hj : c.streams[j]? = some t) := h.started_fresh hk hj
  have hrole :=
    StreamId.initiator_ofParts (UInt64.ofNat (c.nextLocal.get s.direction)) s.direction c.role
  generalize StreamId.ofParts (UInt64.ofNat (c.nextLocal.get s.direction)) s.direction c.role
    = new at hst hnew hrole
  by_cases hx : id = new
  · subst hx
    right
    have hold : c.seat id = .unseen :=
      seat_eq_unseen (record_eq_none_iff.mpr fun _ _ hj => hnew hj) (.inl hrole)
    have hseat : (c.started i s).seat id = .taken { s with id := some id } :=
      (seat_eq_taken_iff h'.toRegistry).mpr ⟨rfl,i,by rw [hst,getElem?_set_of hi,if_pos rfl]⟩
    obtain ⟨hf,-⟩ := h.idle hi hid
    simp only [part,hold,hseat]
    refine .start (by simp [site,hrole]) (decide_eq_true hp) ?_
      (Stream.writeError_eq_none_iff.mp hw).2.2.2.1
    exact { hf with }
  · refine .of_eq ?_ rfl rfl
    unfold seat
    rw [record_set h.toRegistry h'.toRegistry hi hst (by simp [hid]) (by simpa using Ne.symm hx)]
    rfl

theorem seat_reached (c : Connection) (new : c.Unheard id) (id' : StreamId) :
    (c.reached id).seat id' = c.seat id' ∨
      c.seat id' = .unseen ∧ (c.reached id).seat id' = .passed := by
  have hnext : c.nextRemote.get id'.direction ≤ (c.reached id).nextRemote.get id'.direction := by
    simp only [reached,PerDirection.get_set]
    split
    · rename_i hd
      have := new.next
      rw [hd]
      omega
    · exact le_rfl
  have hrec : (c.reached id).record id' = c.record id' := rfl
  have hrole : (c.reached id).role = c.role := rfl
  simp only [seat,hrec,hrole]
  cases c.record id' with
  | some s => exact .inl rfl
  | none =>
    by_cases h₁ : id'.initiator ≠ c.role ∧ id'.sequence.toNat < c.nextRemote.get id'.direction
    · left
      simp only [if_pos h₁]
      exact if_pos ⟨h₁.1,by omega⟩
    · by_cases h₂ : id'.initiator ≠ c.role ∧
          id'.sequence.toNat < (c.reached id).nextRemote.get id'.direction
      · exact .inr ⟨if_neg h₁,if_pos h₂⟩
      · left
        simp only [if_neg h₁,if_neg h₂]

theorem Sound.seat_beyond (h : c.Sound) (hr : id.initiator ≠ c.role)
    (hn : c.nextRemote.get id.direction ≤ id.sequence.toNat) : c.seat id = .unseen := by
  refine seat_eq_unseen (record_eq_none_iff.mpr fun j t hj ht => ?_) (.inr hn)
  have hh := h.held hj ht
  have hrem : t.remote = true := by
    rw [hh.remote]
    exact decide_eq_true hr
  have hb := hh.below
  rw [hrem,if_pos rfl] at hb
  omega

theorem seat_unheard (h : c.Sound) (new : c.Unheard id) : c.seat id = .unseen :=
  h.seat_beyond new.initiator new.next

theorem seat_reached_self (h : c.Sound) (new : c.Unheard id) :
    (c.reached id).seat id = .passed := by
  have hold := seat_unheard h new
  rcases seat_reached c new id with hs | ⟨-,hs⟩
  · exfalso
    rw [hold] at hs
    unfold seat at hs
    split at hs
    · cases hs
    · split at hs
      · cases hs
      · rename_i hx
        refine hx ⟨new.initiator,?_⟩
        simp [reached,PerDirection.get_set]
  · exact hs

end Connection

end Multiplex
