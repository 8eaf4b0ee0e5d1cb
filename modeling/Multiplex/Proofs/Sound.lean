import Multiplex.Proofs.Calls
import Multiplex.Proofs.Handling
import Multiplex.Proofs.StreamId

/-!
What holds of every connection as long as its sequence numbers last: its table, its counters and its
queues agree with its streams.
-/

namespace Multiplex

namespace Frame

def Overtakes : Frame → Prop
  | .windowUpdate .. | .reset .. | .ping _ | .pong _ => True
  | .stream .. | .settings _ | .close _ => False

end Frame

namespace Connection

variable {i : Nat} {s s' : Stream} {c c' x : Connection} {g : Frame}

def Numbered (c : Connection) : Prop := ∀ d, c.nextLocal.get d ≤ StreamId.span

instance (c : Connection) : Decidable c.Numbered :=
  decidable_of_iff (c.nextLocal.get .bidirectional ≤ StreamId.span ∧
      c.nextLocal.get .unidirectional ≤ StreamId.span)
    ⟨fun h d => by cases d with | bidirectional => exact h.1 | unidirectional => exact h.2,
      fun h => ⟨h _,h _⟩⟩

/-- What holds of a started stream. -/
structure Holds (c : Connection) (id : StreamId) (s : Stream) : Prop where
  direction : s.direction = id.direction
  remote : s.remote = decide (id.initiator ≠ c.role)
  below : id.sequence.toNat <
    (if s.remote then c.nextRemote else c.nextLocal).get id.direction
  mute : s.hasWriteSide = false → s.ledger.sent = []
  measured : s.window.threshold =
    (ReceiveWindow.ofSize c.options.window c.options.threshold).threshold
  sound : s.Sound c.options.window

/-- The streams are well numbered and each of them is sound. -/
structure Registry (c : Connection) : Prop where
  numbered : c.Numbered
  unique : ∀ {i j : Nat} {s t : Stream}, c.streams[i]? = some s → c.streams[j]? = some t →
    s.id.isSome → s.id = t.id → i = j
  idle : ∀ {i : Nat} {s : Stream}, c.streams[i]? = some s → s.id = none →
    s.Fresh c.options c.peer ∧ s.remote = false
  held : ∀ {i : Nat} {s : Stream} {id : StreamId}, c.streams[i]? = some s → s.id = some id →
    c.Holds id s
  complete : ∀ {d : Direction} {k : Nat}, k < c.nextLocal.get d →
    ∃ (i : Nat) (s : Stream), c.streams[i]? = some s ∧
      s.id = some (.ofParts (UInt64.ofNat k) d c.role)

/-- Whether an entry of the table of the end `role` counts for streams that the peer opened, or that
this end opened, in the direction `d`. -/
def counts (role : Role) (remote : Bool) (d : Direction) (entry : StreamId × Nat) : Bool :=
  decide (entry.1.initiator ≠ role) == remote && decide (entry.1.direction = d)

/-- The table holds the streams in use, and the counters count them. -/
structure Tabled (c : Connection) : Prop where
  iff : ∀ {id : StreamId} {i : Nat}, (id, i) ∈ c.table ↔
    ∃ s : Stream, c.streams[i]? = some s ∧ s.id = some id ∧ s.released = false
  distinct : c.table.Nodup
  counted : ∀ remote d, (if remote then c.activeRemote else c.activeLocal).get d =
    c.table.countP (counts c.role remote d)
  within : ∀ d, c.activeLocal.get d ≤ (c.peer.maxStreams d).toNat
  admitted : ∀ d, c.activeRemote.get d ≤ (c.options.maxStreams d).toNat

/-- The queues hold what belongs there. -/
structure Queued (c : Connection) : Prop where
  control : ∀ f ∈ c.controlQueue, f.Overtakes
  data : ∀ q ∈ c.dataQueue, (q.owner = none ∧ ∃ code, q.frame = .close code) ∨
    ∃ (i : Nat) (s : Stream) (id : StreamId) (fin : Bool) (data : Bytes), q.owner = some i ∧
      c.streams[i]? = some s ∧ s.id = some id ∧
      q.frame = .stream id fin data

/-- What goes with the phases of a connection. -/
structure Lives (c : Connection) : Prop where
  still : c.phase = .closed ∨ c.shutdownWrites = true → c.table = []
  unopened : c.phase = .connecting → c.streams = [] ∧ c.closeReceived = none
  closing : c.closeReceived.isSome → c.phase ≠ .active
  healthy : c.phase = .active → ∀ {i : Nat} {s : Stream}, c.streams[i]? = some s → s.error = none
  shut : c.shutdownWrites = true → c.phase = .closing ∨ c.phase = .closed

structure Sound (c : Connection) : Prop extends Registry c, Tabled c, Queued c, Lives c

theorem getElem?_set_of {l : List Stream} (hi : l[i]? = some s) (s' : Stream) (j : Nat) :
    (l.set i s')[j]? = if j = i then some s' else l[j]? := by
  have hlt := (List.getElem?_eq_some_iff.mp hi).1
  rw [List.getElem?_set]
  by_cases h : i = j
  · subst h
    simp [hlt]
  · simp [h,Ne.symm h]

/-- Two connections that number their streams in the same way. -/
structure SameSite (c c' : Connection) : Prop where
  role : c'.role = c.role
  options : c'.options = c.options
  peer : c'.peer = c.peer
  nextLocal : c'.nextLocal = c.nextLocal
  nextRemote : c'.nextRemote = c.nextRemote

theorem Holds.congr {id : StreamId} (hc : c.SameSite c') (h : c.Holds id s) : c'.Holds id s := by
  refine ⟨h.direction,?_,?_,h.mute,?_,?_⟩
  · rw [hc.role]
    exact h.remote
  · rw [hc.nextRemote,hc.nextLocal]
    exact h.below
  · rw [hc.options]
    exact h.measured
  · rw [hc.options]
    exact h.sound

/-- Streams that keep their places and their ids, and change as `R` says. -/
structure Abreast (R : Stream → Stream → Prop) (ss ss' : List Stream) : Prop where
  forth : ∀ {i : Nat} {s : Stream}, ss[i]? = some s → ∃ s', ss'[i]? = some s' ∧ s'.id = s.id
  back : ∀ {i : Nat} {s' : Stream}, ss'[i]? = some s' → ∃ s, ss[i]? = some s ∧ s'.id = s.id ∧ R s s'

theorem abreast_set {ss : List Stream} (hi : ss[i]? = some s) (hid : s'.id = s.id) :
    Abreast (fun t t' => t' = t ∨ t = s ∧ t' = s') ss (ss.set i s') := by
  refine ⟨fun {j t} hj => ?_,fun {j t} hj => ?_⟩
  · rw [getElem?_set_of hi]
    split
    · rename_i hji
      rw [hji,hi] at hj
      cases hj
      exact ⟨s',rfl,hid⟩
    · exact ⟨t,hj,rfl⟩
  · rw [getElem?_set_of hi] at hj
    split at hj
    · rename_i hji
      cases hj
      exact ⟨s,hji ▸ hi,hid,.inr ⟨rfl,rfl⟩⟩
    · exact ⟨t,hj,rfl,.inl rfl⟩

theorem Registry.pair {R : Stream → Stream → Prop} (h : c.Registry) (hc : c.SameSite c')
    (hp : Abreast R c.streams c'.streams)
    (hidle : ∀ {s s' : Stream}, R s s' → s.id = none → s.Fresh c.options c.peer ∧ s.remote = false →
      s'.Fresh c.options c.peer ∧ s'.remote = false)
    (hheld : ∀ {s s' : Stream} {id : StreamId}, R s s' → s.id = some id → c.Holds id s →
      c.Holds id s') : c'.Registry where
  numbered d := by
    rw [hc.nextLocal]
    exact h.numbered d
  unique hi hj hx heq := by
    obtain ⟨s,hi₀,hs,-⟩ := hp.back hi
    obtain ⟨t,hj₀,ht,-⟩ := hp.back hj
    exact h.unique hi₀ hj₀ (hs ▸ hx) (by rw [← hs,← ht,heq])
  idle hi hid := by
    obtain ⟨s,hi₀,hs,hr⟩ := hp.back hi
    rw [hc.options,hc.peer]
    exact hidle hr (hs ▸ hid) (h.idle hi₀ (hs ▸ hid))
  held hi hid := by
    obtain ⟨s,hi₀,hs,hr⟩ := hp.back hi
    exact (hheld hr (hs ▸ hid) (h.held hi₀ (hs ▸ hid))).congr hc
  complete hk := by
    rw [hc.nextLocal] at hk
    obtain ⟨i,s,hi,hid⟩ := h.complete hk
    obtain ⟨s',hi',hs⟩ := hp.forth hi
    rw [hc.role]
    exact ⟨i,s',hi',hs.trans hid⟩

theorem Registry.congr (h : c.Registry) (hc : c.SameSite c') (hs : c'.streams = c.streams) :
    c'.Registry := by
  have hp : Abreast Eq c.streams c'.streams := by
    rw [hs]
    exact ⟨fun hi => ⟨_,hi,rfl⟩,fun hi => ⟨_,hi,rfl,rfl⟩⟩
  exact h.pair hc hp (fun hr _ hf => hr ▸ hf) (fun hr _ hh => hr ▸ hh)

theorem Registry.set (h : c.Registry) (hc : c.SameSite c') (hi : c.streams[i]? = some s)
    (hs : c'.streams = c.streams.set i s') (hid : s'.id = s.id)
    (hidle : s.id = none → s'.Fresh c.options c.peer ∧ s'.remote = false)
    (hheld : ∀ id, s.id = some id → c.Holds id s') : c'.Registry := by
  refine h.pair hc (hs ▸ abreast_set hi hid) ?_ ?_
  · rintro t t' (rfl | ⟨rfl,rfl⟩) ht hf
    · exact hf
    · exact hidle ht
  · rintro t t' id (rfl | ⟨rfl,rfl⟩) ht hh
    · exact hh
    · exact hheld id ht

theorem Tabled.keep (h : c.Tabled) (hr : c'.role = c.role) (ho : c'.options = c.options)
    (hp : c'.peer = c.peer) (ht : c'.table = c.table) (hl : c'.activeLocal = c.activeLocal)
    (hm : c'.activeRemote = c.activeRemote) (hi : c.streams[i]? = some s)
    (hs : c'.streams = c.streams.set i s') (hid : s'.id = s.id) (hrel : s'.released = s.released) :
    c'.Tabled := by
  refine ⟨?_,?_,?_,?_,?_⟩
  · intro id j
    rw [ht,h.iff,hs,getElem?_set_of hi]
    by_cases hji : j = i
    · subst hji
      simp [hi,hid,hrel]
    · simp [hji]
  · rw [ht]
    exact h.distinct
  · intro remote d
    rw [hl,hm,ht,hr]
    exact h.counted remote d
  · intro d
    rw [hl,hp]
    exact h.within d
  · intro d
    rw [hm,ho]
    exact h.admitted d

theorem Tabled.countP_filter {id : StreamId} (h : c.Tabled) (hu : c.Registry)
    (hi : c.streams[i]? = some s) (hid : s.id = some id) (hrel : s.released = false)
    (p : StreamId × Nat → Bool) :
    (c.table.filter fun entry => entry.1 ≠ id).countP p =
      c.table.countP p - if p (id, i) then 1 else 0 := by
  have hmem : (id, i) ∈ c.table := h.iff.mpr ⟨s,hi,hid,hrel⟩
  have hf : (c.table.filter fun entry => decide (entry.1 ≠ id)) = c.table.erase (id, i) := by
    rw [h.distinct.erase_eq_filter]
    refine List.filter_congr fun entry he => ?_
    obtain ⟨id',j⟩ := entry
    by_cases hx : id' = id
    · subst hx
      obtain ⟨t,hj,ht,-⟩ := h.iff.mp he
      obtain rfl := hu.unique hi hj (by simp [hid]) (by rw [hid,ht])
      simp
    · simp [hx]
  rw [hf,List.countP_erase]
  simp [hmem]

theorem Tabled.release {id : StreamId}
    (h : c.Tabled) (hu : c.Registry) (hr : c'.role = c.role) (ho : c'.options = c.options)
    (hp : c'.peer = c.peer) (hi : c.streams[i]? = some s) (hid : s.id = some id)
    (hrel : s.released = false)
    (hs : c'.streams = c.streams.set i s') (hid' : s'.id = some id) (hrel' : s'.released = true)
    (ht : c'.table = c.table.filter fun entry => entry.1 ≠ id)
    (ha : ∀ remote d, (if remote then c'.activeRemote else c'.activeLocal).get d =
      (if remote then c.activeRemote else c.activeLocal).get d -
        if remote = s.remote ∧ d = id.direction then 1 else 0) : c'.Tabled := by
  have hh := hu.held hi hid
  refine ⟨?_,?_,?_,?_,?_⟩
  · intro id' j
    rw [ht,List.mem_filter,h.iff,hs,getElem?_set_of hi]
    by_cases hji : j = i
    · subst hji
      constructor
      · rintro ⟨⟨t,hj,ht',-⟩,hne⟩
        cases hi.symm.trans hj
        cases hid.symm.trans ht'
        simp at hne
      · rintro ⟨t,hj,-,hr'⟩
        cases (if_pos rfl).symm.trans hj
        cases hrel'.symm.trans hr'
    · simp only [if_neg hji]
      constructor
      · rintro ⟨hx,-⟩
        exact hx
      · rintro ⟨t,hj,ht',hr'⟩
        refine ⟨⟨t,hj,ht',hr'⟩,?_⟩
        simp only [decide_eq_true_eq]
        rintro rfl
        exact hji (hu.unique hj hi (by simp [ht']) (by rw [ht',hid]))
  · rw [ht]
    exact h.distinct.filter _
  · intro remote d
    rw [ht,h.countP_filter hu hi hid hrel,ha,h.counted,hr]
    congr 1
    simp only [counts,hh.remote,Bool.and_eq_true,beq_iff_eq,decide_eq_true_eq]
    by_cases hx : remote = decide (id.initiator ≠ c.role) <;> by_cases hy : d = id.direction <;>
      simp [hx,hy,eq_comm]
  · intro d
    have hz := ha false d
    simp only [Bool.false_eq_true,if_false] at hz
    rw [hz,hp]
    exact (Nat.sub_le _ _).trans (h.within d)
  · intro d
    have hz := ha true d
    simp only [if_true] at hz
    rw [hz,ho]
    exact (Nat.sub_le _ _).trans (h.admitted d)

theorem Queued.pair {R : Stream → Stream → Prop} (h : c.Queued)
    (hp : Abreast R c.streams c'.streams)
    (hc : ∀ f ∈ c'.controlQueue, f ∈ c.controlQueue ∨ f.Overtakes)
    (hd : ∀ q ∈ c'.dataQueue, q ∈ c.dataQueue ∨
      ∃ (i : Nat) (s : Stream) (id : StreamId) (fin : Bool)
      (data : Bytes), c.streams[i]? = some s ∧ s.id = some id ∧ q = ⟨.stream id fin data, some i⟩) :
    c'.Queued := by
  refine ⟨fun f hf => (hc f hf).elim (h.control f) id,fun q hq => ?_⟩
  rcases hd q hq with hq | ⟨i,s,id,fin,data,hi,hid,rfl⟩
  · rcases h.data q hq with hx | ⟨i,s,id,fin,data,ho,hi,hid,hf⟩
    · exact .inl hx
    · obtain ⟨s',hi',hs⟩ := hp.forth hi
      exact .inr ⟨i,s',id,fin,data,ho,hi',hs.trans hid,hf⟩
  · obtain ⟨s',hi',hs⟩ := hp.forth hi
    exact .inr ⟨i,s',id,fin,data,rfl,hi',hs.trans hid,rfl⟩

theorem Lives.set (h : c.Lives) (hi : c.streams[i]? = some s) (hs : c'.streams = c.streams.set i s')
    (hp : c'.phase = c.phase) (hw : c'.shutdownWrites = c.shutdownWrites)
    (hr : c'.closeReceived = c.closeReceived) (ht : c.table = [] → c'.table = [])
    (he : c.phase = .active → s'.error = none) : c'.Lives := by
  refine ⟨?_,?_,?_,?_,?_⟩
  · intro hx
    rw [hp,hw] at hx
    exact ht (h.still hx)
  · intro hx
    rw [hp] at hx
    rw [(h.unopened hx).1] at hi
    cases hi
  · rw [hr,hp]
    exact h.closing
  · intro hx j t hj
    rw [hp] at hx
    rw [hs,getElem?_set_of hi] at hj
    split at hj
    · cases hj
      exact he hx
    · exact h.healthy hx hj
  · rw [hw,hp]
    exact h.shut

theorem release_spec {id : StreamId} (hi : c.streams[i]? = some s) (hid : s.id = some id)
    (hl : s.released = false) :
    (c.release i).streams = c.streams.set i s.settle ∧
    (s.settle.released = false → c.release i = c) ∧
    (s.settle.released = true →
      (c.release i).table = (c.table.filter fun entry => entry.1 ≠ id) ∧
      ∀ remote d,
        (if remote then (c.release i).activeRemote else (c.release i).activeLocal).get d =
          (if remote then c.activeRemote else c.activeLocal).get d -
            if remote = s.remote ∧ d = id.direction then 1 else 0) := by
  unfold release
  simp only [hi,hid]
  cases hd : s.localDone && s.remoteDone with
  | false =>
    have hx : s.settle = s := by simp [Stream.settle,hd]
    simp only [hl,Bool.false_or,Bool.not_false,if_true,hx]
    refine ⟨?_,fun _ => trivial,by simp⟩
    refine List.ext_getElem? fun j => ?_
    rw [getElem?_set_of hi]
    split
    · rename_i hji
      rw [hji,hi]
    · rfl
  | true =>
    have hx : s.settle = { s with released := true } := by simp [Stream.settle,hd]
    simp only [hl,Bool.false_or,Bool.not_true,Bool.false_eq_true,if_false,hx,modify_eq hi]
    refine ⟨by rw [setActive_eq],by simp,fun _ => ⟨by rw [setActive_eq],?_⟩⟩
    intro remote d
    unfold setActive
    cases hr : s.remote <;> cases remote <;> simp [PerDirection.get_set] <;>
      split <;> simp_all

theorem streams_release {ss : List Stream} {id : StreamId} {t : Stream} (hi : ss[i]? = some t)
    (hc : c.streams = ss.set i s) (hid : s.id = some id) (hl : s.released = false) :
    (c.release i).streams = ss.set i s.settle := by
  have hi' : c.streams[i]? = some s := by rw [hc,getElem?_set_of hi,if_pos rfl]
  rw [(release_spec hi' hid hl).1,hc,List.set_set]

theorem Sound.owner_iff {q : Outgoing} {id : StreamId} (h : c.Sound) (hi : c.streams[i]? = some s)
    (hid : s.id = some id) (hq : q ∈ c.dataQueue) :
    q.owner = some i ↔ q.frame.streamId = some id := by
  rcases h.data q hq with ⟨ho,code,hx⟩ | ⟨j,t,id₁,fin,data,ho,hj,ht,hx⟩ <;> rw [ho,hx]
  · simp [Frame.streamId]
  · simp only [Frame.streamId,Option.some.injEq]
    constructor
    · rintro rfl
      cases hi.symm.trans hj
      exact Option.some.inj (ht.symm.trans hid)
    · rintro rfl
      exact h.unique hj hi (by simp [ht]) (by rw [ht,hid])

/-- What a stream has queued is what is about its id. -/
theorem Sound.purge {id : StreamId} (h : c.Sound) (hi : c.streams[i]? = some s)
    (hid : s.id = some id) :
    (c.dataQueue.filter fun q => q.owner ≠ some i) =
      c.dataQueue.filter fun q => q.frame.streamId ≠ some id :=
  List.filter_congr fun q hq => by simp [h.owner_iff hi hid hq]

/-- A stream in use has changed, and was taken out of use if both ends were done with it then. -/
theorem Sound.settle {s₁ : Stream} {id : StreamId} (h : c.Sound)
    (hi : c.streams[i]? = some s) (hid : s.id = some id) (hl : s.released = false)
    (hx : ∃ controlQueue dataQueue journal,
      x = { c with streams := c.streams.set i s₁, controlQueue, dataQueue, journal })
    (hid₁ : s₁.id = some id) (hl₁ : s₁.released = false) (hr₁ : s₁.remote = s.remote)
    (he₁ : s₁.error = s.error) (hheld : c.Holds id s₁.settle)
    (hc : ∀ f ∈ x.controlQueue, f ∈ c.controlQueue ∨ f.Overtakes)
    (hd : ∀ q ∈ x.dataQueue, q ∈ c.dataQueue ∨
      ∃ fin data, q = ⟨.stream id fin data, some i⟩) : (x.release i).Sound := by
  obtain ⟨controlQueue,dataQueue,journal,hx⟩ := hx
  have hxs : x.streams = c.streams.set i s₁ := by rw [hx]
  have hxi : x.streams[i]? = some s₁ := by rw [hxs,getElem?_set_of hi,if_pos rfl]
  obtain ⟨hst,hundone,hdone⟩ := release_spec hxi hid₁ hl₁
  rw [hxs,List.set_set] at hst
  have hsid : s₁.settle.id = s.id := by rw [Stream.settle_agrees,hid]; exact hid₁
  have hsite : c.SameSite (x.release i) := by
    rw [release_eq,hx]
    exact ⟨rfl,rfl,rfl,rfl,rfl⟩
  have htable : (x.release i).Tabled := by
    cases hrel : s₁.settle.released with
    | false =>
      have hsame : s₁.settle = s₁ := by
        rw [Stream.settle_agrees] at hrel ⊢
        simp only at hrel
        rw [hrel,← hl₁]
      rw [hsame] at hst hsid
      rw [hundone hrel] at hst ⊢
      exact h.toTabled.keep (by rw [hx]) (by rw [hx]) (by rw [hx]) (by rw [hx]) (by rw [hx])
        (by rw [hx]) hi hst hsid (hl₁.trans hl.symm)
    | true =>
      obtain ⟨ht,ha⟩ := hdone hrel
      refine h.toTabled.release h.toRegistry hsite.role hsite.options hsite.peer hi hid hl hst
        (hsid.trans hid) hrel (by rw [ht,hx]) ?_
      intro remote d
      rw [ha remote d,hr₁,hx]
  have hqueue : (x.release i).Queued := by
    refine h.toQueued.pair (hst ▸ abreast_set hi hsid) ?_ ?_ <;> rw [release_eq]
    · exact hc
    · exact fun q hq => (hd q hq).imp_right fun ⟨fin,data,hx⟩ => ⟨i,s,id,fin,data,hi,hid,hx⟩
  refine ⟨h.toRegistry.set hsite hi hst hsid ?_ ?_,htable,hqueue,?_⟩
  · simp [hid]
  · rintro id' hid'
    cases hid.symm.trans hid'
    exact hheld
  · refine h.toLives.set hi hst (by rw [release_eq,hx]) (by rw [release_eq,hx])
      (by rw [release_eq,hx]) ?_ ?_
    · intro ht
      have hmem : (id, i) ∈ c.table := h.iff.mpr ⟨s,hi,hid,hl⟩
      rw [ht] at hmem
      cases hmem
    · intro hp
      rw [Stream.settle_agrees]
      exact he₁.trans (h.healthy hp hi)

theorem Sound.change (h : c.Sound) (hi : c.streams[i]? = some s)
    (hx : ∃ controlQueue dataQueue journal,
      x = { c with streams := c.streams.set i s', controlQueue, dataQueue, journal })
    (hid : s'.id = s.id) (hrel : s'.released = s.released)
    (hidle : s.id = none → s'.Fresh c.options c.peer ∧ s'.remote = false)
    (hheld : ∀ id, s.id = some id → c.Holds id s')
    (he : s'.error = s.error) (hc : ∀ f ∈ x.controlQueue, f ∈ c.controlQueue ∨ f.Overtakes)
    (hd : ∀ q ∈ x.dataQueue, q ∈ c.dataQueue ∨
      ∃ id fin data, s.id = some id ∧ q = ⟨.stream id fin data, some i⟩) : x.Sound := by
  obtain ⟨controlQueue,dataQueue,journal,hx⟩ := hx
  have hst : x.streams = c.streams.set i s' := by rw [hx]
  have hsite : c.SameSite x := by
    rw [hx]
    exact ⟨rfl,rfl,rfl,rfl,rfl⟩
  refine ⟨h.toRegistry.set hsite hi hst hid hidle hheld,?_,
    h.toQueued.pair (hst ▸ abreast_set hi hid) hc fun q hq => ?_,?_⟩
  · exact h.toTabled.keep (by rw [hx]) (by rw [hx]) (by rw [hx]) (by rw [hx]) (by rw [hx])
      (by rw [hx]) hi hst hid hrel
  · exact (hd q hq).imp_right fun ⟨id,fin,data,hid,hx⟩ => ⟨i,s,id,fin,data,hi,hid,hx⟩
  · exact h.toLives.set hi hst (by rw [hx]) (by rw [hx]) (by rw [hx]) (by rw [hx]; exact id)
      fun hp => he.trans (h.healthy hp hi)

/-- What becomes of a stream that fails with its connection. -/
def Falls (s s' : Stream) : Prop :=
  ∃ error unwritten changes, s' = { s with error, released := true, unwritten, changes } ∧
    (error = s.error ∨ error.isSome) ∧ (s.released = false → error.isSome)

/-- All started streams are out of use, those that were not before with a failure. -/
def Fell (streams streams' : List Stream) : Prop :=
  ∀ i : Nat, (streams[i]? = none → streams'[i]? = none) ∧ ∀ s, streams[i]? = some s →
    ∃ s', streams'[i]? = some s' ∧ (s.id = none → s' = s) ∧ (s.id.isSome → Falls s s')

theorem getElem?_foldl_modify {α : Type} (l : List α) (place : α → Nat) (f : Stream → Stream)
    (ss : List Stream) (i : Nat) :
    ∃ n, (l.foldl (fun ss a => ss.modify (place a) f) ss)[i]? = ss[i]?.map f^[n] ∧
      (0 < n ↔ i ∈ l.map place) := by
  induction l generalizing ss with
  | nil => exact ⟨0,by simp,by simp⟩
  | cons a l ih =>
    obtain ⟨n,hn,hpos⟩ := ih (ss.modify (place a) f)
    rw [List.foldl_cons,hn,List.getElem?_modify]
    by_cases ha : place a = i
    · refine ⟨n + 1,?_,by simp [ha]⟩
      cases ss[i]? <;> simp [ha,Function.iterate_succ]
    · refine ⟨n,?_,?_⟩
      · cases ss[i]? <;> simp [ha]
      · simp only [List.map_cons,List.mem_cons,Ne.symm ha,false_or]
        exact hpos

theorem falls_lost (s : Stream) (e : Failure) :
    Falls s { s.fail e with released := true }.notify := by
  have herror : (s.fail e).error.isSome := by cases he : s.error <;> simp [Stream.fail,he]
  exact ⟨_,_,_,rfl,.inr herror,fun _ => herror⟩

theorem Falls.fail (h : Falls s s') (e : Failure) (unwritten : Nat) :
    Falls s { s'.fail e with released := true, unwritten }.notify := by
  obtain ⟨error,_,_,rfl,-⟩ := h
  have herror : (error.or (some e)).isSome := by cases error <;> rfl
  exact ⟨_,_,_,rfl,.inr herror,fun _ => herror⟩

theorem Falls.iterate {f : Stream → Stream} (h : Falls s s')
    (hf : ∀ s', Falls s s' → Falls s (f s')) (n : Nat) : Falls s (f^[n] s') := by
  induction n generalizing s' with
  | zero => exact h
  | succ n ih => exact ih (hf s' h)

theorem Tabled.fell_failStreams (h : c.Tabled) (e : Failure) :
    Fell c.streams (c.failStreams e).streams := by
  intro i
  obtain ⟨n,hn,hpos⟩ := getElem?_foldl_modify c.table (·.2)
    (fun s => { s.fail e with released := true }.notify) c.streams i
  have hst : (c.failStreams e).streams[i]? = c.streams[i]?.map
      (fun s : Stream => { s.fail e with released := true }.notify)^[n] := by
    rw [← hn]
    simp only [failStreams,foldl_modify_eq]
    rfl
  refine ⟨fun hi => by rw [hst,hi]; rfl,fun s hi => ⟨_,by rw [hst,hi]; rfl,?_,?_⟩⟩
  · intro hid
    cases n with
    | zero => rfl
    | succ n =>
      obtain ⟨⟨id,j⟩,hmem,rfl⟩ := List.mem_map.mp (hpos.mp (by omega))
      obtain ⟨t,hj,ht,-⟩ := h.iff.mp hmem
      cases hi.symm.trans hj
      cases hid.symm.trans ht
  · intro hsome
    obtain ⟨id,hid⟩ := Option.isSome_iff_exists.mp hsome
    cases n with
    | zero =>
      have hr : s.released = true := by
        by_contra hr
        have hmem : (id, i) ∈ c.table := h.iff.mpr ⟨s,hi,hid,Bool.eq_false_of_not_eq_true hr⟩
        exact absurd (hpos.mpr (List.mem_map.mpr ⟨_,hmem,rfl⟩)) (Nat.lt_irrefl 0)
      exact ⟨s.error,s.unwritten,s.changes,by simp [← hr],.inl rfl,by simp [hr]⟩
    | succ n => exact (falls_lost s e).iterate (fun s' hx => hx.fail e s'.unwritten) n

/-- Streams whose frames are lost fail too. -/
theorem Sound.fell_abort (h : c.Sound) (e : Failure) (hp : c.phase ≠ .closed) :
    Fell c.streams (c.abort e).streams := by
  intro i
  have ht : ({ c with phase := .closed, error := some e } : Connection).Tabled :=
    { h with }
  obtain ⟨hnone,hsome⟩ := ht.fell_failStreams e i
  generalize hlost : ({ c with phase := .closed, error := some e } : Connection).failStreams e = c₁
    at hnone hsome
  have hq : c₁.dataQueue = c.dataQueue := by
    rw [← hlost,failStreams_eq]
  obtain ⟨n,hn,hpos⟩ := getElem?_foldl_modify (c.dataQueue.filterMap (·.owner)) (fun i => i)
    (fun s => { s.fail e with unwritten := 0 }.notify) c₁.streams i
  have hst : (c.abort e).streams[i]? = c₁.streams[i]?.map
      (fun s : Stream => { s.fail e with unwritten := 0 }.notify)^[n] := by
    rw [← hn]
    simp only [abort,if_neg hp,hlost,hq]
    rw [foldl_modify_eq _ _ (fun i => i)]
  refine ⟨fun hi => by rw [hst,hnone hi]; rfl,fun s hi => ?_⟩
  obtain ⟨s₁,hi₁,hidle,hfalls⟩ := hsome s hi
  refine ⟨_,by rw [hst,hi₁]; rfl,?_,?_⟩
  · intro hid
    cases n with
    | zero => exact hidle hid
    | succ n =>
      -- only started streams have frames in the queue
      obtain ⟨q,hmem,ho⟩ := List.mem_filterMap.mp (by simpa using hpos.mp (by omega))
      rcases h.data q hmem with ⟨hq',-⟩ | ⟨j,t,id,_,_,ho',hj,ht',-⟩
      · cases hq'.symm.trans ho
      · cases ho'.symm.trans ho
        cases hi.symm.trans hj
        cases hid.symm.trans ht'
  · intro hx
    refine (hfalls hx).iterate (fun s' hx => ?_) n
    have hcleared := hx.fail e 0
    obtain ⟨_,_,_,rfl,-⟩ := hx
    cases s.error <;> exact hcleared

theorem Falls.id (h : Falls s s') : s'.id = s.id := by
  obtain ⟨_,_,_,rfl,-⟩ := h
  rfl

theorem Falls.sound {window : UInt64} (h : Falls s s') (hs : s.Sound window) : s'.Sound window := by
  obtain ⟨error,_,_,rfl,h₁,h₂⟩ := h
  refine { hs with balance := by simp, undone := by simp, spent := fun _ => ?_ }
  cases hr : s.released with
  | false => exact .inr (h₂ hr)
  | true =>
    rcases hs.spent hr with hd | hd
    · exact .inl hd
    · exact .inr (h₁.elim (fun he => he ▸ hd) fun he => he)

theorem Fell.of_some {ss ss' : List Stream} (h : Fell ss ss') (hi : ss'[i]? = some s') :
    ∃ s, ss[i]? = some s ∧ s'.id = s.id ∧ (s.id = none → s' = s) ∧
      (s.id.isSome → Falls s s') := by
  obtain ⟨hnone,hsome⟩ := h i
  cases hs : ss[i]? with
  | none =>
    cases (hnone hs).symm.trans hi
  | some s =>
    obtain ⟨t,ht,h₁,h₂⟩ := hsome s hs
    cases hi.symm.trans ht
    refine ⟨s,rfl,?_,h₁,h₂⟩
    cases hid : s.id with
    | none => rw [h₁ hid,hid]
    | some id => rw [(h₂ (by simp [hid])).id,hid]

theorem Sound.fall (h : c.Sound) (hf : Fell c.streams c'.streams) (hsite : c.SameSite c')
    (ht : c'.table = []) (hl : c'.activeLocal = .both 0) (hm : c'.activeRemote = .both 0)
    (ha : c'.phase ≠ .active) (hn : c'.phase ≠ .connecting)
    (hc : ∀ f ∈ c'.controlQueue, f ∈ c.controlQueue) (hd : ∀ q ∈ c'.dataQueue, q ∈ c.dataQueue) :
    c'.Sound := by
  have hpair : Abreast (fun s s' => (s.id = none → s' = s) ∧ (s.id.isSome → Falls s s')) c.streams
      c'.streams := by
    refine ⟨fun {i s} hi => ?_,fun hi => hf.of_some hi⟩
    obtain ⟨s',hi',-⟩ := (hf i).2 s hi
    obtain ⟨t,ht,hid,-⟩ := hf.of_some hi'
    cases hi.symm.trans ht
    exact ⟨s',hi',hid⟩
  refine ⟨h.toRegistry.pair hsite hpair ?_ ?_,⟨?_,ht ▸ List.nodup_nil,?_,by simp [hl],by simp [hm]⟩,
    h.toQueued.pair hpair (fun f hx => .inl (hc f hx)) (fun q hx => .inl (hd q hx)),
    ⟨fun _ => ht,fun hx => absurd hx hn,fun _ => ha,fun hx => absurd hx ha,fun _ => ?_⟩⟩
  · rintro s s' ⟨hidle,-⟩ hid hs
    exact hidle hid ▸ hs
  · rintro s s' id ⟨-,hfalls⟩ hid hh
    have hfs := hfalls (by simp [hid])
    refine ⟨?_,?_,?_,?_,?_,hfs.sound hh.sound⟩
    all_goals
      obtain ⟨_,_,_,rfl,-⟩ := hfs
    exacts [hh.direction,hh.remote,hh.below,hh.mute,hh.measured]
  · intro id i
    rw [ht]
    refine ⟨fun hx => absurd hx List.not_mem_nil,?_⟩
    rintro ⟨s',hi,hid,hr⟩
    obtain ⟨s,-,hs,-,hfalls⟩ := hf.of_some hi
    obtain ⟨_,_,_,rfl,-⟩ := hfalls (by rw [← hs,hid]; rfl)
    cases hr
  · intro remote d
    rw [ht,hl,hm]
    simp
  · cases hp : c'.phase
    · exact absurd hp hn
    · exact absurd hp ha
    · exact .inl rfl
    · exact .inr rfl

theorem Tends.holds {id : StreamId} {update : Option Frame}
    (ht : s.Tends c.options.window s' update) (hid : s.id = some id) (h : c.Holds id s) :
    c.Holds id s' := by
  have ha := ht.agrees
  refine ⟨ha.direction.trans h.direction,ha.remote.trans h.remote,?_,?_,
    ha.threshold.trans h.measured,ht.sound (by simp [hid]) h.sound⟩
  · rw [ha.remote]
    exact h.below
  · intro hw
    rw [ha.sent]
    refine h.mute ?_
    rw [← hw,Stream.hasWriteSide,Stream.hasWriteSide,ha.direction,ha.remote]

theorem mem_enqueueControl {f : Frame} (h : g ∈ (c.enqueueControl f).controlQueue) :
    g ∈ c.controlQueue ∨ g = f := by
  unfold enqueueControl at h
  split at h
  · exact .inl h
  · simpa using h

theorem mem_enqueueControl? {f : Option Frame} (h : g ∈ (c.enqueueControl? f).controlQueue) :
    g ∈ c.controlQueue ∨ f = some g := by
  cases f with
  | none => exact .inl h
  | some f =>
    rcases mem_enqueueControl h with h | h
    · exact .inl h
    · exact .inr (by rw [h])

theorem Sound.not_closed {id : StreamId} (h : c.Sound) (hi : c.streams[i]? = some s)
    (hid : s.id = some id) (hl : s.released = false) :
    c.phase ≠ .closed ∧ c.shutdownWrites = false := by
  have hmem : (id, i) ∈ c.table := h.iff.mpr ⟨s,hi,hid,hl⟩
  constructor
  · intro hp
    rw [h.still (.inl hp)] at hmem
    cases hmem
  · by_contra hw
    rw [h.still (.inr (Bool.eq_true_of_not_eq_false hw))] at hmem
    cases hmem

/-- Nothing has changed but the queues, the phase and what no rule depends on. -/
theorem Sound.congr (h : c.Sound) (hc : c.SameSite c') (hs : c'.streams = c.streams)
    (ht : c'.table = c.table) (hl : c'.activeLocal = c.activeLocal)
    (hm : c'.activeRemote = c.activeRemote) (hq : c'.Queued) (hp : c'.Lives) : c'.Sound := by
  refine ⟨h.toRegistry.congr hc hs,⟨?_,?_,?_,?_,?_⟩,hq,hp⟩
  · rw [ht,hs]
    exact h.iff
  · rw [ht]
    exact h.distinct
  · rw [ht,hl,hm,hc.role]
    exact h.counted
  · rw [hl,hc.peer]
    exact h.within
  · rw [hm,hc.options]
    exact h.admitted

end Connection

end Multiplex
