import Multiplex.Proofs.Accord

/-!
What an end utters about each stream, whatever its peer sends: nothing after RESET, no data after
the end of the data, no empty grants, and data only where it may write.
-/

namespace Multiplex

variable {s : Stream} {id : StreamId} {a : Seat}

def Frame.Admits : Frame → Frame → Prop
  | .reset .., _ => False
  | .stream _ true _, .stream .. => False
  | _, _ => True

/-- Whether an end where the stream `id` has the given seat can have said the frame. -/
def Frame.Backed (id : StreamId) (seat : Seat) : Frame → Prop
  | .stream x fin _ =>
    x = id ∧ ∃ s, seat = .taken s ∧ s.hasWriteSide = true ∧ (fin = true → s.finQueued = true)
  | .windowUpdate x n => x = id ∧ 0 < n ∧ ∃ s, seat = .taken s
  | .reset x _ => x = id ∧ seat.Reset
  | .settings _ | .ping _ | .pong _ | .close _ => False

/-- How a seat can change so that it stands by what was said. -/
def Seat.Leads : Seat → Seat → Prop
  | .unseen, _ => True
  | .passed, b => b = .passed
  | .taken s, b => ∃ s', b = .taken s' ∧ s'.hasWriteSide = s.hasWriteSide ∧
    (s.finQueued = true → s'.finQueued = true) ∧ (s.resetCode.isSome → s'.resetCode.isSome) ∧
    (s.released = true → s'.released = true)

theorem Seat.Leads.refl (a : Seat) : a.Leads a := by
  cases a with
  | unseen => trivial
  | passed => rfl
  | taken s => exact ⟨s,rfl,rfl,id,id,id⟩

theorem Seat.Leads.of_settle (h : a.Leads (.taken s)) : a.Leads (.taken s.settle) := by
  cases a with
  | unseen => trivial
  | passed => cases h
  | taken s₀ =>
    obtain ⟨_,⟨⟩,hw,hq,hr,hl⟩ := h
    rw [Stream.settle_agrees]
    exact ⟨_,rfl,hw,hq,hr,fun hx => by simp [hl hx]⟩

theorem Frame.Backed.lead {b : Seat} {f : Frame} (h : f.Backed id a) (hl : a.Leads b) :
    f.Backed id b := by
  cases f with
  | stream x fin data =>
    obtain ⟨hx,s,rfl,hw,hq⟩ := h
    obtain ⟨s',rfl,hw',hq',-,-⟩ := hl
    exact ⟨hx,s',rfl,hw'.trans hw,fun hf => hq' (hq hf)⟩
  | windowUpdate x n =>
    obtain ⟨hx,hn,s,rfl⟩ := h
    obtain ⟨s',rfl,-⟩ := hl
    exact ⟨hx,hn,s',rfl⟩
  | reset x code =>
    obtain ⟨hx,hr⟩ := h
    refine ⟨hx,?_⟩
    cases a with
    | unseen => exact hr.elim
    | passed => rw [hl]; trivial
    | taken s =>
      obtain ⟨s',rfl,-,-,hr',hl'⟩ := hl
      exact ⟨hr' hr.1,hl' hr.2⟩
  | settings | ping | pong | close => exact h

structure Told (id : StreamId) (seat : Seat) (t : List Frame) : Prop where
  order : t.Pairwise Frame.Admits
  backed : ∀ f ∈ t, f.Backed id seat

section Parts

variable {w : List Frame} {x : Site} {calm : Bool} {f : Frame} {p p' : Part}

namespace Told

variable {b : Seat} {s' : Stream} {t t' k d : List Frame}

theorem silent (h : Told id .unseen t) : t = [] := by
  refine List.eq_nil_iff_forall_not_mem.mpr fun f hf => ?_
  have hb := h.backed f hf
  cases f with
  | stream => obtain ⟨-,_,hx,-⟩ := hb; cases hx
  | windowUpdate => obtain ⟨-,-,_,hx⟩ := hb; cases hx
  | reset => exact hb.2
  | settings | ping | pong | close => exact hb

theorem cut (h : Told id a t) (ht : t'.Sublist t) (hl : a.Leads b) : Told id b t' :=
  ⟨h.order.sublist ht,fun f hf => (h.backed f (ht.subset hf)).lead hl⟩

theorem lead (h : Told id a t) (hl : a.Leads b) : Told id b t := h.cut (.refl t) hl

theorem insert (h : Told id a (k ++ d)) (hl : a.Leads b) (hf : f.Backed id b)
    (before : ∀ g ∈ k, g.Admits f) (after : ∀ g ∈ d, f.Admits g) : Told id b (k ++ f :: d) := by
  obtain ⟨hk,hd,hkd⟩ := List.pairwise_append.mp h.order
  refine ⟨List.pairwise_append.mpr ⟨hk,List.pairwise_cons.mpr ⟨after,hd⟩,?_⟩,?_⟩
  · intro g hg g' hg'
    rcases List.mem_cons.mp hg' with rfl | hg'
    · exact before g hg
    · exact hkd g hg g' hg'
  · intro g hg
    rcases List.mem_append.mp hg with hg | hg
    · exact (h.backed g (List.mem_append_left _ hg)).lead hl
    · rcases List.mem_cons.mp hg with rfl | hg
      · exact hf
      · exact (h.backed g (List.mem_append_right _ hg)).lead hl

theorem admits (h : Told id (.taken s) t) (hl : s.released = false) {g : Frame} (hf : f ∈ t)
    (hg : s.finQueued = false ∨ ∀ x fin data, g ≠ .stream x fin data) : f.Admits g := by
  have hb := h.backed f hf
  cases f with
  | stream x fin data =>
    cases fin with
    | false => trivial
    | true =>
      obtain ⟨-,_,⟨⟩,-,hq⟩ := hb
      cases g with
      | stream y fin' data' =>
        rcases hg with hg | hg
        · cases (hq rfl).symm.trans hg
        · exact absurd rfl (hg y fin' data')
      | windowUpdate | reset | settings | ping | pong | close => trivial
  | reset x code =>
    cases hb.2.2.symm.trans hl
  | windowUpdate | settings | ping | pong | close => trivial

theorem announce {update : Option Frame} (h : Told id (.taken s) (w ++ (k ++ d)))
    (hid : s.id = some id) (hl : (Seat.taken s).Leads (.taken s'))
    (hu : ∀ f ∈ update, ∃ x n, s.id = some x ∧ f = .windowUpdate x n)
    (positive : ∀ x n, update = some (.windowUpdate x n) → 0 < n)
    (live : update.isSome → s.released = false) :
    Told id (.taken s') (w ++ (k ++ update.toList ++ d)) := by
  cases update with
  | none =>
    rw [Option.toList_none,List.append_nil]
    exact h.lead hl
  | some f =>
    obtain ⟨x,n,hx,rfl⟩ := hu f rfl
    cases hid.symm.trans hx
    rw [← List.append_assoc] at h
    have hin (g : Frame) (hg : g ∈ w ++ k) : g.Admits (.windowUpdate id n) :=
      h.admits (live rfl) (List.mem_append_left d hg) (.inr (by simp))
    have hnew := h.insert hl (f := .windowUpdate id n) ⟨rfl,positive id n rfl,s',rfl⟩ hin
      fun _ _ => trivial
    simpa using hnew

theorem speak {fin : Bool} {data : Bytes} (h : Told id (.taken s) (w ++ (k ++ d)))
    (hs : s.released = false) (hw : s.writeError = none) (hl : (Seat.taken s).Leads (.taken s'))
    (hfin : fin = true → s'.finQueued = true) :
    Told id (.taken s') (w ++ (k ++ (d ++ [.stream id fin data]))) := by
  obtain ⟨hside,-,-,-,hq⟩ := Stream.writeError_eq_none_iff.mp hw
  have hside' : s'.hasWriteSide = true := by
    obtain ⟨_,⟨⟩,hx,-⟩ := hl
    exact hx.trans hside
  have hin (g : Frame) (hg : g ∈ w ++ (k ++ d)) : g.Admits (.stream id fin data) :=
    h.admits hs hg (.inl hq)
  rw [← List.append_nil (w ++ (k ++ d))] at h
  have hnew := h.insert hl (f := .stream id fin data) ⟨rfl,s',rfl,hside',hfin⟩ hin (by simp)
  simpa using hnew

theorem step (h : Told x.id p.seat (p.trail w)) (hs : Part.Step x calm p p') (hp : p.Sound x) :
    Told x.id p'.seat (p'.trail w) := by
  cases hs with
  | start => exact h.lead trivial
  | @tend s s' update k d ht =>
    have ha := ht.agrees
    have hside : s'.hasWriteSide = s.hasWriteSide := by
      simp only [Stream.hasWriteSide,ha.direction,ha.remote]
    have hpos := (hp.sound s rfl).threshold_pos
    refine h.announce (hp.id s rfl) ⟨s',rfl,hside,?_,?_,?_⟩ ht.announced (ht.positive hpos) ?_
    · exact fun hx => ha.finQueued.trans hx
    · exact fun hx => by rwa [ha.resetCode]
    · exact fun hx => ha.released.trans hx
    · intro hx
      by_contra hr
      rw [ht.silent (.inr (Bool.eq_true_of_not_eq_false hr))] at hx
      cases hx
  | @send s data k d hw =>
    exact h.speak ((hp.sound s rfl).live hw) hw ⟨_,rfl,rfl,id,id,id⟩ (by rintro ⟨⟩)
  | @finish s k d hw =>
    refine h.speak ((hp.sound s rfl).live hw) hw ?_ fun _ => ?_
    · exact Seat.Leads.of_settle ⟨_,rfl,rfl,fun _ => rfl,id,id⟩
    · rw [Stream.settle_agrees]
      rfl
  | @reset s code wire k d live =>
    have hin (g : Frame) (hg : g ∈ w ++ k) : g.Admits (.reset x.id wire) :=
      h.admits live (by
        rw [Part.trail,← List.append_assoc]
        exact List.mem_append_left d hg) (.inr (by simp))
    have hcut : Told x.id (.taken s) (w ++ k ++ []) := h.cut (by simp [Part.trail]) (.refl _)
    have hnew := hcut.insert (f := .reset x.id wire) (b := .taken (s.markReset code).settle)
      (Seat.Leads.of_settle ⟨_,rfl,rfl,id,fun _ => by simp [Stream.markReset],id⟩)
      ⟨rfl,Seat.reset_settle s code⟩ hin (by simp)
    simpa [Part.trail] using hnew
  | mark => exact h.lead ⟨_,rfl,rfl,id,fun _ => by simp [Stream.markReset],id⟩
  | @fail s s' k d k' d' stormy hfall hq =>
    obtain ⟨error,unwritten,changes,rfl,-,-⟩ := hfall
    refine h.cut ?_ ⟨_,rfl,rfl,id,id,fun _ => rfl⟩
    rcases hq with ⟨rfl,rfl⟩ | ⟨rfl,rfl⟩
    · exact .refl _
    · simp [Part.trail]
  | clear => exact h.cut (by simp [Part.trail]) (.refl _)

theorem arrive {m : Part} (h : Told x.id p.seat (p.trail w)) (ha : Part.Arrives x calm p m) :
    Told x.id m.seat (m.trail w) := by
  have hu := ha.seat.1
  rw [hu] at h
  have hnil := h.silent
  cases ha with
  | @refuse wire k d =>
    simp only [Part.trail,List.append_eq_nil_iff] at hnil
    obtain ⟨rfl,rfl,rfl⟩ := hnil
    exact ⟨by simp [Part.trail],by simp [Part.trail,Frame.Backed,Seat.Reset]⟩
  | pass | surface => exact h.lead trivial

theorem take (h : Told x.id p.seat (p.trail w)) (ht : Part.Takes x f p p') (hp : p.Sound x) :
    Told x.id p'.seat (p'.trail w) := by
  cases ht with
  | @data s s' fin data update k d reads hr last =>
    have hside : s'.hasWriteSide = s.hasWriteSide := by
      simp only [Stream.hasWriteSide,hr.direction,hr.remote]
    have hpos := (hp.sound s rfl).threshold_pos
    refine h.announce (hp.id s rfl) ⟨s',rfl,hside,?_,?_,?_⟩ hr.announced (hr.positive hpos)
      fun _ => hr.live
    · exact fun hx => hr.finQueued.trans hx
    · exact fun hx => by rwa [hr.resetCode]
    · intro hx
      cases hr.live.symm.trans hx
  | grant => exact h.lead ⟨_,rfl,rfl,id,id,id⟩
  | @reset s code wire unwritten changes k d live =>
    refine h.cut (by simp [Part.trail]) (Seat.Leads.of_settle ⟨_,rfl,rfl,id,?_,id⟩)
    exact fun _ => by simp [Stream.markReset]
  | drop => exact h

end Told

/-- What a stream has sent that is in use is among the frames `t` about it. -/
def Spoke (id : StreamId) (seat : Seat) (t : List Frame) : Prop :=
  ∀ s, seat = .taken s → s.released = false → s.resetCode = none → s.ledger.sent ≠ [] →
    ∃ fin data, .stream id fin data ∈ t

namespace Spoke

theorem keep {s s' : Stream} {t t' : List Frame} (h : Spoke id (.taken s) t)
    (hl : s'.released = false → s.released = false) (hr : s'.resetCode = none → s.resetCode = none)
    (hs : s'.ledger.sent = s.ledger.sent)
    (ht : ∀ fin data, .stream id fin data ∈ t → .stream id fin data ∈ t') :
    Spoke id (.taken s') t' := by
  rintro _ ⟨⟩ hl' hr' hs'
  obtain ⟨fin,data,hm⟩ := h s rfl (hl hl') (hr hr') (hs ▸ hs')
  exact ⟨fin,data,ht fin data hm⟩

theorem step (h : Spoke x.id p.seat (p.trail w)) (hs : Part.Step x calm p p') :
    Spoke x.id p'.seat (p'.trail w) := by
  cases hs with
  | start opener busy fresh =>
    rintro _ ⟨⟩ - - hx
    rw [fresh.ledger] at hx
    exact absurd rfl hx
  | @tend s s' update k d ht =>
    have ha := ht.agrees
    refine h.keep (fun hx => ha.released ▸ hx) (fun hx => ha.resetCode ▸ hx) ha.sent ?_
    intro fin data hm
    simp only [Part.trail,List.mem_append] at hm ⊢
    tauto
  | @send s data => exact fun _ _ _ _ _ => ⟨false,data,by simp [Part.trail]⟩
  | finish => exact fun _ _ _ _ _ => ⟨true,[],by simp [Part.trail]⟩
  | reset =>
    rintro _ ⟨⟩ hl
    rw [Stream.settle_markReset] at hl
    cases hl
  | mark stormy spent =>
    rintro _ ⟨⟩ hl
    cases spent.symm.trans hl
  | fail stormy hfall =>
    obtain ⟨error,unwritten,changes,rfl,-,-⟩ := hfall
    rintro _ ⟨⟩ ⟨⟩
  | clear stormy vacant => exact fun s hx => absurd hx (vacant s)

theorem arrive {m : Part} (ha : Part.Arrives x calm p m) : Spoke x.id m.seat (m.trail w) := by
  cases ha with
  | pass | refuse => rintro _ ⟨⟩
  | surface guest busy fresh =>
    rintro _ ⟨⟩ - - hx
    rw [fresh.ledger] at hx
    exact absurd rfl hx

theorem take (h : Spoke x.id p.seat (p.trail w)) (ht : Part.Takes x f p p') :
    Spoke x.id p'.seat (p'.trail w) := by
  cases ht with
  | @data s s' fin data update k d reads hr =>
    refine h.keep (fun _ => hr.live) (fun hx => hr.resetCode ▸ hx) hr.sent ?_
    intro fin data hm
    simp only [Part.trail,List.mem_append] at hm ⊢
    tauto
  | grant => exact h.keep id id rfl fun _ _ => id
  | reset =>
    rintro _ ⟨⟩ hl
    rw [Stream.settle_markReset] at hl
    cases hl
  | drop => exact h

end Spoke

/-- What an end has said about a stream, with all that it has sent. -/
structure Utters (id : StreamId) (seat : Seat) (t : List Frame) : Prop extends Told id seat t where
  spoke : Spoke id seat t

namespace Utters

theorem step (h : Utters x.id p.seat (p.trail w)) (hs : Part.Step x calm p p') (hp : p.Sound x) :
    Utters x.id p'.seat (p'.trail w) :=
  ⟨h.toTold.step hs hp,h.spoke.step hs⟩

theorem arrive (h : Utters x.id p.seat (p.trail w)) (ha : Part.Arrives x calm p p') :
    Utters x.id p'.seat (p'.trail w) :=
  ⟨h.toTold.arrive ha,Spoke.arrive ha⟩

theorem take (h : Utters x.id p.seat (p.trail w)) (ht : Part.Takes x f p p') (hp : p.Sound x) :
    Utters x.id p'.seat (p'.trail w) :=
  ⟨h.toTold.take ht hp,h.spoke.take ht⟩

end Utters

end Parts

namespace Connection

/-- Whether the data of streams that the end `role` opened begins in the order of their ids. -/
def Rising (role : Role) (o : List Frame) : Prop :=
  ∀ p x fin data q, o = p ++ .stream x fin data :: q → x.initiator = role →
    (∀ fin data, .stream x fin data ∉ p) → ∀ y fin data, .stream y fin data ∈ p →
      y.initiator = role → y.direction = x.direction → y.sequence.toNat < x.sequence.toNat

/-- All data of some streams is taken back. -/
theorem Rising.requeue {role : Role} {w u : List Frame} {keep : Frame → Bool} {heard : Option Frame}
    (h : Rising role (c.outline w)) (hs : c.Sound) (hq : Requeues heard c c' u keep) :
    Rising role (c'.outline w) := by
  refine Debuts.requeue h hs hq fun l x hl y fin bs hm => hl y fin bs ?_
  simp only [List.mem_append,List.mem_filter,hs.no_stream_in_control,hq.no_stream,false_or] at hm ⊢
  exact hm.imp_right And.left

/-- What a connection has said and is about to say. -/
structure Fluent (c : Connection) : Prop where
  utters : ∀ id, Utters id (c.seat id) (c.trail id c.journal.wire)
  rising : Rising c.role (c.outline c.journal.wire)

section Fluent

variable {c c' : Connection} {w : List Frame} {f : Frame} {i : Nat} {v : Violation}

theorem Enters.wire {heard : Option Frame} (h : Enters heard c c') :
    c'.journal.wire = c.journal.wire := by
  rw [Journal.wire,h.passage.1]
  rfl

theorem Utters.congr (h : Utters id (c.seat id) (c.trail id w)) (he : c'.part id = c.part id) :
    Utters id (c'.seat id) (c'.trail id w) := by
  rw [trail_eq] at h ⊢
  rw [he,show c'.seat id = c.seat id from congrArg Part.seat he]
  exact h

theorem Turns.utters (ht : Turns c c' id) (hs : c.Sound)
    (h : Utters id (c.seat id) (c.trail id w)) : Utters id (c'.seat id) (c'.trail id w) := by
  rcases ht with he | hstep
  · exact Utters.congr h he
  · rw [trail_eq] at h ⊢
    exact Utters.step h hstep (hs.part id)

theorem Hears.utters (hh : Hears f c c' id) (hs : c.Sound)
    (h : Utters id (c.seat id) (c.trail id w)) : Utters id (c'.seat id) (c'.trail id w) := by
  unfold Hears at hh
  split at hh
  · obtain ⟨m,hm,ht⟩ := hh
    rw [trail_eq] at h ⊢
    have hsound : m.Sound (c.site id) ∧ Utters id m.seat (m.trail (about id w)) := by
      rcases hm with rfl | ⟨-,ha⟩
      · exact ⟨hs.part id,h⟩
      · exact ⟨ha.sound (hs.part id),Utters.arrive h ha⟩
    exact Utters.take hsound.2 ht hsound.1
  · rcases hh with he | ⟨hg,hu,he⟩
    · exact Utters.congr h he
    · rw [trail_eq] at h ⊢
      have ha : Part.Arrives (c.site id) true (c.part id) (c'.part id) := by
        rw [he]
        simp only [part,hu]
        exact .pass hg
      exact Utters.arrive h ha

section

variable (h : c.Fluent)

include h

/-- What a stream sends for the first time comes after what the streams before it have sent. -/
theorem Fluent.rising_send (hs : c.Sound) (hv : c.Voiced) (hi : c.streams[i]? = some s)
    (hid : s.id = some id) (hw : s.writeError = none) (fin : Bool) (data : Bytes) :
    Rising c.role (c.outline c.journal.wire ++ [.stream id fin data]) := by
  refine Preludes.append h.rising ?_
  rintro x _ _ ⟨⟩ hx hfirst y fin' data' hm hy hd
  obtain ⟨-,t,hseat,-⟩ := (h.utters y).backed _ (mem_outline hm rfl)
  obtain ⟨ht,j,hj⟩ := (seat_eq_taken_iff hs.toRegistry).mp hseat
  have hbelow := (hs.held hj ht).below
  rw [(hs.held hj ht).remote,hy] at hbelow
  simp only [ne_eq,not_true_eq_false,decide_false,Bool.false_eq_true,if_false] at hbelow
  by_contra hle
  rcases Nat.lt_or_eq_of_le (Nat.le_of_not_lt hle) with hlt | heq
  · -- the stream is not the latest, so it has spoken before
    have hremote : s.remote = false := by simp [(hs.held hi hid).remote,hx]
    have hsent := hv i s id hi hid hremote (by rw [← hd]; omega)
    obtain ⟨-,-,-,hr,-⟩ := Stream.writeError_eq_none_iff.mp hw
    obtain ⟨fin₁,data₁,hm₁⟩ :=
      (h.utters id).spoke s ((seat_eq_taken_iff hs.toRegistry).mpr ⟨hid,i,hi⟩)
        ((hs.held hi hid).sound.live hw) hr hsent
    exact hfirst fin₁ data₁ (List.mem_filter.mp hm₁).1
  · obtain rfl : y = id := by
      rw [← StreamId.ofParts_self y,← StreamId.ofParts_self id,heq,hd,hx,hy]
    exact hfirst fin' data' hm

theorem Fluent.move (hs : c.Sound) (hv : c.Voiced) (hm : Move c c') : c'.Fluent := by
  have hw := (hm.enters hs).wire
  have hrole := hm.site.role
  refine ⟨?_,?_⟩
  · intro id
    rw [hw]
    exact (hm.turns hs id).utters hs (h.utters id)
  · rw [hw,hrole]
    cases hm.enters hs with
    | requeue hq => exact h.rising.requeue hs hq
    | @append f owner hd hk _ _ queued =>
      have hout : c'.outline c.journal.wire = c.outline c.journal.wire ++ [f] := by
        simp [outline,hk,hd]
      rw [hout]
      rcases queued with ⟨code,rfl,-⟩ | ⟨id,fin,data,i,s,rfl,hi,hid,hw,-⟩
      · exact Preludes.append h.rising (by simp)
      · exact h.rising_send hs hv hi hid hw fin data
    | discard hd hk =>
      refine Preludes.cut h.rising ?_
      simp [outline,hk,hd]

theorem Fluent.moves (hs : c.Sound) (hv : c.Voiced) (hm : Moves c c') : c'.Fluent := by
  induction hm with
  | refl => exact h
  | tail hm hstep ih =>
    have hv' := hv.grown (Moves.grown hm hs) (Moves.kept hm).nextLocal
    exact ih.move (Moves.sound hm hs) hv' hstep

theorem Fluent.start (hs : c.Sound) (hst : Start i c c') (hn : c'.Numbered) : c'.Fluent := by
  have hturns := hst.turns hs hn
  have hwire : c'.journal.wire = c.journal.wire ∧ c'.role = c.role ∧
      c'.outline c.journal.wire = c.outline c.journal.wire := by
    cases hst
    exact ⟨rfl,rfl,rfl⟩
  refine ⟨?_,?_⟩
  · intro id
    rw [hwire.1]
    exact (hturns id).utters hs (h.utters id)
  · rw [hwire.1,hwire.2.1,hwire.2.2]
    exact h.rising

theorem Fluent.take (hs : c.Sound) (ht : Take f c c') (hp : c.phase ≠ .connecting) : c'.Fluent := by
  have hw := (ht.enters hs).wire
  refine ⟨?_,?_⟩
  · intro id
    rw [hw]
    exact (ht.hears hs hp id).utters hs (h.utters id)
  · obtain ⟨u,keep,hq⟩ := ht.requeue hs
    rw [hw,ht.kept.role]
    exact h.rising.requeue hs hq

theorem Fluent.abort (hs : c.Sound) (e : Failure) : (c.abort e).Fluent := by
  by_cases hp : c.phase = .closed
  · rwa [Connection.abort,if_pos hp]
  · have hw := (enters_abort e hp).wire
    refine ⟨?_,?_⟩
    · intro id
      rw [hw]
      exact (hs.turns_abort e hp id).utters hs (h.utters id)
    · rw [hw,(kept_abort c e).role]
      refine Preludes.cut h.rising ?_
      rw [abort_eq c e hp]
      simp [outline]

end

/-- Whether each id keeps what is held of it, or the peer has got as far as it. -/
def Reaches (c c' : Connection) : Prop :=
  ∀ id, c'.part id = c.part id ∨
    ∃ calm, Part.Arrives (c.site id) calm (c.part id) (c'.part id)

theorem Reaches.trans {c₁ : Connection} (h : Reaches c c₁) (h' : Reaches c₁ c')
    (hsite : ∀ id, c₁.site id = c.site id) : Reaches c c' := by
  intro id
  rcases h id with he | ⟨calm,ha⟩
  · rcases h' id with he' | ⟨calm,ha⟩
    · exact .inl (he'.trans he)
    · rw [he,hsite] at ha
      exact .inr ⟨calm,ha⟩
  · rcases h' id with he' | ⟨calm',ha'⟩
    · rw [he']
      exact .inr ⟨calm,ha⟩
    · exact absurd ha'.seat.1 ha.seat.2

theorem reaches_reached (new : c.Unheard id) : Reaches c (c.reached id) := by
  intro id'
  rcases part_reached new id' with he | ⟨hg,hu,he⟩
  · exact .inl he
  · refine .inr ⟨true,?_⟩
    rw [he]
    simp only [part,hu]
    exact .pass hg

theorem reaches_surfaced (hs : c.Sound) (hx : Surfaces f c id) : Reaches c (c.surfaced id) := by
  obtain ⟨hself,hother⟩ := part_surfaced hs hx
  intro id'
  by_cases he : id' = id
  · subst he
    exact .inr ⟨_,hself⟩
  · rw [hother id' he]
    exact reaches_reached hx.new id'

theorem Breach.reaches (hb : Breach v f c c') (hs : c.Sound) :
    Reaches c c' ∧ c'.outline c.journal.wire = c.outline c.journal.wire := by
  induction hb with
  | beyondLimit hx => exact ⟨reaches_reached hx.new,rfl⟩
  | surface metrics changes hx _ ih =>
    obtain ⟨hr,ho⟩ := ih (hs.surface hx metrics changes)
    exact ⟨Reaches.trans (reaches_surfaced hs hx) hr fun _ => rfl,ho⟩
  | neverOpened | data | duplicateClose | lateSettings => exact ⟨fun _ => .inl rfl,rfl⟩

theorem Fluent.breach (h : c.Fluent) (hs : c.Sound) (hb : Breach v f c c') : c'.Fluent := by
  have hw := hb.enters.wire
  obtain ⟨hr,ho⟩ := hb.reaches hs
  refine ⟨?_,?_⟩
  · intro id
    rw [hw]
    rcases hr id with he | ⟨calm,ha⟩
    · exact Utters.congr (h.utters id) he
    · have hold := h.utters id
      rw [trail_eq] at hold ⊢
      exact Utters.arrive hold ha
  · rw [hw,hb.kept.role,ho]
    exact h.rising

theorem Fluent.ship (h : c.Fluent) {b : Batch} (hb : c.takeBatch = (some b, c')) : c'.Fluent := by
  have ho := outline_takeBatch hb c.journal.wire
  obtain ⟨n,-,rfl⟩ := takeBatch_spec hb
  rw [← Journal.wire_noteTaken] at ho
  refine ⟨?_,?_⟩
  · intro id
    have hold := h.utters id
    rw [trail,← ho] at hold
    exact hold
  · have hold := h.rising
    rw [← ho] at hold
    exact hold

/-- A connection that speaks as it should, whatever comes. -/
structure Versed (c : Connection) : Prop extends Fluent c where
  spoken : c.Spoken
  greeted : c.phase = .active → c.peer.Valid

theorem Versed.ready (h : c.Versed) (hs : c.Sound) (hp : c.phase = .active) : c.Ready := by
  have hv := h.greeted hp
  refine ⟨fun hi hid => ?_,fun _ => ?_⟩
  · rw [(hs.idle hi hid).1.credit]
    exact UInt64.pos_iff_ne_zero.mpr hv.1
  · exact Nat.lt_of_lt_of_le (by decide) (UInt64.le_iff_toNat_le.mp hv.2.2)

theorem Deed.greeted {meant : Prop} (hd : Deed meant c c') (h : c.phase = .active → c.peer.Valid)
    (hp : c'.phase = .active) : c'.peer.Valid := by
  cases hd with
  | move hm =>
    rw [hm.kept.peer]
    exact h (hm.active hp)
  | start hs hm =>
    rw [(Moves.kept hm).peer]
    obtain ⟨-,-,-,hactive,-⟩ := hs
    exact h hactive
  | take hc _ ht =>
    rw [((kept_hear c _ _).trans ht.kept).peer]
    exact h (ht.fades.phase.active hc hp)
  | endReads | shutOff => exact h hp
  | breach | abort => rw [abort_phase] at hp; cases hp
  | ship hb =>
    obtain ⟨_,_,_,rfl⟩ := takeBatch_eq hb
    exact h hp
  | establish peer valid => exact valid

theorem Versed.deed (h : c.Versed) (hd : Deed True c c') (hs : c.Sound) (hn : c'.Numbered) :
    c'.Versed := by
  have hgreeted := hd.greeted h.greeted
  have hvoiced : c.Voiced := Spoken.voiced h.spoken
  cases hd with
  | move hm => exact ⟨h.move hs hvoiced hm,(hm.grown hs).spoken h.spoken,hgreeted⟩
  | @start c₁ _ i hst hm speaks =>
    have hn₁ := hn.of_later (Moves.kept hm).later
    have hs₁ := hst.sound hs hn₁
    have hactive : c.phase = .active := by
      obtain ⟨-,-,-,hp,-⟩ := hst
      exact hp
    have hk := speaks ⟨h.ready hs hactive,trivial⟩
    exact ⟨(h.start hs hst hn₁).moves hs₁ (hst.voiced h.spoken hn₁) hm,
      hk.spoken h.spoken hst hs₁,hgreeted⟩
  | @take _ f size hp _ ht =>
    have hheard : (c.hear f size).Fluent := ⟨h.utters,h.rising⟩
    have hs' := hs.hear f size
    exact ⟨hheard.take hs' ht hp,(ht.grown hs').spoken h.spoken,hgreeted⟩
  | @breach c₁ v f size _ hb =>
    have hheard : (c.hear f size).Fluent := ⟨h.utters,h.rising⟩
    have hs' := hs.hear f size
    have hs₁ := hb.sound hs'
    exact ⟨(hheard.breach hs' hb).abort hs₁ _,
      (hb.grown.trans (hs₁.grown_abort _)).spoken h.spoken,hgreeted⟩
  | abort e hp => exact ⟨h.abort hs e,(hs.grown_abort e).spoken h.spoken,hgreeted⟩
  | ship hb =>
    refine ⟨h.ship hb,?_,hgreeted⟩
    obtain ⟨_,_,_,rfl⟩ := takeBatch_eq hb
    exact h.spoken
  | endReads | shutOff | establish => exact ⟨⟨h.utters,h.rising⟩,h.spoken,hgreeted⟩

theorem versed_fresh (role : Role) (options : Options) (codes : CodeSpace) :
    (fresh role options codes).Versed := by
  refine ⟨⟨fun id => ⟨⟨.nil,by simp [trail,outline,fresh,Journal.wire,about]⟩,?_⟩,Preludes.nil⟩,
    ?_,by rintro ⟨⟩⟩
  · intro s hs
    simp [seat,record,fresh] at hs
  · intro i s hi
    simp [fresh] at hi

end Fluent

/-- The rules for the frames `t` that an end in the given role says about a stream. -/
structure Grammatical (role : Role) (id : StreamId) (t : List Frame) : Prop where
  order : t.Pairwise Frame.Admits
  grants : ∀ n, .windowUpdate id n ∈ t → 0 < n
  writes : ∀ fin data, .stream id fin data ∈ t →
    id.direction = .bidirectional ∨ id.initiator = role

theorem Fluent.grammatical {c : Connection} (h : c.Fluent) (hs : c.Sound) (id : StreamId) :
    Grammatical c.role id (about id c.journal.wire) := by
  have hsub : (about id c.journal.wire).Sublist (c.trail id c.journal.wire) := by
    simp [trail,outline]
  refine ⟨(h.utters id).order.sublist hsub,?_,?_⟩
  · intro n hm
    exact ((h.utters id).backed _ (hsub.subset hm)).2.1
  · intro fin data hm
    obtain ⟨-,s,hseat,hw,-⟩ := (h.utters id).backed _ (hsub.subset hm)
    have hd := (hs.part id).direction s hseat
    have hr := (hs.part id).remote s hseat
    simp only [Stream.hasWriteSide,hd,hr,site] at hw
    simpa using hw

end Connection

namespace Station

open Connection

theorem Fresh.versed {s : Station} (h : s.Fresh) {steps : List Step}
    (hn : (s.run steps).connection.Numbered) : (s.run steps).connection.Versed :=
  (h.deeds steps).keep (fun _ _ hd hs hn h => Versed.deed h hd hs hn) (h.connection sound_fresh) hn
    (h.connection versed_fresh)

variable (role : Role) (options : Options) (codes : CodeSpace) (channel : Channel)

/-- Whatever an end is asked for and whatever its peer sends, what its writer takes about each
stream keeps to the rules, the streams that it opens come up in the order of their ids, and no two
streams ever have the same id. -/
theorem wire_grammatical (steps : List Step)
    (hn : ((fresh role options codes channel).run steps).connection.Numbered) :
    let c := ((fresh role options codes channel).run steps).connection
    (∀ id, Grammatical role id (about id c.journal.wire)) ∧ Rising role c.journal.wire ∧
      ∀ before after, steps = before ++ after → ∀ (i j : Nat) (s t : Stream),
        ((fresh role options codes channel).run before).connection.streams[i]? = some s →
        c.streams[j]? = some t → s.id.isSome → s.id = t.id → i = j := by
  intro c
  have hfresh := Fresh.intro role options codes channel
  have hv : c.Versed := hfresh.versed hn
  have hs : c.Sound := hfresh.sound hn
  have hrole : c.role = role := (hfresh.deeds steps).later.role
  refine ⟨fun id => ?_,?_,?_⟩
  · rw [← hrole]
    exact hv.grammatical hs id
  · rw [← hrole]
    exact Preludes.cut hv.rising (List.prefix_append _ _)
  · rintro before after rfl i j s t hi hj hid heq
    have hs₀ := hfresh.sound (hfresh.numbered hn)
    obtain ⟨s',hi',hg⟩ := (hfresh.deeds_more before after).lasts hs₀ hn i s hi hid
    exact hs.unique hi' hj (by rw [hg.id]; exact hid) (hg.id.trans heq)

/-- Two streams are opened. Once their first data has left, one is ended and the other is reset. -/
def partings : List Step :=
  meeting {} ++ [.quiet (.create .unidirectional), .quiet (.create .unidirectional),
    .quiet (.call false (.write 0 [1])), .quiet (.call false (.write 1 [2])), .quiet (.push 64),
    .quiet (.push 64), .quiet (.call false (.finish 0)), .quiet (.reset 1 7), .quiet (.push 64)]

theorem wire_grammatical_partings :
    let c := ((fresh .client {} .direct .plain).run partings).connection
    c.Numbered ∧
      c.journal.wire = [.stream ⟨2⟩ false [1], .stream ⟨6⟩ false [2], .reset ⟨6⟩ 7,
        .stream ⟨2⟩ true []] ∧
      Grammatical .client ⟨6⟩ [.stream ⟨6⟩ false [2], .reset ⟨6⟩ 7] := by
  intro c
  have hn : c.Numbered := by decide +kernel
  have hw : c.journal.wire = [.stream ⟨2⟩ false [1], .stream ⟨6⟩ false [2], .reset ⟨6⟩ 7,
      .stream ⟨2⟩ true []] := by decide +kernel
  have hg := (wire_grammatical .client {} .direct .plain partings hn).1 ⟨6⟩
  refine ⟨hn,hw,?_⟩
  rw [hw] at hg
  exact hg

end Station

end Multiplex
