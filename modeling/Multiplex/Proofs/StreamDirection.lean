import Multiplex.Proofs.Flow
import Multiplex.Proofs.Hearing

/-!
One direction of a stream as the two ends of a connection have it, and what each step of either end
does to it.
-/

namespace Multiplex

namespace Frame

def chunk? : Frame → Option Chunk
  | .stream _ fin data => some ⟨fin, data⟩
  | _ => none

def chunks (fs : List Frame) : List Chunk := fs.filterMap chunk?

@[simp]
theorem chunks_append (fs gs : List Frame) : chunks (fs ++ gs) = chunks fs ++ chunks gs :=
  List.filterMap_append

@[simp]
theorem chunks_nil : chunks [] = [] := rfl

@[simp]
theorem chunks_stream (id : StreamId) (fin : Bool) (data : Bytes) (fs : List Frame) :
    chunks (.stream id fin data :: fs) = ⟨fin, data⟩ :: chunks fs := rfl

@[simp]
theorem chunks_windowUpdate (id : StreamId) (n : UInt64) (fs : List Frame) :
    chunks (.windowUpdate id n :: fs) = chunks fs := rfl

@[simp]
theorem chunks_reset (id : StreamId) (code : UInt64) (fs : List Frame) :
    chunks (.reset id code :: fs) = chunks fs := rfl

@[simp]
theorem granted_stream (id id' : StreamId) (fin : Bool) (data : Bytes) :
    granted id (.stream id' fin data) = 0 := rfl

@[simp]
theorem granted_reset (id id' : StreamId) (code : UInt64) : granted id (.reset id' code) = 0 := rfl

@[simp]
theorem granted_windowUpdate (id : StreamId) (n : UInt64) :
    granted id (.windowUpdate id n) = n.toNat := by
  simp [granted]

end Frame

namespace Seat

def outflow (window : Nat) (calm : Bool) : Seat → Outflow
  | .unseen => ⟨[], false, true, true, window⟩
  | .passed => ⟨[], false, false, true, window⟩
  | .taken s => ⟨s.ledger.sent.reverse, s.finQueued, !s.released,
      !s.released || (calm && s.resetCode.isNone), s.credit.available.toNat⟩

def inflow (window : Nat) : Seat → Inflow
  | .unseen => ⟨[], false, true, window⟩
  | .passed => ⟨[], false, false, window⟩
  | .taken s => ⟨s.ledger.received.reverse, s.finReceived, !s.released,
      s.window.available.toNat⟩

/-- Whether frames about the stream are still taken in. -/
def listens (seat : Seat) : Bool := (seat.inflow 0).listening

/-- Whether this end is out of the stream before its time. -/
def Reset : Seat → Prop
  | .unseen => False
  | .passed => True
  | .taken s => s.resetCode.isSome ∧ s.released = true

theorem listening_inflow (seat : Seat) (window : Nat) :
    (seat.inflow window).listening = seat.listens := by
  cases seat <;> rfl

section Taken

variable {s : Stream} {own : Options} {peer : Settings}

theorem outflow_fresh (h : s.Fresh own peer) (calm : Bool) :
    (taken s).outflow peer.window.toNat calm = unseen.outflow peer.window.toNat calm := by
  simp [outflow,h.ledger,h.finQueued,h.released,h.credit]

theorem inflow_fresh (h : s.Fresh own peer) :
    (taken s).inflow own.window.toNat = unseen.inflow own.window.toNat := by
  simp [inflow,h.ledger,h.finReceived,h.released,h.window,ReceiveWindow.ofSize]

theorem outflow_reset (s : Stream) (code : UInt64) (window : Nat) (calm : Bool) :
    (taken (s.markReset code).settle).outflow window calm =
      { (taken s).outflow window calm with able := false, whole := false } := by
  rw [Stream.settle_markReset]
  simp [outflow,Stream.markReset]

theorem inflow_reset (s : Stream) (code : UInt64) (window : Nat) :
    (taken (s.markReset code).settle).inflow window =
      { (taken s).inflow window with listening := false } := by
  rw [Stream.settle_markReset]
  rfl

theorem reset_settle (s : Stream) (code : UInt64) : (taken (s.markReset code).settle).Reset := by
  rw [Stream.settle_markReset]
  simp [Reset,Stream.markReset]

end Taken

end Seat

/-- The frames about a stream that have left a connection or wait in it, oldest first; `wire` are
those that left. -/
def Part.trail (p : Part) (wire : List Frame) : List Frame := wire ++ (p.control ++ p.data)

/-- The direction of a stream from an end with the seat `a` to one with the seat `b`, with the
frames `t` on the way and the frames `r` on the way back. -/
structure Way (id : StreamId) (window : Nat) (opener calm : Bool) (a : Seat) (t : List Frame)
    (b : Seat) (r : List Frame) : Prop where
  flow : Flow window (a.outflow window calm) (b.inflow window) (Frame.chunks t)
    (Frame.creditOf id r)
  /-- Whoever says RESET is out of the stream. -/
  said : ∀ wire, .reset id wire ∈ t → a.Reset
  /-- A reset is told to whoever still listens. -/
  tells : calm = true → ∀ s, a = .taken s → s.resetCode.isSome → b.listens = true →
    ∃ wire, .reset id wire ∈ t
  silent : a = .unseen → t = []
  /-- The stream is not seen before its opener has it. -/
  dormant : opener = true → a = .unseen → b = .unseen

namespace Way

variable {s s' : Stream} {calm' : Bool} {size : UInt64} {w k d : List Frame} {y x : Site}
  {update : Option Frame} {p p' m : Part} {f : Frame}

variable {id : StreamId} {window : Nat} {opener calm : Bool} {a b : Seat} {t r : List Frame}

theorem initial (id : StreamId) (window : Nat) (opener calm : Bool) :
    Way id window opener calm .unseen [] .unseen [] :=
  ⟨.initial window true true true,by simp,by simp,fun _ => rfl,fun _ _ => rfl⟩

theorem calm_le (h : Way id window opener calm a t b r) (hc : calm' = true → calm = true) :
    Way id window opener calm' a t b r := by
  refine { h with flow := ?_, tells := fun hx => h.tells (hc hx) }
  have hf := h.flow
  cases a with
  | unseen | passed => exact hf
  | taken s =>
    refine hf.weaken (!s.released) _ (fun hx => hx) ?_
    simp only [Seat.outflow,Bool.or_eq_true,Bool.and_eq_true]
    rintro (hx | ⟨hx,hy⟩)
    · exact .inl hx
    · exact .inr ⟨hc hx,hy⟩

theorem of_sender
    (flow : Flow window ((Seat.taken s).outflow window calm) (b.inflow window) (Frame.chunks t)
      (Frame.creditOf id r))
    (said : ∀ wire, .reset id wire ∈ t → (Seat.taken s).Reset)
    (tells : calm = true → s.resetCode.isSome → b.listens = true → ∃ wire, .reset id wire ∈ t) :
    Way id window opener calm (.taken s) t b r := by
  refine ⟨flow,said,?_,?_,?_⟩
  · rintro hc _ ⟨⟩
    exact tells hc
  · rintro ⟨⟩
  · rintro _ ⟨⟩

theorem fresh_sender {own : Options} {peer : Settings} (fresh : s.Fresh own peer)
    (unreset : s.resetCode = none) (h : Way id peer.window.toNat opener calm .unseen t b r) :
    Way id peer.window.toNat opener calm (.taken s) t b r := by
  refine of_sender ?_ (fun wire hx => (h.said wire hx).elim) ?_
  · rw [Seat.outflow_fresh fresh]
    exact h.flow
  · simp [unreset]

theorem update_silent (h : ∀ f ∈ update, ∃ id n, s.id = some id ∧ f = .windowUpdate id n) :
    Frame.chunks update.toList = [] ∧ ∀ id wire, .reset id wire ∉ update.toList := by
  cases update with
  | none => simp
  | some f =>
    obtain ⟨_,_,-,rfl⟩ := h f rfl
    simp

theorem announce (h : Way id window opener calm (.taken s) (w ++ (k ++ d)) b r)
    (hu : ∀ f ∈ update, ∃ id n, s.id = some id ∧ f = .windowUpdate id n)
    (hs : s'.ledger.sent = s.ledger.sent) (hq : s'.finQueued = s.finQueued)
    (hc : s'.credit = s.credit) (hr : s'.resetCode = s.resetCode)
    (hl : s.released = true → s'.released = true) :
    Way id window opener calm (.taken s') (w ++ (k ++ update.toList ++ d)) b r := by
  obtain ⟨hchunks,hreset⟩ := update_silent hu
  have hmem (wire : UInt64) :
      .reset id wire ∈ w ++ (k ++ update.toList ++ d) ↔ .reset id wire ∈ w ++ (k ++ d) := by
    simp [hreset id wire]
  have hable : s'.released = false → s.released = false := by
    simpa using mt hl
  refine of_sender ?_ ?_ ?_
  · have := h.flow.weaken (!s'.released) (!s'.released || (calm && s'.resetCode.isNone))
      (by simpa [Seat.outflow] using hable) (by
        simp only [Seat.outflow,hr,Bool.or_eq_true,Bool.not_eq_true']
        exact Or.imp_left hable)
    simpa [Seat.outflow,hs,hq,hc,hchunks] using this
  · intro wire hx
    obtain ⟨h₁,h₂⟩ := h.said wire ((hmem wire).mp hx)
    exact ⟨hr ▸ h₁,hl h₂⟩
  · intro hy hx hb
    simp only [hmem]
    exact h.tells hy s rfl (hr ▸ hx) hb

/-- What the sender of a stream that is reset had queued behind `w` and `k` is lost. -/
theorem cut_reset {u : Nat} (code : UInt64)
    (h : Flow window ((Seat.taken s).outflow window calm) (b.inflow window)
      (Frame.chunks (w ++ (k ++ d))) u) :
    Flow window ((Seat.taken (s.markReset code).settle).outflow window calm) (b.inflow window)
      (Frame.chunks (w ++ k)) u := by
  rw [Seat.outflow_reset]
  refine h.cut _ ?_
  simp only [← List.append_assoc,Frame.chunks_append]
  exact List.prefix_append _ _

theorem charge_credit (s : Stream) {data : Bytes} (h : data.length ≤ s.credit.available.toNat) :
    (s.credit.available - UInt64.ofNat data.length).toNat =
      s.credit.available.toNat - data.length := by
  have hlen : (UInt64.ofNat data.length).toNat = data.length :=
    UInt64.toNat_ofNat_of_lt' (lt_of_le_of_lt h s.credit.available.toNat_lt)
  rw [UInt64.toNat_sub_of_le _ _ (by rwa [UInt64.le_iff_toNat_le,hlen]),hlen]

theorem step_sender (h : Way x.id window x.opener calm p.seat (p.trail w) b r)
    (hs : Part.Step x calm' p p') (hp : p.Sound x) (hc : calm' = true → calm = true)
    (hk : calm' = true → x.peer.window.toNat = window) :
    Way x.id window x.opener calm' p'.seat (p'.trail w) b r := by
  replace h := h.calm_le hc
  have hf := h.flow
  cases hs with
  | start opener busy fresh unreset =>
    obtain rfl := hk busy
    exact fresh_sender fresh unreset h
  | tend ht =>
    have ha := ht.agrees
    exact announce h ht.announced ha.sent ha.finQueued ha.credit ha.resetCode
      fun hx => ha.released.trans hx
  | @send s data k d hw credit size =>
    obtain ⟨-,-,-,hr,hq⟩ := Stream.writeError_eq_none_iff.mp hw
    have hl := (hp.sound s rfl).live hw
    refine of_sender ?_ (fun wire hx => h.said wire (by simpa [Part.trail] using hx)) ?_
    · have := hf.send data (by simp [Seat.outflow,hl]) (by simp [Seat.outflow,hl]) hq credit
      simpa [Seat.outflow,Part.trail,Stream.charge,Stream.noteSent,
        charge_credit s credit] using this
    · simp [Stream.charge,Stream.noteSent,hr]
  | @finish s k d hw =>
    obtain ⟨-,-,-,hr,hq⟩ := Stream.writeError_eq_none_iff.mp hw
    have hl := (hp.sound s rfl).live hw
    have hunreset : s.finish.settle.resetCode = none := by
      rw [Stream.settle_agrees]
      exact hr
    refine of_sender ?_ ?_ (by simp [hunreset])
    · have := (hf.finish (by simp [Seat.outflow,hl]) (by simp [Seat.outflow,hl]) hq).weaken
        (!s.finish.settle.released)
        (!s.finish.settle.released || (calm' && s.finish.settle.resetCode.isNone))
        (fun _ => by simp [Seat.outflow,hl]) (fun _ => by simp [Seat.outflow,hl])
      rw [Stream.settle_agrees] at this
      simpa [Seat.outflow,Part.trail,Stream.settle_agrees,Stream.finish,Stream.noteSent] using this
    · intro wire hx
      have := h.said wire (by simpa [Part.trail] using hx)
      rw [Seat.Reset,hr] at this
      cases this.1
  | @reset s code wire k d live =>
    refine of_sender ?_ (fun _ _ => Seat.reset_settle s code)
      fun _ _ _ => ⟨wire,by simp [Part.trail]⟩
    simpa [Part.trail] using cut_reset code hf
  | mark stormy spent =>
    subst stormy
    refine of_sender ?_ ?_ (by rintro ⟨⟩)
    · simpa [Seat.outflow,Part.trail,Stream.markReset,spent] using hf
    · exact fun wire hx => ⟨by simp [Stream.markReset],(h.said wire hx).2⟩
  | @fail s s' k d k' d' stormy hfall hq =>
    subst stormy
    obtain ⟨error,unwritten,changes,rfl,-,-⟩ := hfall
    refine of_sender ?_ ?_ (by rintro ⟨⟩)
    · have hpre : Frame.chunks (w ++ (k' ++ d')) <+: Frame.chunks (w ++ (k ++ d)) := by
        rcases hq with ⟨rfl,rfl⟩ | ⟨rfl,rfl⟩ <;> simp
      have := hf.cut _ hpre
      simpa [Seat.outflow,Part.trail] using this
    · intro wire hx
      have hold : .reset x.id wire ∈ w ++ (k ++ d) := by
        rcases hq with ⟨rfl,rfl⟩ | ⟨rfl,rfl⟩
        · exact hx
        · exact List.mem_append_left _ (by simpa [Part.trail] using hx)
      exact ⟨(h.said wire hold).1,rfl⟩
  | @clear seat k d stormy vacant =>
    subst stormy
    have hnil : (seat.outflow window false).sent = [] ∧
        (seat.outflow window false).ended = false := by
      cases seat with
      | unseen | passed => exact ⟨rfl,rfl⟩
      | taken s => exact absurd rfl (vacant s)
    refine ⟨hf.cut_nil hnil.1 hnil.2 (by simp [Part.trail]),?_,?_,?_,h.dormant⟩
    · intro wire hx
      refine h.said wire (List.mem_append_left _ ?_)
      simpa [Part.trail] using hx
    · rintro ⟨⟩
    · intro hu
      have := h.silent hu
      simp only [Part.trail,List.append_eq_nil_iff] at this
      simp [Part.trail,this.1]

theorem creditOf_update (seat seat' : Seat) (update : Option Frame) :
    Frame.creditOf y.id ((⟨seat', k ++ update.toList, d⟩ : Part).trail w) =
      Frame.creditOf y.id ((⟨seat, k, d⟩ : Part).trail w) +
        Frame.creditOf y.id update.toList := by
  simp only [Part.trail,Frame.creditOf_append]
  omega

theorem room_le (h : s.Sound size) (hf : s.finReceived = false) (hl : s.released = false) :
    s.window.available.toNat ≤ size.toNat := by
  have := h.balance hf hl
  omega

/-- A receiver that was there before keeps the rest of what the way says. -/
theorem of_taken {r' : List Frame} (h : Way id window opener calm a t (.taken s) r)
    (hf : Flow window (a.outflow window calm) ((Seat.taken s').inflow window) (Frame.chunks t)
      (Frame.creditOf id r')) (hl : s'.released = false → s.released = false) :
    Way id window opener calm a t (.taken s') r' := by
  refine ⟨hf,h.said,?_,h.silent,?_⟩
  · intro hc s₀ hs hr hx
    refine h.tells hc s₀ hs hr ?_
    have := hl (by simpa [Seat.listens,Seat.inflow] using hx)
    simp [Seat.listens,Seat.inflow,this]
  · intro ho hu
    cases h.dormant ho hu

theorem step_receiver (h : Way x.id x.options.window.toNat opener calm a t p.seat (p.trail w))
    (hs : Part.Step x calm' p p') (hp : p.Sound x) (hp' : p'.Sound x) (ho : opener = !x.opener)
    (hn : p.seat = .unseen → p.trail w = []) :
    Way x.id x.options.window.toNat opener calm a t p'.seat (p'.trail w) := by
  have hf := h.flow
  cases hs with
  | @start s k d starts busy fresh unreset =>
    refine ⟨?_,h.said,fun hc s₀ hs hr _ => h.tells hc s₀ hs hr rfl,h.silent,?_⟩
    · rw [Seat.inflow_fresh fresh]
      exact hf
    · intro hx
      rw [ho,starts] at hx
      cases hx
  | @tend s s' update k d ht =>
    have ha := ht.agrees
    refine h.of_taken ?_ (fun hx => ha.released ▸ hx)
    have hroom := ht.available (hp.sound s rfl) x.id (hp.id s rfl)
    have := hf.update (n := Frame.creditOf x.id update.toList) (by
      by_cases hx : s.finReceived = true ∨ s.released = true
      · left
        rw [ht.silent hx]
        rfl
      · simp only [not_or,Bool.not_eq_true] at hx
        refine .inr ⟨by simp [Seat.inflow,hx.2],hx.1,?_⟩
        have := room_le (hp'.sound s' rfl) (ha.finReceived.trans hx.1) (ha.released.trans hx.2)
        simp only [Seat.inflow]
        omega)
    have hi : (Seat.taken s').inflow x.options.window.toNat =
        { (Seat.taken s).inflow x.options.window.toNat with
          room := ((Seat.taken s).inflow x.options.window.toNat).room +
            Frame.creditOf x.id update.toList } := by
      simp only [Seat.inflow,ha.received,ha.finReceived,ha.released,hroom]
    rw [hi,creditOf_update (.taken s)]
    exact this
  | @send s data k d hw credit size =>
    refine h.of_taken ?_ id
    simpa [Part.trail,Seat.inflow,Stream.charge,Stream.noteSent] using hf
  | @finish s k d hw =>
    have hl := (hp.sound s rfl).live hw
    refine h.of_taken ?_ (fun _ => hl)
    have hu : Frame.creditOf x.id ((⟨.taken s.finish.settle, k, d ++ [.stream x.id true []]⟩ :
        Part).trail w) = Frame.creditOf x.id ((⟨.taken s, k, d⟩ : Part).trail w) := by
      simp [Part.trail]
    rw [hu]
    cases hx : s.finish.settle.released with
    | true =>
      have := hf.shut s.window.available.toNat _ le_rfl
      rw [Stream.settle_agrees] at hx ⊢
      simp only [Seat.inflow,Stream.finish,Stream.noteSent] at this hx ⊢
      rw [hx]
      exact this
    | false =>
      rw [Stream.settle_agrees] at hx ⊢
      simp only [Seat.inflow,Stream.finish,Stream.noteSent] at hf hx ⊢
      rw [hl] at hf
      rw [hx]
      exact hf
  | @reset s code wire k d live =>
    refine h.of_taken ?_ (fun _ => live)
    rw [Seat.inflow_reset]
    exact hf.shut _ _ (by simp [Part.trail])
  | @mark s code k d stormy spent =>
    exact h.of_taken hf id
  | @fail s s' k d k' d' stormy hfall hq =>
    obtain ⟨error,unwritten,changes,rfl,-,-⟩ := hfall
    refine h.of_taken ?_ (fun hx => by cases hx)
    refine hf.shut s.window.available.toNat _ ?_
    simp only [Part.trail,Frame.creditOf_append]
    rcases hq with ⟨rfl,rfl⟩ | ⟨rfl,rfl⟩
    · exact le_rfl
    · simp
  | @clear seat k d stormy vacant =>
    refine { h with flow := ?_ }
    cases seat with
    | unseen =>
      have hnil := hn rfl
      have hnil' : (⟨.unseen, [], []⟩ : Part).trail w = [] := by
        simp only [Part.trail,List.append_eq_nil_iff] at hnil
        simp [Part.trail,hnil.1]
      rw [hnil']
      rw [hnil] at hf
      exact hf
    | passed =>
      refine hf.shut x.options.window.toNat _ ?_
      simp [Part.trail]
    | taken s => exact absurd rfl (vacant s)

theorem arrive_receiver (h : Way y.id y.options.window.toNat opener calm a t p.seat (p.trail w))
    (hm : Part.Arrives y calm' p m) (ha : a ≠ .unseen) :
    Way y.id y.options.window.toNat opener calm a t m.seat (m.trail w) := by
  have hf := h.flow
  cases hm with
  | pass guest =>
    refine ⟨hf.shut _ _ le_rfl,h.said,?_,h.silent,fun _ hx => absurd hx ha⟩
    rintro _ _ _ _ ⟨⟩
  | refuse guest stormy =>
    refine ⟨hf.shut _ _ ?_,h.said,?_,h.silent,fun _ hx => absurd hx ha⟩
    · simp [Part.trail]
    · rintro _ _ _ _ ⟨⟩
  | @surface s k d guest busy fresh unreset hid direction remote =>
    refine ⟨?_,h.said,fun hc s₀ hs hr _ => h.tells hc s₀ hs hr rfl,h.silent,
      fun _ hx => absurd hx ha⟩
    rw [Seat.inflow_fresh fresh]
    exact hf

theorem arrive_sender (h : Way y.id window y.opener calm p.seat (p.trail w) b r)
    (hm : Part.Arrives y calm p m) (hk : calm = true → y.peer.window.toNat = window) :
    Way y.id window y.opener calm m.seat (m.trail w) b r := by
  have hf := h.flow
  cases hm with
  | @pass k d guest =>
    refine ⟨hf.weaken false true (by simp) (fun _ => rfl),fun _ _ => trivial,
      ?_,?_,?_⟩
    · rintro _ _ ⟨⟩
    · rintro ⟨⟩
    · rintro _ ⟨⟩
  | @refuse wire k d guest stormy =>
    refine ⟨?_,fun _ _ => trivial,?_,?_,?_⟩
    · have := hf.weaken false true (by simp) (fun _ => rfl)
      simpa [Part.trail,Seat.outflow] using this
    · rintro _ _ ⟨⟩
    · rintro ⟨⟩
    · rintro _ ⟨⟩
  | @surface s k d guest busy fresh unreset hid direction remote =>
    obtain rfl := hk busy
    exact fresh_sender fresh unreset h

theorem take_receiver
    (h : Way y.id y.options.window.toNat opener calm a (f :: t) p.seat (p.trail w))
    (ht : Part.Takes y f p p') (hp : p.Sound y) (hp' : p'.Sound y)
    (hd : p.seat = .unseen → y.opener = false) :
    Way y.id y.options.window.toNat opener calm a t p'.seat (p'.trail w) := by
  have hf := h.flow
  have ha : a ≠ .unseen := fun hx => by cases h.silent hx
  have hsaid (wire : UInt64) (hx : .reset y.id wire ∈ t) := h.said wire (List.mem_cons_of_mem _ hx)
  have htells (hne : ∀ wire, f ≠ .reset y.id wire) (hc : calm = true) (s : Stream)
      (hs : a = .taken s) (hr : s.resetCode.isSome) (hl : p.seat.listens = true) :
      ∃ wire, .reset y.id wire ∈ t := by
    obtain ⟨wire,hx⟩ := h.tells hc s hs hr hl
    rcases List.mem_cons.mp hx with hx | hx
    · exact absurd hx.symm (hne wire)
    · exact ⟨wire,hx⟩
  cases ht with
  | @data s s' fin data update k d reads hr last =>
    have hl : (Seat.taken s).listens = true := by simp [Seat.listens,Seat.inflow,hr.live]
    refine ⟨?_,hsaid,fun hc s₀ hs hx _ => htells (by simp) hc s₀ hs hx hl,fun hx => absurd hx ha,
      fun _ hx => absurd hx ha⟩
    simp only [Frame.chunks_stream] at hf
    have := hf.receive s'.window.available.toNat
      (Frame.creditOf y.id update.toList) (!s'.released) hl hr.unended
      (fun hx => hr.available (hp.sound s rfl) hx y.id (hp.id s rfl)) (by
        cases fin with
        | true =>
          left
          rw [last rfl]
          rfl
        | false =>
          refine .inr ⟨rfl,room_le (hp'.sound s' rfl) hr.finReceived ?_⟩
          rw [hr.released]
          rfl)
    rw [creditOf_update (.taken s)]
    simpa [Seat.inflow,hr.received,hr.finReceived] using this
  | @grant s n k d live =>
    exact ⟨hf,hsaid,fun hc s₀ hs hx hl => htells (by simp) hc s₀ hs hx hl,fun hx => absurd hx ha,
      fun _ hx => absurd hx ha⟩
  | @reset s code wire unwritten changes k d live =>
    refine ⟨?_,hsaid,?_,fun hx => absurd hx ha,fun _ hx => absurd hx ha⟩
    · rw [Seat.inflow_reset]
      exact hf.shut _ _ (by simp [Part.trail])
    · intro _ _ _ _ hl
      rw [Seat.listens,Seat.inflow_reset] at hl
      cases hl
  | drop about deaf =>
    have hlisten : p.seat.listens = true → f.kind = .windowUpdate := by
      intro hl
      unfold Part.Deaf at deaf
      cases hs : p.seat with
      | unseen =>
        rw [hs] at deaf
        rcases deaf with ho | hk
        · cases (hd hs).symm.trans ho
        · exact hk
      | passed =>
        rw [hs] at hl
        cases hl
      | taken s =>
        rw [hs] at hl deaf
        simp [Seat.listens,Seat.inflow,show s.released = true from deaf] at hl
    refine ⟨?_,hsaid,?_,fun hx => absurd hx ha,fun _ hx => absurd hx ha⟩
    · cases f with
      | stream id' fin data =>
        refine hf.drop ?_
        rw [Seat.listening_inflow]
        by_contra hl
        cases hlisten (Bool.eq_true_of_not_eq_false hl)
      | windowUpdate | reset | ping | pong | settings | close => exact hf
    · intro hc s₀ hs hx hl
      refine htells ?_ hc s₀ hs hx hl
      rintro wire rfl
      cases hlisten hl

theorem take_sender (h : Way y.id window y.opener calm p.seat (p.trail w) b (f :: r))
    (ht : Part.Takes y f p p') (hw : window < UInt64.size)
    (hb : ∀ wire, f = .reset y.id wire → b.listens = false) :
    Way y.id window y.opener calm p'.seat (p'.trail w) b r := by
  have hf := h.flow
  cases ht with
  | @data s s' fin data update k d reads hr last =>
    have hback : Way y.id window y.opener calm (.taken s) (w ++ (k ++ d)) b r :=
      { h with flow := by simpa [Part.trail] using hf }
    exact hback.announce hr.announced hr.sent hr.finQueued hr.credit hr.resetCode fun hx => by
      cases hr.live.symm.trans hx
  | @grant s n k d live =>
    refine of_sender ?_ h.said fun hc hx hl => h.tells hc s rfl hx hl
    have hheld := hf.held (by simp [Seat.outflow,live])
    simp only [Frame.creditOf_cons,Frame.granted_windowUpdate] at hf hheld
    have hcr : (s.credit.grant n).available.toNat = s.credit.available.toNat + n.toNat := by
      have hx : s.credit.available.toNat + n.toNat < UInt64.size := by
        simp only [Seat.outflow] at hheld
        omega
      simp only [SendCredit.grant]
      rw [Nat.min_eq_left (by omega),UInt64.toNat_ofNat_of_lt' hx]
    have := hf.grant
    simpa [Seat.outflow,Part.trail,hcr] using this
  | @reset s code wire unwritten changes k d live =>
    refine of_sender ?_ (fun _ _ => Seat.reset_settle _ code) ?_
    · simpa [Part.trail] using cut_reset (s := { s with unwritten, changes }) code hf
    · intro _ _ hl
      cases (hb wire rfl).symm.trans hl
  | drop about deaf =>
    refine { h with flow := ?_ }
    rw [Frame.creditOf_cons] at hf
    refine hf.ignore ?_
    intro ha
    have hheld := hf.held ha
    unfold Part.Deaf at deaf
    cases hs : p.seat with
    | unseen =>
      rw [hs] at hheld
      simp only [Seat.outflow] at hheld
      omega
    | passed =>
      rw [hs] at ha
      cases ha
    | taken s =>
      rw [hs] at ha deaf
      simp [Seat.outflow,show s.released = true from deaf] at ha

end Way

end Multiplex
