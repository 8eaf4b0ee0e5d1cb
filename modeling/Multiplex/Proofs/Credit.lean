import Multiplex.Proofs.Transit

/-!
The credit of a stream: what its sender may still send, what is on the way, what waits to be read
and what is owed make up the window of the receiver at all times.
-/

namespace Multiplex

variable {id : StreamId}

namespace Frame

variable {f : Frame} {fs : List Frame}

def payload (id : StreamId) : Frame → Nat
  | .stream id' _ data => if id' = id then data.length else 0
  | _ => 0

def payloadOf (id : StreamId) (fs : List Frame) : Nat := (fs.map (payload id)).sum

theorem payloadOf_cons (id : StreamId) (f : Frame) (fs : List Frame) :
    payloadOf id (f :: fs) = payload id f + payloadOf id fs := by
  simp [payloadOf]

theorem payload_of_ne (h : f.streamId ≠ some id) : payload id f = 0 := by
  cases f with
  | stream id' fin data => exact if_neg fun he => h (congrArg some he)
  | windowUpdate | reset | ping | pong | settings | close => rfl

theorem granted_of_ne (h : f.streamId ≠ some id) : granted id f = 0 := by
  cases f with
  | windowUpdate id' n => exact if_neg fun he => h (congrArg some he)
  | stream | reset | ping | pong | settings | close => rfl

theorem load_chunk_of_eq (h : f.streamId = some id) : Chunk.load (chunks [f]) = payload id f := by
  cases f with
  | stream id' fin data =>
    cases h
    simp [payload]
  | windowUpdate | reset => rfl
  | ping | pong | settings | close => cases h

theorem load_about (id : StreamId) (fs : List Frame) :
    Chunk.load (chunks (Connection.about id fs)) = payloadOf id fs := by
  induction fs with
  | nil => rfl
  | cons f fs ih =>
    rw [← List.singleton_append,Connection.about_append,chunks_append,Chunk.load_append,ih,
      List.singleton_append,payloadOf_cons]
    by_cases h : f.streamId = some id
    · rw [Connection.about_of_eq h,load_chunk_of_eq h]
    · rw [Connection.about_of_ne h,payload_of_ne h]
      rfl

theorem creditOf_about (id : StreamId) (fs : List Frame) :
    creditOf id (Connection.about id fs) = creditOf id fs := by
  induction fs with
  | nil => rfl
  | cons f fs ih =>
    rw [← List.singleton_append,Connection.about_append,creditOf_append,creditOf_append,ih]
    by_cases h : f.streamId = some id
    · rw [Connection.about_of_eq h]
    · simp [Connection.about_of_ne h,granted_of_ne h]

theorem exists_of_payloadOf_pos (h : 0 < payloadOf id fs) :
    ∃ fin data, .stream id fin data ∈ fs ∧ data ≠ [] := by
  obtain ⟨n,hn,hpos⟩ := List.sum_pos_iff_exists_pos_nat.mp h
  obtain ⟨f,hf,rfl⟩ := List.mem_map.mp hn
  cases f with
  | stream id' fin data =>
    simp only [payload] at hpos
    split at hpos
    · rename_i he
      subst he
      exact ⟨fin,data,hf,List.ne_nil_of_length_pos hpos⟩
    · cases hpos
  | windowUpdate | reset | ping | pong | settings | close => cases hpos

theorem exists_of_creditOf_pos (h : 0 < creditOf id fs) : ∃ n, .windowUpdate id n ∈ fs := by
  obtain ⟨n,hn,hpos⟩ := List.sum_pos_iff_exists_pos_nat.mp h
  obtain ⟨f,hf,rfl⟩ := List.mem_map.mp hn
  cases f with
  | windowUpdate id' n =>
    simp only [granted] at hpos
    split at hpos
    · rename_i he
      subst he
      exact ⟨n,hf⟩
    · cases hpos
  | stream | reset | ping | pong | settings | close => cases hpos

end Frame

namespace Connection

variable {c : Connection} {s : Stream}

def InUse (c : Connection) (id : StreamId) (s : Stream) : Prop :=
  ∃ i, (id, i) ∈ c.table ∧ c.streams[i]? = some s

theorem Sound.inUse_iff (h : c.Sound) :
    c.InUse id s ↔ c.seat id = .taken s ∧ s.released = false := by
  rw [seat_eq_taken_iff h.toRegistry]
  constructor
  · rintro ⟨i,hm,hi⟩
    obtain ⟨t,ht,hid,hl⟩ := h.iff.mp hm
    cases ht.symm.trans hi
    exact ⟨⟨hid,i,hi⟩,hl⟩
  · rintro ⟨⟨hid,i,hi⟩,hl⟩
    exact ⟨i,h.iff.mpr ⟨s,hi,hid,hl⟩,hi⟩

theorem Sound.held_of_inUse (h : c.Sound) (hu : c.InUse id s) : c.Holds id s := by
  obtain ⟨hid,i,hi⟩ := (seat_eq_taken_iff h.toRegistry).mp (h.inUse_iff.mp hu).1
  exact h.held hi hid

theorem Sound.open_of_inUse (h : c.Sound) (hu : c.InUse id s) :
    c.phase = .active ∨ c.phase = .closing := by
  obtain ⟨i,hm,hi⟩ := hu
  cases hp : c.phase with
  | connecting =>
    rw [(h.unopened hp).1] at hi
    cases hi
  | active => exact .inl rfl
  | closing => exact .inr rfl
  | closed =>
    rw [h.still (.inl hp)] at hm
    cases hm

/-- The credit of a stream that both ends use, as long as its end has not come. -/
theorem Accord.balance {c d : Connection} {w v : List Frame} (h : Accord c w d v) {s t : Stream}
    (hs : c.InUse id s) (ht : d.InUse id t) (hf : t.finReceived = false) :
    s.credit.available.toNat + Frame.payloadOf id (c.outline w) + t.inbound.flatten.length +
      t.window.unacknowledged.toNat + Frame.creditOf id (d.outline v) = d.options.window.toNat := by
  obtain ⟨hcs,hsl⟩ := h.near.sound.inUse_iff.mp hs
  obtain ⟨hdt,htl⟩ := h.far.sound.inUse_iff.mp ht
  have hb := (h.near.way id).flow.balance
  simp only [hcs,hdt,Seat.outflow,Seat.inflow,hsl,htl,hf,Bool.not_false,trail,Frame.load_about,
    Frame.creditOf_about,forall_const] at hb
  have hw := (h.far.sound.held_of_inUse ht).sound.balance hf htl
  omega

end Connection

instance lawfulOrderSupUInt64 : Std.LawfulOrderSup UInt64 where
  max_le_iff a b c := by
    rw [show max a b = if a ≤ b then b else a from rfl]
    simp only [UInt64.le_iff_toNat_le]
    split <;> omega

instance lawfulOrderSupUInt8 : Std.LawfulOrderSup UInt8 where
  max_le_iff a b c := by
    rw [show max a b = if a ≤ b then b else a from rfl]
    simp only [UInt8.le_iff_toNat_le]
    split <;> omega

namespace Options

variable {o : Options}

/-- Options as they can be set up: the defaults, changed one by one. -/
inductive Built : Options → Prop
  | default : Built {}
  | window {o : Options} (h : Built o) (n : UInt64) : Built (o.withWindow n)
  | maxStreams {o : Options} (h : Built o) (n m : UInt64) : Built (o.withMaxStreams n m)
  | idle {o : Options} (h : Built o) (time : Option UInt64) : Built (o.withIdle time)
  | keepAlive {o : Options} (h : Built o) (b : Bool) : Built (o.withKeepAlive b)
  | maxFrame {o : Options} (h : Built o) (n : UInt64) : Built (o.withMaxFrame n)
  | threshold {o : Options} (h : Built o) (percent : UInt8) : Built (o.withThreshold percent)
  | connectTimeout {o : Options} (h : Built o) (time : UInt64) : Built (o.withConnectTimeout time)

structure Bounded (o : Options) : Prop where
  window_pos : 1 ≤ o.window
  window_le : o.window ≤ Settings.greatestWindow
  maxFrame : Settings.leastMaxFrame ≤ o.maxFrame
  threshold_pos : 1 ≤ o.threshold
  threshold_le : o.threshold ≤ 100

theorem Built.bounded (h : o.Built) : o.Bounded := by
  induction h with
  | default => constructor <;> decide
  | window h n ih =>
    exact ⟨Std.le_min_iff.mpr ⟨Std.left_le_max,by decide⟩,Std.min_le_right,ih.maxFrame,
      ih.threshold_pos,ih.threshold_le⟩
  | maxFrame h n ih =>
    exact { ih with maxFrame := Std.right_le_max }
  | threshold h percent ih =>
    exact ⟨ih.window_pos,ih.window_le,ih.maxFrame,
      Std.le_min_iff.mpr ⟨Std.left_le_max,by decide⟩,Std.min_le_right⟩
  | maxStreams h n m ih => exact { ih with }
  | idle h time ih => exact { ih with }
  | keepAlive h b ih => exact { ih with }
  | connectTimeout h time ih =>
    exact { ih with }

theorem Bounded.valid (h : o.Bounded) : o.settings.Valid := by
  refine ⟨fun hz => ?_,h.window_le,h.maxFrame⟩
  have hp := h.window_pos
  rw [show o.window = 0 from hz] at hp
  exact absurd hp (by decide)

/-- Settings can be read, unless the bound on frames is so large that it overflows. -/
theorem Bounded.fits_settings (h : o.Bounded) {s : Settings} (hv : s.Valid)
    (hlt : o.maxFrame.toNat + Frame.streamOverhead < UInt64.size) :
    (Frame.settings s).Fits o.maxBody := by
  have hmax : 1024 ≤ o.maxFrame.toNat := UInt64.le_iff_toNat_le.mp h.maxFrame
  refine ⟨?_,?_,by rintro _ ⟨⟩; exact hv⟩
  · rw [maxBody,Nat.mod_eq_of_lt hlt,Frame.body,Settings.length_encode]
    omega
  · rw [Frame.body,Settings.length_encode]
    decide

theorem not_fits_settings (h : UInt64.size ≤ o.maxFrame.toNat + Frame.streamOverhead)
    (s : Settings) : ¬(Frame.settings s).Fits o.maxBody := by
  intro hf
  have hlen := hf.length_le
  have hlt := o.maxFrame.toNat_lt
  rw [Frame.body,Settings.length_encode] at hlen
  simp only [maxBody,Frame.streamOverhead,UInt64.size] at h hlen
  omega

theorem Bounded.threshold_le_window (h : o.Bounded) :
    (ReceiveWindow.ofSize o.window o.threshold).threshold.toNat ≤ o.window.toNat := by
  have hw := UInt64.le_iff_toNat_le.mp h.window_pos
  have hp := UInt8.le_iff_toNat_le.mp h.threshold_le
  have hmul : o.window.toNat * o.threshold.toNat ≤ o.window.toNat * 100 :=
    Nat.mul_le_mul_left _ hp
  have hsize : min (o.window.toNat * o.threshold.toNat) (UInt64.size - 1) < UInt64.size := by
    have : 0 < UInt64.size := by decide
    omega
  have hle : max 1
      (UInt64.ofNat (min (o.window.toNat * o.threshold.toNat) (UInt64.size - 1)) / 100) ≤
      o.window := by
    refine Std.max_le_iff.mpr ⟨h.window_pos,?_⟩
    rw [UInt64.le_iff_toNat_le,UInt64.toNat_div,UInt64.toNat_ofNat_of_lt' hsize]
    have h100 : (100 : UInt64).toNat = 100 := rfl
    rw [h100]
    omega
  exact UInt64.le_iff_toNat_le.mp hle

end Options

namespace Duplex

open Connection

/-- A stream that both ends use, as `sender` at one side and as `receiver` at the other. -/
structure Shares (x : Duplex) (side : Side) (id : StreamId) (sender receiver : Stream) : Prop where
  here : (x.connection side).InUse id sender
  there : (x.connection side.other).InUse id receiver

variable {names : Option (Identity × Identity)} {own peer : Options} {x : Duplex}

theorem Coherent.balance (h : Coherent names own peer x) {side : Side} {sender receiver : Stream}
    (hs : x.Shares side id sender receiver) (hf : receiver.finReceived = false) :
    sender.credit.available.toNat + Frame.payloadOf id (x.outgoing side) +
      receiver.inbound.flatten.length + receiver.window.unacknowledged.toNat +
      Frame.creditOf id (x.outgoing side.other) =
        (x.connection side.other).options.window.toNat := by
  obtain ⟨w,v,ha,hw⟩ := h.facing side
  obtain ⟨rfl,rfl⟩ := hw (ha.near.sound.open_of_inUse hs.here) (ha.far.sound.open_of_inUse hs.there)
  exact ha.balance hs.here hs.there hf

theorem Coherent.built (h : Coherent names own peer x) (ho : own.Built) (hp : peer.Built)
    (side : Side) : (x.connection side).options.Built := by
  cases side with
  | near => exact h.own.symm ▸ ho
  | far => exact h.peer.symm ▸ hp

/-- A receiver with a window of three bytes that gives nothing back before all of it was read. -/
def Setup.tight : Setup := { Setup.plain with far := (Options.withWindow {} 3).withThreshold 100 }

/-- Five bytes are written to a window of three, and two of those that arrive are read. -/
def squeeze : List (Side × Event) :=
  greeting ++ [(.near, .create .unidirectional), (.near, .call false (.write 0 [1, 2, 3, 4, 5])),
    (.near, .push 64), (.near, .push 64), (.far, .pull 0 128 0), (.far, .call false .accept),
    (.far, .call false (.read 0 (.chunk 2)))]

/-- The sender has no credit left, one byte waits to be read and two are owed. -/
theorem shares_squeeze :
    ∃ sender receiver, ((start .tight).run squeeze).Shares .near ⟨2⟩ sender receiver ∧
      sender.credit.available = 0 ∧ receiver.finReceived = false ∧ receiver.inbound = [[3]] ∧
      receiver.window.unacknowledged = 2 := by
  have hs : ((((start .tight).run squeeze).connection .near).streams[0]?.any fun t =>
      decide (t.credit.available = 0)) = true := by decide +kernel
  have hr : ((((start .tight).run squeeze).connection .far).streams[0]?.any fun t =>
      decide (t.finReceived = false ∧ t.inbound = [[3]] ∧ t.window.unacknowledged = 2)) = true := by
    decide +kernel
  obtain ⟨sender,hi,hc⟩ := (Option.any_eq_true _ _).mp hs
  obtain ⟨receiver,hj,hx⟩ := (Option.any_eq_true _ _).mp hr
  obtain ⟨hf,hin,hu⟩ := of_decide_eq_true hx
  exact ⟨sender,receiver,⟨⟨0,by decide +kernel,hi⟩,⟨0,by decide +kernel,hj⟩⟩,
    of_decide_eq_true hc,hf,hin,hu⟩

/-- Credit is conserved in both directions of every stream that both ends use, and no end ever meets
data that exceeds its window. -/
theorem credit_conserved (s : Setup) (events : List (Side × Event)) (side : Side)
    (hn : ((start s).run events).Numbered) :
    let x := (start s).run events
    (∀ (id : StreamId) (sender receiver : Stream), x.Shares side id sender receiver →
      receiver.finReceived = false →
      sender.credit.available.toNat + Frame.payloadOf id (x.outgoing side) +
        receiver.inbound.flatten.length + receiver.window.unacknowledged.toNat +
        Frame.creditOf id (x.outgoing side.other) =
          (x.connection side.other).options.settings.window.toNat) ∧
      ∀ (id : StreamId) (e : WindowExceeded),
        (x.connection side).error ≠ some (.protocolViolation (.window id e)) := by
  intro x
  have h := coherent_run s events hn
  refine ⟨fun id sender receiver hs hf => h.balance hs hf,fun id e he => ?_⟩
  obtain ⟨w,v,ha,-⟩ := h.facing side
  obtain ⟨id',hx,-⟩ := ha.near.blamed _ he
  cases hx

theorem credit_conserved_squeeze : ((start .tight).run squeeze).Numbered ∧
      ∃ sender receiver, ((start .tight).run squeeze).Shares .near ⟨2⟩ sender receiver ∧
        sender.credit.available.toNat +
            Frame.payloadOf ⟨2⟩ (((start .tight).run squeeze).outgoing .near) +
            receiver.inbound.flatten.length + receiver.window.unacknowledged.toNat +
            Frame.creditOf ⟨2⟩ (((start .tight).run squeeze).outgoing .far) = 3 := by
  have hn : ((start .tight).run squeeze).Numbered := by decide +kernel
  obtain ⟨sender,receiver,hs,-,hf,-,-⟩ := shares_squeeze
  have hw : (((start .tight).run squeeze).connection .far).options.settings.window.toNat = 3 := by
    decide +kernel
  have h := (credit_conserved .tight squeeze .near hn).1 ⟨2⟩ sender receiver hs hf
  exact ⟨hn,sender,receiver,hs,h.trans hw⟩

/-- A sender that has run out of credit is not left without: data is on the way, or credit is on the
way back, or there is something to read. -/
theorem credit_returns (s : Setup) (events : List (Side × Event)) (side : Side) (id : StreamId)
    (sender receiver : Stream) (near : s.near.Built) (far : s.far.Built)
    (hn : ((start s).run events).Numbered)
    (hs : ((start s).run events).Shares side id sender receiver)
    (hf : receiver.finReceived = false) (hc : sender.credit.available = 0) :
    (∃ fin data, .stream id fin data ∈ ((start s).run events).outgoing side ∧ data ≠ []) ∨
      (∃ n, .windowUpdate id n ∈ ((start s).run events).outgoing side.other) ∨
      (receiver.inbound.flatten ≠ [] ∧ receiver.abandoned = false) := by
  have h := coherent_run s events hn
  have hsum := h.balance hs hf
  obtain ⟨w,v,ha,-⟩ := h.facing side
  have hheld := ha.far.sound.held_of_inUse hs.there
  have howed := UInt64.lt_iff_toNat_lt.mp hheld.sound.owed
  have hle := (h.built near far side.other).bounded.threshold_le_window
  rw [hheld.measured] at howed
  rw [hc,UInt64.toNat_zero] at hsum
  by_cases hp : 0 < Frame.payloadOf id (((start s).run events).outgoing side)
  · exact .inl (Frame.exists_of_payloadOf_pos hp)
  by_cases hg : 0 < Frame.creditOf id (((start s).run events).outgoing side.other)
  · exact .inr (.inl (Frame.exists_of_creditOf_pos hg))
  -- less is owed than the window, so the rest waits to be read
  have hin : receiver.inbound.flatten ≠ [] := by
    refine List.ne_nil_of_length_pos ?_
    omega
  refine .inr (.inr ⟨hin,?_⟩)
  by_contra hab
  rw [hheld.sound.dropped (Bool.eq_true_of_not_eq_false hab)] at hin
  exact hin rfl

theorem credit_returns_squeeze :
    ∃ sender receiver, ((start .tight).run squeeze).Shares .near ⟨2⟩ sender receiver ∧
      sender.credit.available = 0 ∧
      ((∃ fin data, .stream ⟨2⟩ fin data ∈ ((start .tight).run squeeze).outgoing .near ∧
        data ≠ []) ∨
        (∃ n, .windowUpdate ⟨2⟩ n ∈ ((start .tight).run squeeze).outgoing .far) ∨
        (receiver.inbound.flatten ≠ [] ∧ receiver.abandoned = false)) := by
  obtain ⟨sender,receiver,hs,hc,hf,-,-⟩ := shares_squeeze
  exact ⟨sender,receiver,hs,hc,credit_returns .tight squeeze .near ⟨2⟩ sender receiver .default
    ((Options.Built.default.window 3).threshold 100) (by decide +kernel) hs hf hc⟩

end Duplex

end Multiplex
