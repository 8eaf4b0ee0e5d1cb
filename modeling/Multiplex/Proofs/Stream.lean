import Multiplex.Connection.Calls
import Mathlib.Tactic

/-!
What holds of every stream that has started, and what the operations of one end do to it.
-/

namespace Multiplex

variable {w : ReceiveWindow} {len j : Nat} {α : Type}

theorem getElem?_concat {l : List α} {a b : α} (h : (l ++ [a])[j]? = some b) :
    l[j]? = some b ∨ j = l.length ∧ b = a := by
  grind

theorem getElem?_append_of_some {l : List α} {a : α} (more : List α) (h : l[j]? = some a) :
    (l ++ more)[j]? = some a := by
  rw [List.getElem?_append_left (List.getElem?_eq_some_iff.mp h).1]
  exact h

/-- What chunks that are kept newest first hold. -/
def Ledger.bytes (chunks : List Bytes) : Bytes := chunks.reverse.flatten

@[simp]
theorem Ledger.bytes_cons (chunk : Bytes) (chunks : List Bytes) :
    bytes (chunk :: chunks) = bytes chunks ++ chunk := by
  simp [bytes]

namespace ReceiveWindow

/-- A new window is worth replenishing after one byte at the earliest. -/
theorem ofSize_owed (size : UInt64) (percent : UInt8) :
    (ofSize size percent).unacknowledged < (ofSize size percent).threshold := by
  rw [ofSize]
  generalize UInt64.ofNat (min (size.toNat * percent.toNat) (UInt64.size - 1)) / 100 = share
  have hm : max 1 share = if 1 ≤ share then share else 1 := rfl
  simp only [hm,UInt64.lt_iff_toNat_lt,UInt64.le_iff_toNat_le]
  split
  · rename_i hle
    exact hle
  · decide

theorem consume_threshold (w : ReceiveWindow) (len : Nat) :
    (w.consume len).2.threshold = w.threshold := by
  unfold consume
  dsimp only
  split <;> rfl

/-- Nothing is lost between what is owed and what is announced. -/
theorem consume_spec (w : ReceiveWindow) (len : Nat)
    (hb : w.available.toNat + len + w.unacknowledged.toNat < UInt64.size)
    (hu : w.unacknowledged < w.threshold) :
    let r := w.consume len
    r.2.unacknowledged < r.2.threshold ∧
    r.2.available.toNat = w.available.toNat + (r.1.elim 0 UInt64.toNat) ∧
    r.2.unacknowledged.toNat + (r.1.elim 0 UInt64.toNat) = w.unacknowledged.toNat + len := by
  have hlen : (UInt64.ofNat len).toNat = len := UInt64.toNat_ofNat_of_lt' (by omega)
  have howed : (w.unacknowledged + UInt64.ofNat len).toNat = w.unacknowledged.toNat + len := by
    rw [UInt64.toNat_add,hlen]
    exact Nat.mod_eq_of_lt (by simpa [UInt64.size] using (by omega : _ < UInt64.size))
  simp only [consume]
  split
  · rename_i hlt
    exact ⟨hlt,by simp,by simpa using howed⟩
  · have ha : (w.available + (w.unacknowledged + UInt64.ofNat len)).toNat =
        w.available.toNat + (w.unacknowledged.toNat + len) := by
      rw [UInt64.toNat_add,howed]
      exact Nat.mod_eq_of_lt (by simpa [UInt64.size] using (by omega : _ < UInt64.size))
    have hpos : (0 : UInt64) < w.threshold := by
      rw [UInt64.lt_iff_toNat_lt] at hu ⊢
      simp only [UInt64.toNat_zero]
      omega
    exact ⟨hpos,by simpa [howed] using ha,by simpa using howed⟩

theorem consume_pos {n : UInt64} (ht : 0 < w.threshold) (h : (w.consume len).1 = some n) :
    0 < n := by
  simp only [consume] at h
  split at h
  · cases h
  · rename_i hle
    cases h
    rw [UInt64.lt_iff_toNat_lt] at ht hle ⊢
    omega

end ReceiveWindow

namespace Frame

def granted (id : StreamId) : Frame → Nat
  | .windowUpdate id' n => if id' = id then n.toNat else 0
  | _ => 0

def creditOf (id : StreamId) (fs : List Frame) : Nat := (fs.map (granted id)).sum

@[simp]
theorem creditOf_nil (id : StreamId) : creditOf id [] = 0 := rfl

@[simp]
theorem creditOf_cons (id : StreamId) (f : Frame) (fs : List Frame) :
    creditOf id (f :: fs) = granted id f + creditOf id fs := by
  simp [creditOf]

@[simp]
theorem creditOf_append (id : StreamId) (fs gs : List Frame) :
    creditOf id (fs ++ gs) = creditOf id fs + creditOf id gs := by
  simp [creditOf]

end Frame

namespace Stream

variable {s s' s₁ : Stream} {window n : UInt64} {id : StreamId} {limit : Option Nat}
  {chunk data : Bytes}

/-- What holds of what a stream has received, when its end gives out windows of `window` bytes. -/
structure Content (window : UInt64) (s : Stream) : Prop where
  /-- The window is what may still come, what waits to be read, and what is owed. -/
  balance : s.finReceived = false → s.released = false →
    s.window.available.toNat + s.inbound.flatten.length + s.window.unacknowledged.toNat =
      window.toNat
  owed : s.window.unacknowledged < s.window.threshold
  dropped : s.abandoned = true → s.inbound = []
  kept : s.abandoned = false →
    Ledger.bytes s.ledger.taken ++ s.inbound.flatten = Ledger.bytes s.ledger.received
  read : Ledger.bytes s.ledger.taken <+: Ledger.bytes s.ledger.received
  ended : s.ledger.ended = true →
    s.finReceived = true ∧ Ledger.bytes s.ledger.taken = Ledger.bytes s.ledger.received
  filled : [] ∉ s.inbound

/-- What holds of a stream that has started. -/
structure Sound (window : UInt64) (s : Stream) : Prop extends Content window s where
  undone : s.released = false → (s.localDone && s.remoteDone) = false
  spent : s.released = true → (s.localDone && s.remoteDone) = true ∨ s.error.isSome

/-- Two states of a stream between which nothing happened that the other end could learn of, credit
apart. -/
structure Agrees (s s' : Stream) : Prop where
  id : s'.id = s.id
  direction : s'.direction = s.direction
  remote : s'.remote = s.remote
  finReceived : s'.finReceived = s.finReceived
  credit : s'.credit = s.credit
  finQueued : s'.finQueued = s.finQueued
  resetCode : s'.resetCode = s.resetCode
  error : s'.error = s.error
  released : s'.released = s.released
  sent : s'.ledger.sent = s.ledger.sent
  received : s'.ledger.received = s.ledger.received
  threshold : s'.window.threshold = s.window.threshold

theorem localDone_congr (hd : s'.direction = s.direction) (hr : s'.remote = s.remote)
    (hq : s'.finQueued = s.finQueued) (hc : s'.resetCode = s.resetCode) :
    s'.localDone = s.localDone := by
  simp [localDone,hasWriteSide,hd,hr,hq,hc]

theorem remoteDone_congr (hd : s'.direction = s.direction) (hr : s'.remote = s.remote)
    (hq : s'.finReceived = s.finReceived) (hc : s'.resetCode = s.resetCode) :
    s'.remoteDone = s.remoteDone := by
  simp [remoteDone,hasReadSide,hd,hr,hq,hc]

theorem done_congr (hd : s'.direction = s.direction) (hr : s'.remote = s.remote)
    (hq : s'.finQueued = s.finQueued) (hf : s'.finReceived = s.finReceived)
    (hc : s'.resetCode = s.resetCode) :
    (s'.localDone && s'.remoteDone) = (s.localDone && s.remoteDone) := by
  rw [localDone_congr hd hr hq hc,remoteDone_congr hd hr hf hc]

namespace Agrees

theorem refl (s : Stream) : s.Agrees s :=
  ⟨rfl,rfl,rfl,rfl,rfl,rfl,rfl,rfl,rfl,rfl,rfl,rfl⟩

theorem localDone (h : s.Agrees s') : s'.localDone = s.localDone :=
  localDone_congr h.direction h.remote h.finQueued h.resetCode

theorem remoteDone (h : s.Agrees s') : s'.remoteDone = s.remoteDone :=
  remoteDone_congr h.direction h.remote h.finReceived h.resetCode

end Agrees

theorem writeError_eq_none_iff :
    s.writeError = none ↔ s.hasWriteSide = true ∧ s.disposed = none ∧ s.error = none ∧
      s.resetCode = none ∧ s.finQueued = false := by
  unfold writeError termination
  cases s.hasWriteSide <;> cases s.disposed <;> cases s.error <;> cases s.resetCode <;> simp

theorem termination_eq_none_iff :
    s.termination = none ↔ s.disposed = none ∧ s.error = none ∧ s.resetCode = none := by
  unfold termination
  cases s.disposed <;> cases s.error <;> cases s.resetCode <;> simp

theorem readError_eq_none_iff :
    s.readError = none ↔ s.hasReadSide = true ∧ s.termination = none ∧ s.abandoned = false := by
  unfold readError
  cases s.hasReadSide <;> cases s.termination <;> cases s.abandoned <;> simp

theorem Sound.live (h : s.Sound window) (hw : s.writeError = none) : s.released = false := by
  obtain ⟨hside,-,he,hr,hf⟩ := writeError_eq_none_iff.mp hw
  by_contra hn
  rcases h.spent (Bool.eq_true_of_not_eq_false hn) with hd | hd
  · simp [localDone,hside,hf,hr] at hd
  · simp [he] at hd

theorem Sound.threshold_pos (h : s.Sound window) : 0 < s.window.threshold := by
  have ho := h.owed
  rw [UInt64.lt_iff_toNat_lt] at ho ⊢
  exact Nat.lt_of_le_of_lt (Nat.zero_le _) ho

/-- A stream over which nothing has gone. -/
structure Fresh (own : Options) (peer : Settings) (s : Stream) : Prop where
  inbound : s.inbound = []
  window : s.window = .ofSize own.window own.threshold
  finReceived : s.finReceived = false
  credit : s.credit = ⟨peer.window⟩
  finQueued : s.finQueued = false
  released : s.released = false
  error : s.error = none
  ledger : s.ledger = {}

/-- What a peer can make an end keep for a stream: the window covers what waits to be read, what may
still come and what is owed. -/
structure Bounded (window : UInt64) (s : Stream) : Prop where
  within : s.inbound.flatten.length + s.window.available.toNat + s.window.unacknowledged.toNat ≤
    window.toNat
  exactly : s.finReceived = false → s.released = false →
    s.inbound.flatten.length + s.window.available.toNat + s.window.unacknowledged.toNat =
      window.toNat
  owed : s.window.unacknowledged < s.window.threshold
  idle : s.id = none → s.inbound = []

/-- What an end does with a stream on its own account, announcing `update`: it reads, gives up
reading, or nothing that matters. -/
structure Tends (window : UInt64) (s s' : Stream) (update : Option Frame) : Prop where
  agrees : s.Agrees s'
  announced : ∀ f ∈ update, ∃ id n, s.id = some id ∧ f = .windowUpdate id n
  silent : s.finReceived = true ∨ s.released = true → update = none
  sound : s.id.isSome → s.Sound window → s'.Sound window
  available : s.Sound window → ∀ id, s.id = some id →
    s'.window.available.toNat = s.window.available.toNat + Frame.creditOf id update.toList
  fresh : s.id = none → ∀ own peer, s.Fresh own peer → s'.Fresh own peer
  positive : 0 < s.window.threshold → ∀ id n, update = some (.windowUpdate id n) → 0 < n
  bounded : s.Bounded window → s'.Bounded window

section

variable (s) (len : Nat)

theorem consumed_cases :
    (s.id = none ∨ s.finReceived = true ∨ s.released = true) ∧ s.consumed len = (none, s) ∨
    ∃ id, s.id = some id ∧ s.finReceived = false ∧ s.released = false ∧
      s.consumed len = ((s.window.consume len).1.map (.windowUpdate id),
        { s with window := (s.window.consume len).2 }) := by
  unfold consumed
  cases hid : s.id with
  | none => exact .inl ⟨.inl rfl,rfl⟩
  | some id =>
    by_cases hd : (s.finReceived || s.released) = true
    · exact .inl ⟨.inr (by simpa using hd),if_pos hd⟩
    · obtain ⟨hf,hr⟩ : s.finReceived = false ∧ s.released = false := by simpa using hd
      exact .inr ⟨id,rfl,hf,hr,if_neg hd⟩

theorem consumed_agrees : s.Agrees (s.consumed len).2 := by
  rcases s.consumed_cases len with ⟨-,he⟩ | ⟨_,-,-,-,he⟩ <;> rw [he]
  · exact .refl s
  · exact ⟨rfl,rfl,rfl,rfl,rfl,rfl,rfl,rfl,rfl,rfl,rfl,s.window.consume_threshold len⟩

theorem consumed_snd : (s.consumed len).2 = { s with window := (s.consumed len).2.window } := by
  rcases s.consumed_cases len with ⟨-,he⟩ | ⟨_,-,-,-,he⟩ <;> rw [he]

theorem consumed_ledger : (s.consumed len).2.ledger = s.ledger := by
  rw [consumed_snd]

theorem consumed_inbound : (s.consumed len).2.inbound = s.inbound := by
  rw [consumed_snd]

theorem consumed_abandoned : (s.consumed len).2.abandoned = s.abandoned := by
  rw [consumed_snd]

theorem consumed_announced :
    ∀ f ∈ (s.consumed len).1, ∃ id n, s.id = some id ∧ f = .windowUpdate id n := by
  intro f hf
  rcases s.consumed_cases len with ⟨-,he⟩ | ⟨id,hid,-,-,he⟩ <;> rw [he] at hf
  · cases hf
  · obtain ⟨n,-,rfl⟩ := Option.map_eq_some_iff.mp hf
    exact ⟨id,n,hid,rfl⟩

end

theorem consumed_silent (h : s.finReceived = true ∨ s.released = true) (len : Nat) :
    (s.consumed len).1 = none := by
  rcases s.consumed_cases len with ⟨-,he⟩ | ⟨_,-,hf,hr,-⟩
  · rw [he]
  · simp [hf,hr] at h

theorem consumed_pos (ht : 0 < s.window.threshold)
    (h : (s.consumed len).1 = some (.windowUpdate id n)) : 0 < n := by
  rcases s.consumed_cases len with ⟨-,he⟩ | ⟨_,-,-,-,he⟩ <;> rw [he] at h
  · cases h
  · obtain ⟨m,hm,⟨⟩⟩ := Option.map_eq_some_iff.mp h
    exact ReceiveWindow.consume_pos ht hm

theorem consumed_of_id_eq_none (h : s.id = none) (len : Nat) : s.consumed len = (none, s) := by
  simp only [consumed,h]

theorem consumed_window (window : UInt64) (hid : s.id = some id) (len : Nat)
    (hu : s.window.unacknowledged < s.window.threshold)
    (hb : s.finReceived = false → s.released = false →
      s.window.available.toNat + (s.inbound.flatten.length + len) +
        s.window.unacknowledged.toNat = window.toNat) : let s' := (s.consumed len).2
    s'.window.unacknowledged < s'.window.threshold ∧
    (s'.finReceived = false → s'.released = false →
      s'.window.available.toNat + s'.inbound.flatten.length + s'.window.unacknowledged.toNat =
        window.toNat) ∧
    s'.window.available.toNat =
      s.window.available.toNat + Frame.creditOf id (s.consumed len).1.toList := by
  rcases s.consumed_cases len with ⟨hd,he⟩ | ⟨_,hid',hf,hr,he⟩ <;> rw [he]
  · refine ⟨hu,fun hf hr => ?_,by simp⟩
    simp [hid,show s.finReceived = false from hf,show s.released = false from hr] at hd
  · cases hid.symm.trans hid'
    have hbal := hb hf hr
    have hw := window.toNat_lt
    obtain ⟨h₂,h₃,h₄⟩ := s.window.consume_spec len (by simp only [UInt64.size]; omega) hu
    refine ⟨h₂,fun _ _ => ?_,?_⟩
    · simp only
      omega
    · cases hc : (s.window.consume len).1 <;> simp [hc] at h₃ <;> simp [Frame.granted,h₃]

/-- A stream whose window covers `len` bytes that were just handed on stays covered. -/
theorem bounded_consumed (len : Nat) (hi : s.id = none → s.inbound = [] ∧ len = 0)
    (ho : s.window.unacknowledged < s.window.threshold)
    (hw : s.inbound.flatten.length + len + s.window.available.toNat +
      s.window.unacknowledged.toNat ≤ window.toNat)
    (he : s.finReceived = false → s.released = false →
      s.inbound.flatten.length + len + s.window.available.toNat +
        s.window.unacknowledged.toNat = window.toNat) : (s.consumed len).2.Bounded window := by
  rcases s.consumed_cases len with ⟨hd,heq⟩ | ⟨_,hid,hf,hr,heq⟩ <;> rw [heq]
  · refine ⟨by simp only; omega,fun hf hr => ?_,ho,fun hid => (hi hid).1⟩
    have hsum := he hf hr
    have hlen := (hi (by simpa [show s.finReceived = false from hf,show s.released = false from hr]
      using hd)).2
    simp only
    omega
  · have hsum := he hf hr
    have hlt := window.toNat_lt
    obtain ⟨h₁,h₂,h₃⟩ := s.window.consume_spec len (by simp only [UInt64.size]; omega) ho
    refine ⟨?_,fun _ _ => ?_,h₁,fun hx => by cases hid.symm.trans hx⟩ <;> simp only <;> omega

/-- Handing on `len` bytes that `s` has just taken from what it had buffered in `s₀`. -/
theorem tends_consumed {s₀ s : Stream} (len : Nat) (ha : s₀.Agrees s)
    (hn : s₀.id = none → ∀ own peer, s₀.Fresh own peer → s.Fresh own peer)
    (hw : s.window = s₀.window) (hl : s.inbound.flatten.length + len = s₀.inbound.flatten.length)
    (hd : s.abandoned = true → s.inbound = [])
    (hz : s₀.id = none → s₀.inbound = [] → s.inbound = []) (hm : [] ∉ s₀.inbound → [] ∉ s.inbound)
    (hr : s₀.Sound window → Ledger.bytes s.ledger.taken <+: Ledger.bytes s.ledger.received ∧
      (s.abandoned = false →
        Ledger.bytes s.ledger.taken ++ s.inbound.flatten = Ledger.bytes s.ledger.received) ∧
      (s.ledger.ended = true → s.finReceived = true ∧
        Ledger.bytes s.ledger.taken = Ledger.bytes s.ledger.received)) :
    Tends window s₀ (s.consumed len).2 (s.consumed len).1 := by
  have hc := consumed_agrees s len
  have hboth : s₀.Agrees (s.consumed len).2 :=
    ⟨hc.id.trans ha.id,hc.direction.trans ha.direction,hc.remote.trans ha.remote,
      hc.finReceived.trans ha.finReceived,hc.credit.trans ha.credit,
      hc.finQueued.trans ha.finQueued,hc.resetCode.trans ha.resetCode,hc.error.trans ha.error,
      hc.released.trans ha.released,hc.sent.trans ha.sent,hc.received.trans ha.received,
      hc.threshold.trans ha.threshold⟩
  have hpos (ht : 0 < s₀.window.threshold) (id : StreamId) (n : UInt64)
      (hu : (s.consumed len).1 = some (.windowUpdate id n)) : 0 < n :=
    consumed_pos (by rw [hw]; exact ht) hu
  have hwin {id : StreamId} (hid : s₀.id = some id) (h : s₀.Sound window) :=
    consumed_window window (ha.id.trans hid) len (by rw [hw]; exact h.owed) (by
      intro hf hrel
      have := h.balance (ha.finReceived ▸ hf) (ha.released ▸ hrel)
      rw [hw,hl]
      exact this)
  have hbound (h : s₀.Bounded window) : (s.consumed len).2.Bounded window := by
    have hin := h.within
    refine bounded_consumed len ?_ (hw ▸ h.owed) (by rw [hw]; omega) ?_
    · intro hid
      have hnil := h.idle (ha.id ▸ hid)
      rw [hnil] at hl
      exact ⟨hz (ha.id ▸ hid) hnil,by simp only [List.flatten_nil,List.length_nil] at hl; omega⟩
    · intro hf hrel
      have hex := h.exactly (ha.finReceived ▸ hf) (ha.released ▸ hrel)
      rw [hw]
      omega
  refine ⟨hboth,?_,?_,?_,?_,?_,hpos,hbound⟩
  · intro f hf
    obtain ⟨id',n,h₁,h₂⟩ := consumed_announced s len f hf
    exact ⟨id',n,ha.id ▸ h₁,h₂⟩
  · intro h
    rw [← ha.finReceived,← ha.released] at h
    exact consumed_silent h len
  · intro hi h
    obtain ⟨id,hid⟩ := Option.isSome_iff_exists.mp hi
    obtain ⟨h₁,h₂,-⟩ := hwin hid h
    obtain ⟨r₁,r₂,r₃⟩ := hr h
    refine ⟨⟨h₂,h₁,?_,?_,?_,?_,?_⟩,?_,?_⟩
    · rw [consumed_abandoned,consumed_inbound]
      exact hd
    · rw [consumed_abandoned,consumed_ledger,consumed_inbound]
      exact r₂
    · rw [consumed_ledger]
      exact r₁
    · rw [consumed_ledger,hc.finReceived]
      exact r₃
    · rw [consumed_inbound]
      exact hm h.filled
    · rw [hboth.released,hboth.localDone,hboth.remoteDone]
      exact h.undone
    · rw [hboth.released,hboth.localDone,hboth.remoteDone,hboth.error]
      exact h.spent
  · intro h id hid
    rw [(hwin hid h).2.2,hw]
  · intro hid own peer hf
    rw [consumed_of_id_eq_none (ha.id.trans hid)]
    exact hn hid own peer hf

theorem tends_quiet (window : UInt64) (s : Stream) (unwritten changes : Nat)
    (disposed : Option UInt64) : Tends window s { s with unwritten, changes, disposed } none := by
  refine ⟨⟨rfl,rfl,rfl,rfl,rfl,rfl,rfl,rfl,rfl,rfl,rfl,rfl⟩,by simp,fun _ => rfl,?_,by simp,?_,
    by simp,fun h => { h with }⟩
  · intro _ h
    exact { h with }
  · intro _ own peer h
    exact { h with }

theorem Tends.notify {update : Option Frame} (h : s.Tends window s' update) :
    s.Tends window s'.notify update := by
  have hq := tends_quiet window s' s'.unwritten (s'.changes + 1) s'.disposed
  have ha := h.agrees
  refine ⟨{ ha with },h.announced,h.silent,?_,h.available,?_,h.positive,
    fun hb => hq.bounded (h.bounded hb)⟩
  · intro hi hs
    exact hq.sound (by rwa [ha.id]) (h.sound hi hs)
  · intro hi own peer hf
    exact hq.fresh (by rwa [ha.id]) own peer (h.fresh hi own peer hf)

theorem takeChunk_eq_none_iff : s.takeChunk limit = none ↔ s.inbound = [] := by
  unfold takeChunk
  cases s.inbound <;> cases limit <;> simp
  split <;> simp

theorem takeChunk_spec (h : s.takeChunk limit = some (chunk, s₁)) :
    ∃ rest, s₁ = { s with inbound := rest } ∧ s.inbound.flatten = chunk ++ rest.flatten := by
  unfold takeChunk at h
  split at h
  · cases h
  · rename_i c rest hin
    cases h
    exact ⟨rest,rfl,by simp [hin]⟩
  · rename_i c rest max hin
    split at h
    · cases h
      exact ⟨rest,rfl,by simp [hin]⟩
    · cases h
      refine ⟨c.drop max :: rest,rfl,?_⟩
      rw [hin,List.flatten_cons,List.flatten_cons,← List.append_assoc,List.take_append_drop]

theorem takeChunk_filled (h : s.takeChunk limit = some (chunk, s₁)) (hs : [] ∉ s.inbound) :
    [] ∉ s₁.inbound := by
  unfold takeChunk at h
  split at h
  · cases h
  · rename_i hin
    cases h
    rw [hin] at hs
    exact List.not_mem_of_not_mem_cons hs
  · rename_i hin
    rw [hin] at hs
    split at h
    · cases h
      exact List.not_mem_of_not_mem_cons hs
    · rename_i hlt
      cases h
      intro hx
      rcases List.mem_cons.mp hx with hx | hx
      · rw [eq_comm,List.drop_eq_nil_iff] at hx
        exact hlt hx
      · exact List.not_mem_of_not_mem_cons hs hx

theorem tends_take (hr : s.readError = none) (h : s.takeChunk limit = some (chunk, s₁)) :
    Tends window s ((s₁.noteTaken chunk).consumed chunk.length).2
      ((s₁.noteTaken chunk).consumed chunk.length).1 := by
  have hfilled := takeChunk_filled h
  obtain ⟨rest,rfl,hf⟩ := takeChunk_spec h
  have hab := (readError_eq_none_iff.mp hr).2.2
  refine tends_consumed _ ?_ ?_ ?_ ?_ ?_ ?_ hfilled ?_
  · exact ⟨rfl,rfl,rfl,rfl,rfl,rfl,rfl,rfl,rfl,rfl,rfl,rfl⟩
  · intro _ own peer hfr
    simp [takeChunk,hfr.inbound] at h
  · rfl
  · simp only [noteTaken,hf,List.length_append]
    omega
  · intro hx
    simp [noteTaken,hab] at hx
  · intro _ hx
    simp [takeChunk,hx] at h
  · intro hs
    have hk := hs.kept hab
    rw [hf,← List.append_assoc] at hk
    refine ⟨?_,?_,?_⟩
    · simp only [noteTaken,Ledger.bytes_cons]
      exact ⟨_,hk⟩
    · intro _
      simpa [noteTaken] using hk
    · intro he
      -- at the end of the stream nothing was left to read
      obtain ⟨he₁,he₂⟩ := hs.ended he
      refine ⟨he₁,?_⟩
      simp only [noteTaken,Ledger.bytes_cons]
      rw [← he₂,List.append_assoc] at hk
      have hnil := List.append_right_eq_self.mp hk
      rw [List.append_eq_nil_iff] at hnil
      simp [hnil.1,he₂]

theorem tends_noteEnd (hr : s.readError = none) (h : s.takeChunk limit = none)
    (hf : s.finReceived = true) : Tends window s s.noteEnd none := by
  have hin := takeChunk_eq_none_iff.mp h
  have hab := (readError_eq_none_iff.mp hr).2.2
  refine ⟨⟨rfl,rfl,rfl,rfl,rfl,rfl,rfl,rfl,rfl,rfl,rfl,rfl⟩,by simp,fun _ => rfl,?_,
    by simp [noteEnd],?_,by simp,fun h => { h with }⟩
  · intro _ hs
    have hk := hs.kept hab
    rw [hin,List.flatten_nil,List.append_nil] at hk
    exact { hs with ended := fun _ => ⟨hf,hk⟩ }
  · intro _ own peer hfr
    simp [hfr.finReceived] at hf

theorem tends_abandon (s : Stream) : Tends window s
      ({ s with abandoned := true, inbound := [] }.consumed s.inbound.flatten.length).2
      ({ s with abandoned := true, inbound := [] }.consumed s.inbound.flatten.length).1 := by
  refine tends_consumed _ ?_ ?_ ?_ ?_ ?_ ?_ (fun _ => List.not_mem_nil) ?_
  · exact ⟨rfl,rfl,rfl,rfl,rfl,rfl,rfl,rfl,rfl,rfl,rfl,rfl⟩
  · intro _ own peer h
    exact { h with inbound := rfl }
  · rfl
  · simp
  · simp
  · simp
  · intro hs
    exact ⟨hs.read,by simp,hs.ended⟩

/-- Takes a stream out of use once both ends are done with it. -/
def settle (s : Stream) : Stream :=
  if s.localDone && s.remoteDone then { s with released := true } else s

/-- What taking in a frame of data does to a stream, announcing `update`. -/
structure Receives (window : UInt64) (s s' : Stream) (fin : Bool) (data : Bytes)
    (update : Option Frame) : Prop where
  room : data.length ≤ s.window.available.toNat
  live : s.released = false
  unended : s.finReceived = false
  id : s'.id = s.id
  direction : s'.direction = s.direction
  remote : s'.remote = s.remote
  finReceived : s'.finReceived = fin
  credit : s'.credit = s.credit
  finQueued : s'.finQueued = s.finQueued
  resetCode : s'.resetCode = s.resetCode
  error : s'.error = s.error
  released : s'.released = (fin && s'.localDone && s'.remoteDone)
  sent : s'.ledger.sent = s.ledger.sent
  received : s'.ledger.received = data :: s.ledger.received
  threshold : s'.window.threshold = s.window.threshold
  announced : ∀ f ∈ update, ∃ id n, s.id = some id ∧ f = .windowUpdate id n
  sound : s.Sound window → s'.Sound window
  available : s.Sound window → fin = false → ∀ id, s.id = some id →
    s'.window.available.toNat + data.length =
      s.window.available.toNat + Frame.creditOf id update.toList
  positive : 0 < s.window.threshold → ∀ id n, update = some (.windowUpdate id n) → 0 < n

theorem settle_agrees (s : Stream) :
    s.settle = { s with released := s.released || (s.localDone && s.remoteDone) } := by
  unfold settle
  cases h : s.localDone && s.remoteDone <;> simp

theorem settle_id (s : Stream) : s.settle.id = s.id := by rw [settle_agrees]

theorem settle_markReset (s : Stream) (code : UInt64) :
    (s.markReset code).settle = { s.markReset code with released := true } := by
  simp [settle,localDone,remoteDone,markReset]

/-- What a stream is after a frame of data, before it settles, and what it announces. -/
def afterData (s : Stream) (window : ReceiveWindow) (fin : Bool) (data : Bytes) :
    Option Frame × Stream :=
  let s := { s with window, finReceived := fin }.noteReceived data
  if s.abandoned then s.consumed data.length
  else (none, if data.isEmpty then s else { s with inbound := s.inbound ++ [data] })

theorem afterData_announced (s : Stream) (w : ReceiveWindow) (fin : Bool) (data : Bytes) :
    ∀ f ∈ (s.afterData w fin data).1, ∃ id n, s.id = some id ∧ f = .windowUpdate id n := by
  intro f hf
  unfold afterData at hf
  dsimp only at hf
  split at hf
  · obtain ⟨id,n,hid,rfl⟩ := consumed_announced _ _ f hf
    exact ⟨id,n,hid,rfl⟩
  · cases hf

theorem afterData_kept (ha : s.abandoned = false) (w : ReceiveWindow) (fin : Bool) (data : Bytes) :
    (s.afterData w fin data).1 = none ∧ ∃ inbound,
      inbound.flatten = s.inbound.flatten ++ data ∧ (s.afterData w fin data).2 =
        { s with window := w, finReceived := fin, inbound }.noteReceived data := by
  have he : ¬(({ s with window := w, finReceived := fin } : Stream).noteReceived data).abandoned
      = true := by
    simp [noteReceived,ha]
  unfold afterData
  rw [if_neg he]
  refine ⟨rfl,?_⟩
  cases data with
  | nil => exact ⟨s.inbound,by simp,rfl⟩
  | cons b bs => exact ⟨s.inbound ++ [b :: bs],by simp,rfl⟩

theorem afterData_filled (h : [] ∉ s.inbound) (w : ReceiveWindow) (fin : Bool) (data : Bytes) :
    [] ∉ (s.afterData w fin data).2.inbound := by
  unfold afterData
  dsimp only
  split
  · rw [consumed_inbound]
    exact h
  · cases data with
    | nil => exact h
    | cons b bs => simpa [noteReceived] using h

theorem afterData_dropped (ha : s.abandoned = true) (w : ReceiveWindow) (fin : Bool)
    (data : Bytes) :
    s.afterData w fin data =
      ({ s with window := w, finReceived := fin }.noteReceived data).consumed data.length := by
  have he : (({ s with window := w, finReceived := fin } : Stream).noteReceived data).abandoned
      = true := ha
  unfold afterData
  rw [if_pos he]

theorem afterData_snd (s : Stream) (w : ReceiveWindow) (fin : Bool) (data : Bytes) :
    (s.afterData w fin data).2 = { s with
      finReceived := fin
      window := (s.afterData w fin data).2.window
      inbound := (s.afterData w fin data).2.inbound
      ledger := { s.ledger with received := data :: s.ledger.received } } := by
  unfold afterData
  dsimp only
  split
  · rw [consumed_snd]
    rfl
  · dsimp only
    split <;> rfl

theorem afterData_released (s : Stream) (w : ReceiveWindow) (fin : Bool) (data : Bytes) :
    (s.afterData w fin data).2.released = s.released := by
  rw [afterData_snd]

/-- A change that ends in settling is sound if it was without. -/
theorem Sound.of_settle (h : s.Content window) (hl : s.released = false) :
    s.settle.Sound window := by
  rw [settle_agrees,hl,Bool.false_or]
  exact { h with balance := fun hf _ => h.balance hf hl, undone := fun hx => hx, spent := .inl }

theorem receive_eq_ok {w w' : ReceiveWindow} (h : w.receive len = .ok w') :
    len ≤ w.available.toNat ∧ w' = { w with available := w.available - UInt64.ofNat len } ∧
      w'.available.toNat + len = w.available.toNat := by
  unfold ReceiveWindow.receive at h
  split at h
  · cases h
  · rename_i hlt
    cases h
    have hle : len ≤ w.available.toNat := by omega
    have hlen : (UInt64.ofNat len).toNat = len :=
      UInt64.toNat_ofNat_of_lt' (lt_of_le_of_lt hle w.available.toNat_lt)
    have hsub : (w.available - UInt64.ofNat len).toNat = w.available.toNat - len := by
      rw [UInt64.toNat_sub_of_le _ _ (by rw [UInt64.le_iff_toNat_le,hlen]; exact hle),hlen]
    exact ⟨hle,rfl,by simp only [hsub]; omega⟩

theorem afterData_inbound (s : Stream) (w : ReceiveWindow) (fin : Bool) (data : Bytes) :
    (s.abandoned = true → (s.afterData w fin data).2.inbound = s.inbound) ∧
    (s.abandoned = false →
      (s.afterData w fin data).2.inbound.flatten = s.inbound.flatten ++ data) := by
  refine ⟨fun ha => ?_,fun ha => ?_⟩
  · rw [afterData_dropped ha,consumed_inbound]
    rfl
  · obtain ⟨-,inbound,hin,heq⟩ := afterData_kept ha w fin data
    rw [heq]
    exact hin

theorem afterData_fin (s : Stream) (w : ReceiveWindow) (data : Bytes) :
    (s.afterData w true data).1 = none := by
  cases ha : s.abandoned with
  | false => exact (afterData_kept ha w true data).1
  | true =>
    rw [afterData_dropped ha]
    exact consumed_silent (.inl rfl) _

theorem afterData_threshold (s : Stream) (w : ReceiveWindow) (fin : Bool) (data : Bytes) :
    (s.afterData w fin data).2.window.threshold = w.threshold := by
  cases ha : s.abandoned with
  | false =>
    obtain ⟨-,_,-,heq⟩ := afterData_kept ha w fin data
    rw [heq]
    rfl
  | true =>
    rw [afterData_dropped ha]
    exact (consumed_agrees _ _).threshold

theorem afterData_pos {fin : Bool} (ht : 0 < w.threshold)
    (h : (s.afterData w fin data).1 = some (.windowUpdate id n)) : 0 < n := by
  cases ha : s.abandoned with
  | false =>
    cases ((afterData_kept ha w fin data).1).symm.trans h
  | true =>
    rw [afterData_dropped ha] at h
    exact consumed_pos ht h

theorem afterData_window (hs : s.Sound window) (hid : s.id = some id) (hl : s.released = false)
    (hf : s.finReceived = false) (hw : s.window.receive data.length = .ok w) (fin : Bool) :
    let r := s.afterData w fin data
    r.2.window.unacknowledged < r.2.window.threshold ∧
    (fin = false → r.2.window.available.toNat + r.2.inbound.flatten.length +
      r.2.window.unacknowledged.toNat = window.toNat) ∧
    r.2.window.available.toNat + data.length =
      s.window.available.toNat + Frame.creditOf id r.1.toList := by
  obtain ⟨-,hweq,hav⟩ := receive_eq_ok hw
  have howed : w.unacknowledged < w.threshold := by
    rw [hweq]
    exact hs.owed
  have hbalance := hs.balance hf hl
  rw [← hav,show s.window.unacknowledged = w.unacknowledged by rw [hweq]] at hbalance
  dsimp only
  cases ha : s.abandoned with
  | false =>
    obtain ⟨hn,inbound,hin,heq⟩ := afterData_kept ha w fin data
    rw [hn,heq]
    refine ⟨howed,fun _ => ?_,by simpa [noteReceived] using hav⟩
    simp only [noteReceived,hin,List.length_append]
    omega
  | true =>
    rw [afterData_dropped ha]
    have hc := consumed_agrees ({ s with window := w, finReceived := fin }.noteReceived data)
      data.length
    obtain ⟨h₁,h₂,h₃⟩ := consumed_window window
      (s := { s with window := w, finReceived := fin }.noteReceived data) hid data.length howed (by
        intro _ _
        simp only [noteReceived]
        omega)
    refine ⟨h₁,fun hx => h₂ (hc.finReceived.trans hx) (hc.released.trans hl),?_⟩
    simp only [noteReceived] at h₃ ⊢
    omega

/-- The stream goes out of use with its last frame, if this end is done with it too. -/
theorem receives (window : UInt64) (hid : s.id = some id) (hl : s.released = false)
    (hf : s.finReceived = false) (hw : s.window.receive data.length = .ok w) (fin : Bool) :
    let s' := (s.afterData w fin data).2.notify
    Receives window s { s' with released := fin && s'.localDone && s'.remoteDone } fin data
      (s.afterData w fin data).1 := by
  obtain ⟨hroom,hweq,-⟩ := receive_eq_ok hw
  have hthreshold : w.threshold = s.window.threshold := by rw [hweq]
  have hann := s.afterData_announced w fin data
  have hpos (ht : 0 < s.window.threshold) (id' : StreamId) (n : UInt64)
      (hu : (s.afterData w fin data).1 = some (.windowUpdate id' n)) : 0 < n :=
    afterData_pos (by rw [hthreshold]; exact ht) hu
  have hwindow (hs : s.Sound window) := afterData_window hs hid hl hf hw fin
  have hinbound := s.afterData_inbound w fin data
  have hfilled (hs : [] ∉ s.inbound) := afterData_filled hs w fin data
  have hkept := (s.afterData_threshold w fin data).trans hthreshold
  have hsnd := s.afterData_snd w fin data
  generalize s.afterData w fin data = r at *
  obtain ⟨update,x⟩ := r
  dsimp only at hsnd hann hpos hwindow hinbound hfilled hkept
  generalize x.window = win at *
  generalize x.inbound = inbound at *
  subst hsnd
  refine ⟨hroom,hl,hf,rfl,rfl,rfl,rfl,rfl,rfl,rfl,rfl,rfl,rfl,rfl,hkept,hann,?_,?_,hpos⟩
  · intro hs
    obtain ⟨howed,hbalance,-⟩ := hwindow hs
    refine ⟨⟨fun hx _ => hbalance hx,howed,fun ha => ?_,fun ha => ?_,?_,fun hx => ?_,
      hfilled hs.filled⟩,?_,?_⟩
    · exact (hinbound.1 ha).trans (hs.dropped ha)
    · simp only [notify,hinbound.2 ha,Ledger.bytes_cons,← List.append_assoc,hs.kept ha]
    · exact hs.read.trans (by simp [notify])
    · have := (hs.ended hx).1
      cases hf.symm.trans this
    · cases fin with
      | false =>
        refine fun _ => Eq.trans ?_ (hs.undone hl)
        exact done_congr rfl rfl rfl hf.symm rfl
      | true => exact fun hx => hx
    · intro hx
      simp only [Bool.and_eq_true] at hx
      exact .inl (Bool.and_eq_true_iff.mpr ⟨hx.1.2,hx.2⟩)
  · intro hs _ id' hid'
    cases hid.symm.trans hid'
    exact (hwindow hs).2.2

theorem receives_data (window : UInt64) (hid : s.id = some id) (hl : s.released = false)
    (hf : s.finReceived = false) (hw : s.window.receive data.length = .ok w) :
    Receives window s (s.afterData w false data).2.notify false data
      (s.afterData w false data).1 := by
  have h : Receives window s { (s.afterData w false data).2.notify with released := false } false
      data (s.afterData w false data).1 := receives window hid hl hf hw false
  have hlive : (s.afterData w false data).2.notify.released = false :=
    (s.afterData_released w false data).trans hl
  generalize (s.afterData w false data).2.notify = s' at h hlive ⊢
  cases s'
  cases hlive
  exact h

theorem receives_fin (window : UInt64) (hid : s.id = some id) (hl : s.released = false)
    (hf : s.finReceived = false) (hw : s.window.receive data.length = .ok w) :
    Receives window s (s.afterData w true data).2.notify.settle true data none := by
  have h := receives window hid hl hf hw true
  have hlive : (s.afterData w true data).2.notify.released = false :=
    (s.afterData_released w true data).trans hl
  rw [afterData_fin] at h
  rw [settle_agrees,hlive,Bool.false_or]
  exact h

theorem fresh_fresh (d : Direction) (remote : Bool) (own : Options) (peer : Settings) :
    (fresh d remote own peer).Fresh own peer :=
  ⟨rfl,rfl,rfl,rfl,rfl,rfl,rfl,rfl⟩

theorem Fresh.sound {own : Options} {peer : Settings} (h : s.Fresh own peer)
    (hr : s.resetCode = none) : s.Sound own.window := by
  have hdone : (s.localDone && s.remoteDone) = false := by
    cases hs : s.remote <;>
      simp [localDone,remoteDone,hasWriteSide,hasReadSide,h.finQueued,h.finReceived,hr,hs]
  refine ⟨⟨?_,?_,fun _ => h.inbound,?_,?_,?_,by simp [h.inbound]⟩,fun _ => hdone,?_⟩
  · intro _ _
    simp [h.window,h.inbound,ReceiveWindow.ofSize]
  · rw [h.window]
    exact ReceiveWindow.ofSize_owed _ _
  · intro _
    simp [h.ledger,h.inbound]
  · simp [h.ledger]
  · intro hx
    simp [h.ledger] at hx
  · intro hx
    simp [h.released] at hx

end Stream

end Multiplex
