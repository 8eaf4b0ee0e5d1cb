import Multiplex.Proofs.Desk
import Multiplex.Proofs.Wire

/-!
Headers and payloads that are read off a stream. What comes of it is a matter of all bytes that have
come and of the end of the stream, not of how the bytes were cut into frames or when the reader
looked.
-/

namespace Multiplex

namespace Standing

variable {a a' : Standing}

theorem Says.sent {w : Bytes} (h : a.Says w a') : a'.sent = a.sent ++ w := by
  cases h.ages <;> rfl

end Standing

namespace Stream

/-- What was read of a stream that is not given up, and what waits, is what has come. -/
structure Accounted (s : Stream) : Prop where
  kept : s.abandoned = false →
    Ledger.bytes s.ledger.taken ++ s.inbound.flatten = Ledger.bytes s.ledger.received
  ended : s.ledger.ended = true →
    s.finReceived = true ∧ Ledger.bytes s.ledger.taken = Ledger.bytes s.ledger.received

end Stream

namespace Connection

variable {c : Connection} {i : Nat} {s : Stream}

theorem Registry.accounted (h : c.Registry) (hi : c.streams[i]? = some s) : s.Accounted := by
  cases hid : s.id with
  | none =>
    have hfresh := (h.idle hi hid).1
    refine ⟨fun _ => ?_,fun he => ?_⟩
    · rw [hfresh.inbound,hfresh.ledger]
      rfl
    · rw [hfresh.ledger] at he
      cases he
  | some id =>
    have hs := (h.held hi hid).sound
    exact ⟨hs.kept,hs.ended⟩

/-- No chunk is empty, so nothing waits once everything was read. -/
theorem Registry.tidy (h : c.Registry) (hi : c.streams[i]? = some s) : s.Tidy := by
  intro he
  have haccounted := h.accounted hi
  obtain ⟨hfin,hall⟩ := haccounted.ended he
  refine ⟨hfin,?_⟩
  cases hid : s.id with
  | none => exact (h.idle hi hid).1.inbound
  | some id =>
    have hs := (h.held hi hid).sound
    cases hab : s.abandoned with
    | true => exact hs.dropped hab
    | false =>
      have hkept := hs.kept hab
      rw [← hall] at hkept
      have hnil := List.flatten_eq_nil_iff.mp (List.append_right_eq_self.mp hkept)
      refine List.eq_nil_iff_forall_not_mem.mpr fun bs hbs => hs.filled ?_
      rwa [hnil bs hbs] at hbs

theorem Registry.stands (h : c.Registry) (hi : c.streams[i]? = some s) : c.Stands i s.standing :=
  ⟨s,hi,rfl,h.tidy hi⟩

end Connection

namespace Rpc

section Scanning

variable {α : Type} {reader : Json.Reader α} {max : Nat} {r : Except Error α}
  {bytes text rest more : Bytes}

/-- Whether a header of the given text is allowed where headers have at most `max` bytes. -/
def Fits (max : Nat) (text : Bytes) : Prop := text.length ≤ max ∧ text.length < UInt32.size

def framed (text : Bytes) : Bytes := Bytes.ofWord lengthSize text.length ++ text

end Scanning

section Receiving

variable {α : Type} {reader : Json.Reader α} {max : Nat} {a₀ a a' : Standing} {b : Bool}

/-- What a message that was read since `a₀` can come to. -/
inductive Received (reader : Json.Reader α) (max : Nat) (a₀ : Standing) :
    Except Error (α × List Bytes) → Standing → Prop
  | message {x : α} {got : Bytes} {chunks : List Bytes} {a : Standing}
      (scan : scanHeader reader max got = some (.ok x, []))
      (h : (a₀.take (got ++ chunks.flatten)).see.Ages a) :
      Received reader max a₀ (.ok (x, chunks)) a
  | failed {e : Error} {a : Standing} (h : Scanned reader max a₀ (.error e) a) :
      Received reader max a₀ (.error e) a
  | lost {e : Error} {a : Standing} (gone : a.gone = true) : Received reader max a₀ (.error e) a

theorem Received.later {r : Except Error (α × List Bytes)} (h : Received reader max a₀ r a)
    (ha : a.Ages a') : Received reader max a₀ r a' := by
  cases h with
  | message scan h => exact .message scan (h.trans ha)
  | failed h => exact .failed (h.later ha)
  | lost gone => exact .lost (ha.gone gone)

section Reads

end Reads

end Receiving

section Sending

variable {a₀ a a' : Standing} {b : Bool} {text : Bytes} {max : Nat} {r : Except Error Unit}

/-- Whether some of a header was sent since `a₀`. -/
def SentPart (text : Bytes) (a₀ a : Standing) : Prop :=
  ∃ part, part <+: framed text ∧ a₀.Says part a

/-- What sending a header since `a₀` can come to. -/
def SentHeader (text : Bytes) (a₀ : Standing) (r : Except Error Unit) (a : Standing) : Prop :=
  ∃ part, part <+: framed text ∧ a₀.Says part a ∧ (r = .ok () → part = framed text)

theorem SentPart.later (h : SentPart text a₀ a) (ha : a.Ages a') : SentPart text a₀ a' := by
  obtain ⟨part,hpart,h⟩ := h
  exact ⟨part,hpart,h.later ha⟩

theorem SentHeader.later (h : SentHeader text a₀ r a) (ha : a.Ages a') :
    SentHeader text a₀ r a' := by
  obtain ⟨part,hpart,h,hall⟩ := h
  exact ⟨part,hpart,h.later ha,hall⟩

end Sending

inductive HeaderKind : Type → Type 1
  | request : HeaderKind RequestHeader
  | response : HeaderKind ResponseHeader

namespace HeaderKind

variable {α : Type}

def encode : HeaderKind α → α → Bytes
  | .request => RequestHeader.encode
  | .response => ResponseHeader.encode

def reader : HeaderKind α → Json.Reader α
  | .request => RequestHeader.reader
  | .response => ResponseHeader.reader

theorem decode_encode (kind : HeaderKind α) (h : α) :
    decodeHeader kind.reader (kind.encode h) = .ok h := by
  cases kind with
  | request => rw [decodeHeader,reader,encode,RequestHeader.whole_encode]
  | response => rw [decodeHeader,reader,encode,ResponseHeader.whole_encode]

end HeaderKind

namespace Desk

variable {α : Type} {i : Nat} {t₀ t : Stream}

def stream (d : Desk α) (i : Nat) : Option Stream := d.station.connection.streams[i]?

section Verdicts

variable {reader : Json.Reader α} {max : Nat} {got : Bytes}

variable {s : Station} {β : Type} {p : Process β}

end Verdicts

section Results

variable {kind : HeaderKind α} {max : Nat} {rest : Bytes} {work : Halted (Except Error α)}

end Results

section Writing

variable {s : Station} {text : Bytes} {max : Nat}

end Writing

def letter : RequestHeader := { path := "/ü", operation := "get" }

end Desk

end Rpc

end Multiplex
