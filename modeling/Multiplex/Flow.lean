/-!
Flow control of one stream: the credit its sender may spend, and the window its receiver keeps.
Every byte sent takes one unit of credit; the receiver gives units back once enough bytes were
consumed.
-/

namespace Multiplex

structure SendCredit where
  available : UInt64
  deriving DecidableEq, Repr

namespace SendCredit

def consume (c : SendCredit) (wanted : UInt64) : UInt64 × SendCredit :=
  let taken := min wanted c.available
  (taken, ⟨c.available - taken⟩)

/-- Adds credit that the peer granted. The sum stops at the largest word. -/
def grant (c : SendCredit) (increment : UInt64) : SendCredit :=
  ⟨UInt64.ofNat (min (c.available.toNat + increment.toNat) (UInt64.size - 1))⟩

end SendCredit

structure WindowExceeded where
  received : Nat
  available : UInt64
  deriving DecidableEq, Repr

def WindowExceeded.message (e : WindowExceeded) : String :=
  s!"received {e.received} bytes with only {e.available} bytes of window left"

/-- What the peer may still send, the bytes consumed and not yet given back, and how many of those
are worth announcing. -/
structure ReceiveWindow where
  available : UInt64
  unacknowledged : UInt64
  threshold : UInt64
  deriving DecidableEq, Repr

namespace ReceiveWindow

/-- A window of `size` bytes that is replenished once `percent` of it was consumed, and never
before one byte was. -/
def ofSize (size : UInt64) (percent : UInt8) : ReceiveWindow where
  available := size
  unacknowledged := 0
  threshold := max 1 (UInt64.ofNat (min (size.toNat * percent.toNat) (UInt64.size - 1)) / 100)

def receive (w : ReceiveWindow) (len : Nat) : Except WindowExceeded ReceiveWindow :=
  if w.available.toNat < len then .error ⟨len, w.available⟩
  else .ok { w with available := w.available - UInt64.ofNat len }

/-- Accounts for `len` bytes handed on, and gives the increment to announce, if any. -/
def consume (w : ReceiveWindow) (len : Nat) : Option UInt64 × ReceiveWindow :=
  let owed := w.unacknowledged + UInt64.ofNat len
  if owed < w.threshold then (none, { w with unacknowledged := owed })
  else (some owed, { w with available := w.available + owed, unacknowledged := 0 })

end ReceiveWindow

end Multiplex
