/-!
Byte strings, and the little-endian words that the wire formats are made of.
-/

namespace Multiplex

abbrev Bytes := List UInt8

namespace Bytes

/-- The `n` lowest bytes of `v`, lowest first. -/
def ofWord : Nat → Nat → Bytes
  | 0, _ => []
  | n + 1, v => UInt8.ofNat v :: ofWord n (v / 256)

def toWord : Bytes → Nat
  | [] => 0
  | b :: bs => b.toNat + 256 * toWord bs

def ofUInt16 (v : UInt16) : Bytes := ofWord 2 v.toNat

def ofUInt32 (v : UInt32) : Bytes := ofWord 4 v.toNat

def ofUInt64 (v : UInt64) : Bytes := ofWord 8 v.toNat

def toUInt16 (bs : Bytes) : UInt16 := UInt16.ofNat (toWord bs)

def toUInt32 (bs : Bytes) : UInt32 := UInt32.ofNat (toWord bs)

def toUInt64 (bs : Bytes) : UInt64 := UInt64.ofNat (toWord bs)

def ofString (s : String) : Bytes := s.toByteArray.toList

def toString? (bs : Bytes) : Option String := String.fromUTF8? ⟨bs.toArray⟩

def holds : Nat → Bytes → Bool
  | 0, _ => true
  | _ + 1, [] => false
  | n + 1, _ :: bs => holds n bs

@[simp]
theorem length_ofWord (n v : Nat) : (ofWord n v).length = n := by
  induction n generalizing v with
  | zero => rfl
  | succ n ih => simp [ofWord, ih]

theorem holds_iff (n : Nat) (bs : Bytes) : holds n bs = true ↔ n ≤ bs.length := by
  induction n generalizing bs with
  | zero => simp [holds]
  | succ n ih => cases bs <;> simp [holds, ih]

end Bytes

end Multiplex
