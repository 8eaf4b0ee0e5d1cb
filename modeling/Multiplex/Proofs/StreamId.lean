import Multiplex.StreamId
import Mathlib.Tactic

/-!
A stream id gives back the parts it was made of, as long as the sequence number has at most 62 bits.
-/

namespace Multiplex

def Role.other : Role → Role
  | .client => .server
  | .server => .client

namespace Role

@[simp]
theorem other_other (r : Role) : r.other.other = r := by cases r <;> rfl

@[simp]
theorem other_ne (r : Role) : r.other ≠ r := by cases r <;> decide

theorem eq_other_of_ne {r q : Role} (h : r ≠ q) : r = q.other := by
  cases r <;> cases q <;> first | rfl | exact absurd rfl h

end Role

namespace StreamId

def span : Nat := 2 ^ 62

def bits (d : Direction) (r : Role) : Nat :=
  (if d = .unidirectional then 2 else 0) + (if r = .server then 1 else 0)

theorem toNat_ofParts (k : Nat) (d : Direction) (r : Role) (h : k < span) :
    (ofParts (UInt64.ofNat k) d r).value.toNat = k * 4 + bits d r := by
  have hk : (UInt64.ofNat k).toNat = k :=
    UInt64.toNat_ofNat_of_lt' (h.trans (by decide))
  cases d <;> cases r <;> simp [ofParts,bits,UInt64.toNat_add,UInt64.toNat_mul,hk] <;>
    (unfold span at h; omega)

theorem sequence_ofParts (k : Nat) (d : Direction) (r : Role) (h : k < span) :
    (ofParts (UInt64.ofNat k) d r).sequence.toNat = k := by
  have hv := toNat_ofParts k d r h
  have hb : bits d r < 4 := by cases d <;> cases r <;> decide
  rw [sequence,UInt64.toNat_div,hv]
  simp
  omega

theorem direction_ofParts (k : Nat) (d : Direction) (r : Role) (h : k < span) :
    (ofParts (UInt64.ofNat k) d r).direction = d := by
  have hv := toNat_ofParts k d r h
  have he : ((ofParts (UInt64.ofNat k) d r).value / 2 % 2 = 0) ↔
      (ofParts (UInt64.ofNat k) d r).value.toNat / 2 % 2 = 0 := by
    rw [← UInt64.toNat_inj]
    simp
  rw [direction]
  simp only [he,hv]
  cases d <;> cases r <;> simp [bits] <;> omega

/-- The side that opens a stream shows in its id even when the sequence numbers are used up. -/
theorem initiator_ofParts (n : UInt64) (d : Direction) (r : Role) :
    (ofParts n d r).initiator = r := by
  have he : ((ofParts n d r).value % 2 = 0) ↔ (ofParts n d r).value.toNat % 2 = 0 := by
    rw [← UInt64.toNat_inj]
    simp
  rw [initiator]
  simp only [he]
  cases d <;> cases r <;> simp [ofParts,UInt64.toNat_add,UInt64.toNat_mul] <;> omega

theorem ofParts_self (id : StreamId) :
    ofParts (UInt64.ofNat id.sequence.toNat) id.direction id.initiator = id := by
  have hlt : id.sequence.toNat < span := by
    have := id.value.toNat_lt
    simp only [sequence,UInt64.toNat_div]
    unfold span
    simp
    omega
  have h₁ : (id.value / 2 % 2 = 0) ↔ id.value.toNat / 2 % 2 = 0 := by
    rw [← UInt64.toNat_inj]
    simp
  have h₂ : (id.value % 2 = 0) ↔ id.value.toNat % 2 = 0 := by
    rw [← UInt64.toNat_inj]
    simp
  have hv := toNat_ofParts id.sequence.toNat id.direction id.initiator hlt
  have hb : bits id.direction id.initiator = id.value.toNat % 4 := by
    unfold bits direction initiator
    simp only [h₁,h₂]
    by_cases hd : id.value.toNat / 2 % 2 = 0 <;> by_cases hr : id.value.toNat % 2 = 0 <;>
      simp only [hd,hr,if_true,if_false,reduceCtorEq] <;> omega
  rw [hb] at hv
  have hs : id.sequence.toNat = id.value.toNat / 4 := by
    simp [sequence]
  rw [hs] at hv ⊢
  have heq := UInt64.toNat_inj.mp (hv.trans (by omega : _ = id.value.toNat))
  cases id
  exact congrArg StreamId.mk heq

end StreamId

end Multiplex
