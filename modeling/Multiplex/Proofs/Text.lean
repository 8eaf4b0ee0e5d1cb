import Multiplex.Text
import Mathlib.Tactic.IntervalCases

/-!
Texts are read back from their bytes, also by the reader that takes any bytes at all.
-/

namespace Multiplex

namespace Bytes

theorem toList_loop (a : ByteArray) (i : Nat) (done : Bytes) :
    ByteArray.toList.loop a i done = done.reverse ++ a.data.toList.drop i := by
  fun_induction ByteArray.toList.loop a i done with
  | case1 i done hlt ih =>
    have hget : a.get! i = a.data[i] := getElem!_pos a.data i hlt
    have hdrop := List.drop_eq_getElem_cons (l := a.data.toList) (i := i) (by simpa using hlt)
    rw [ih,hget,hdrop]
    simp
  | case2 i done hge =>
    have hlen : a.data.toList.length ≤ i := by simpa using hge
    simp [List.drop_eq_nil_of_le hlen]

theorem toString?_ofString (s : String) : toString? (ofString s) = some s := by
  have hbytes : (⟨(ofString s).toArray⟩ : ByteArray) = s.toByteArray := by
    simp [ofString,ByteArray.toList,toList_loop]
  unfold toString?
  rw [hbytes,String.fromUTF8?,dif_pos s.isValidUTF8]
  rfl

theorem ofString_eq (s : String) : ofString s = s.toList.flatMap String.utf8EncodeChar := by
  have hbytes : s.toByteArray.data = (s.toList.flatMap String.utf8EncodeChar).toArray := by
    rw [← String.utf8Encode_toList,List.utf8Encode,List.data_toByteArray]
  simp [ofString,ByteArray.toList,toList_loop,hbytes]

end Bytes

namespace Text

section Lead

variable {n : Nat}

theorem lead_one (h : n < 0x80) : lead (UInt8.ofNat n) = .whole (Char.ofNat n) := by
  have hn : (UInt8.ofNat n).toNat = n := UInt8.toNat_ofNat_of_lt' (h.trans (by decide))
  have hlt : UInt8.ofNat n < 0x80 := by
    rw [UInt8.lt_iff_toNat_lt,hn]
    exact h
  simp only [lead,if_pos hlt,hn]

theorem lead_two (h : 0xc2 ≤ n) (h' : n < 0xe0) :
    lead (UInt8.ofNat n) = .more ⟨n - 0xc0, 1, 0x80, 0xbf⟩ := by
  interval_cases n <;> rfl

/-- The ranges of the second byte depend on the first. -/
theorem lead_three (h : 0xe0 ≤ n) (h' : n < 0xf0) :
    lead (UInt8.ofNat n) = .more ⟨n - 0xe0, 2, UInt8.ofNat (if n = 0xe0 then 0xa0 else 0x80),
      UInt8.ofNat (if n = 0xed then 0x9f else 0xbf)⟩ := by
  interval_cases n <;> rfl

theorem lead_four (h : 0xf0 ≤ n) (h' : n ≤ 0xf4) :
    lead (UInt8.ofNat n) = .more ⟨n - 0xf0, 3, UInt8.ofNat (if n = 0xf0 then 0x90 else 0x80),
      UInt8.ofNat (if n = 0xf4 then 0x8f else 0xbf)⟩ := by
  interval_cases n <;> rfl

end Lead

section Read

variable {b : UInt8} {p : Partial} (rest : Bytes)

theorem lossyFrom_whole {c : Char} (h : lead b = .whole c) :
    lossyFrom none (b :: rest) = c :: lossyFrom none rest := by
  simp [lossyFrom,h]

theorem lossyFrom_more (h : lead b = .more p) :
    lossyFrom none (b :: rest) = lossyFrom (some p) rest := by
  simp [lossyFrom,h]

theorem lossyFrom_last (hl : p.low ≤ b) (hh : b ≤ p.high) (hm : p.missing ≤ 1) :
    lossyFrom (some p) (b :: rest) =
      Char.ofNat (p.bits * 64 + (b.toNat - 0x80)) :: lossyFrom none rest := by
  simp [lossyFrom,hl,hh,hm]

theorem lossyFrom_next (hl : p.low ≤ b) (hh : b ≤ p.high) (hm : ¬p.missing ≤ 1) :
    lossyFrom (some p) (b :: rest) =
      lossyFrom (some ⟨p.bits * 64 + (b.toNat - 0x80), p.missing - 1, 0x80, 0xbf⟩) rest := by
  simp [lossyFrom,hl,hh,hm]

end Read

section Ranges

variable {m n : Nat}

theorem toNat_ofNat (h : n < 256) : (UInt8.ofNat n).toNat = n := UInt8.toNat_ofNat_of_lt' h

theorem ofNat_le (h : m ≤ n) (hn : n < 256) : UInt8.ofNat m ≤ UInt8.ofNat n := by
  rw [UInt8.le_iff_toNat_le,toNat_ofNat hn,toNat_ofNat (lt_of_le_of_lt h hn)]
  exact h

/-- The bytes behind the first hold six bits each. -/
theorem low_le (n : Nat) : 0x80 ≤ UInt8.ofNat (n % 64 + 128) :=
  ofNat_le (m := 128) (by omega) (by omega)

theorem le_high (n : Nat) : UInt8.ofNat (n % 64 + 128) ≤ 0xbf :=
  ofNat_le (n := 191) (by omega) (by omega)

end Ranges

theorem lossyFrom_utf8 (c : Char) (rest : Bytes) :
    lossyFrom none (String.utf8EncodeChar c ++ rest) = c :: lossyFrom none rest := by
  have hvalid : c.val.toNat < 0xd800 ∨ 0xdfff < c.val.toNat ∧ c.val.toNat < 0x110000 := c.valid
  have hchar : Char.ofNat c.val.toNat = c := Char.ofNat_toNat c
  unfold String.utf8EncodeChar
  generalize c.val.toNat = v at hvalid hchar
  have hlast : (UInt8.ofNat (v % 64 + 128)).toNat - 0x80 = v % 64 := by
    rw [toNat_ofNat (by omega)]
    omega
  have hsecond : (UInt8.ofNat (v / 64 % 64 + 128)).toNat - 0x80 = v / 64 % 64 := by
    rw [toNat_ofNat (by omega)]
    omega
  have hthird : (UInt8.ofNat (v / 4096 % 64 + 128)).toNat - 0x80 = v / 4096 % 64 := by
    rw [toNat_ofNat (by omega)]
    omega
  dsimp only
  split
  · rw [List.singleton_append,lossyFrom_whole rest (lead_one (by omega)),hchar]
  · split
    · rw [List.cons_append,List.singleton_append,
        lossyFrom_more _ (lead_two (by omega) (by omega)),
        lossyFrom_last rest (low_le v) (le_high v) le_rfl,hlast]
      have hbits : (v / 64 % 32 + 192 - 192) * 64 + v % 64 = v := by omega
      rw [hbits,hchar]
    · split
      · rw [List.cons_append,List.cons_append,List.singleton_append,
          lossyFrom_more _ (lead_three (by omega) (by omega)),
          lossyFrom_next _ (ofNat_le (by split <;> omega) (by omega))
            (ofNat_le (by split <;> omega) (by split <;> omega)) (by simp),
          lossyFrom_last rest (low_le v) (le_high v) le_rfl,hsecond,hlast]
        have hbits : ((v / 4096 % 16 + 224 - 224) * 64 + v / 64 % 64) * 64 + v % 64 = v := by omega
        rw [hbits,hchar]
      · rw [List.cons_append,List.cons_append,List.cons_append,List.singleton_append,
          lossyFrom_more _ (lead_four (by omega) (by omega)),
          lossyFrom_next _ (ofNat_le (by split <;> omega) (by omega))
            (ofNat_le (by split <;> omega) (by split <;> omega)) (by simp),
          lossyFrom_next _ (low_le (v / 64)) (le_high (v / 64)) (by simp),
          lossyFrom_last rest (low_le v) (le_high v) le_rfl,hthird,hsecond,hlast]
        have hbits : (((v / 262144 % 8 + 240 - 240) * 64 + v / 4096 % 64) * 64 + v / 64 % 64) * 64 +
            v % 64 = v := by omega
        rw [hbits,hchar]

theorem lossy_ofString (s : String) : lossy (Bytes.ofString s) = s := by
  have hchars (cs : List Char) : lossyFrom none (cs.flatMap String.utf8EncodeChar) = cs := by
    induction cs with
    | nil => rfl
    | cons c cs ih => rw [List.flatMap_cons,lossyFrom_utf8,ih]
  rw [lossy,Bytes.ofString_eq,hchars,String.ofList_toList]

end Text

end Multiplex
