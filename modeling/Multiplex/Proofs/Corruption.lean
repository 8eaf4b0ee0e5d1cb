import Multiplex.Proofs.RoundTrip

/-!
What the checksum of a frame guards against. A shift of the remainder is linear and loses nothing,
and as long as the remainder of a difference is small it has only been moved down, so that any
change within four bytes leaves a remainder.
-/

namespace Multiplex

namespace Crc32c

variable {c : UInt32} {bs bs' : Bytes}

theorem and_one_eq_one_iff (c : UInt32) : c &&& 1 = 1 ↔ c.toNat % 2 = 1 := by
  rw [← UInt32.toNat_inj,UInt32.toNat_and]
  exact Nat.and_one_is_mod c.toNat ▸ Iff.rfl

theorem shift_xor (c d : UInt32) : shift (c ^^^ d) = shift c ^^^ shift d := by
  have hparity : (c ^^^ d).toNat % 2 = (c.toNat % 2 + d.toNat % 2) % 2 := by
    rw [UInt32.toNat_xor,← Nat.and_one_is_mod,Nat.and_xor_distrib_right,Nat.and_one_is_mod,
      Nat.and_one_is_mod]
    rcases Nat.mod_two_eq_zero_or_one c.toNat with hc | hc <;>
      rcases Nat.mod_two_eq_zero_or_one d.toNat with hd | hd <;> rw [hc,hd] <;> rfl
  have hcancel (a b p : UInt32) : a ^^^ b = (a ^^^ p) ^^^ (b ^^^ p) := by
    rw [UInt32.xor_comm b p,← UInt32.xor_assoc,UInt32.xor_assoc a p p,UInt32.xor_self,
      UInt32.xor_zero]
  simp only [shift,and_one_eq_one_iff,hparity,UInt32.shiftRight_xor]
  rcases Nat.mod_two_eq_zero_or_one c.toNat with hc | hc <;>
    rcases Nat.mod_two_eq_zero_or_one d.toNat with hd | hd <;>
    simp only [hc,hd,Nat.reduceAdd,Nat.reduceMod,Nat.reduceEqDiff,reduceIte]
  · exact UInt32.xor_assoc _ _ _
  · rw [UInt32.xor_assoc,UInt32.xor_comm _ poly,← UInt32.xor_assoc]
  · exact hcancel _ _ poly

/-- A bit that leaves at the bottom shows at the top, so a remainder that stays small was only moved
down. -/
theorem toNat_of_shift_lt (h : (shift c).toNat < 2 ^ 31) : c.toNat = 2 * (shift c).toNat := by
  have hhalf : (c >>> 1).toNat = c.toNat / 2 := by
    rw [UInt32.toNat_shiftRight]
    exact Nat.shiftRight_one _
  unfold shift at h ⊢
  split at h
  · have htop : ((c >>> 1) ^^^ poly).toNat.testBit 31 = true := by
      have hlow : (c >>> 1).toNat.testBit 31 = false := by
        refine Nat.testBit_lt_two_pow ?_
        have hc := c.toNat_lt
        omega
      rw [UInt32.toNat_xor,Nat.testBit_xor,hlow]
      decide
    exact absurd (Nat.ge_two_pow_of_testBit htop) (Nat.not_le.mpr h)
  · rename_i hodd
    rw [and_one_eq_one_iff] at hodd
    rw [if_neg (mt (and_one_eq_one_iff c).mp hodd),hhalf]
    omega

/-- Moves the remainder down a byte. -/
def octet (c : UInt32) : UInt32 := shift^[8] c

theorem step_eq (c : UInt32) (b : UInt8) : step c b = octet (c ^^^ b.toUInt32) := rfl

theorem octet_xor (c d : UInt32) : octet (c ^^^ d) = octet c ^^^ octet d := by
  have hn (n : Nat) (c d : UInt32) : shift^[n] (c ^^^ d) = shift^[n] c ^^^ shift^[n] d := by
    induction n generalizing c d with
    | zero => rfl
    | succ n ih =>
      rw [Function.iterate_succ_apply,shift_xor,ih]
      rfl
  exact hn 8 c d

theorem toNat_of_octet_lt (h : (octet c).toNat < 2 ^ 24) : c.toNat = 256 * (octet c).toNat := by
  have hn (n : Nat) (c : UInt32) (hn : n ≤ 8) (hc : (shift^[n] c).toNat < 2 ^ 24) :
      c.toNat = 2 ^ n * (shift^[n] c).toNat := by
    induction n generalizing c with
    | zero => simp
    | succ n ih =>
      rw [Function.iterate_succ_apply] at hc ⊢
      have hstep := ih (shift c) (by omega) hc
      have hpow : 2 ^ n ≤ 2 ^ 7 := Nat.pow_le_pow_right (by decide) (by omega)
      have hsmall : (shift c).toNat < 2 ^ 31 := by
        calc (shift c).toNat = 2 ^ n * (shift^[n] (shift c)).toNat := hstep
          _ ≤ 2 ^ 7 * (shift^[n] (shift c)).toNat := Nat.mul_le_mul_right _ hpow
          _ < 2 ^ 31 := by omega
      rw [toNat_of_shift_lt hsmall,hstep,Nat.pow_succ]
      ring
  exact hn 8 c le_rfl h

theorem step_xor (c d : UInt32) (b b' : UInt8) :
    step c b ^^^ step d b' = octet ((c ^^^ d) ^^^ (b ^^^ b').toUInt32) := by
  rw [step_eq,step_eq,← octet_xor,UInt8.toUInt32_xor]
  congr 1
  rw [UInt32.xor_assoc,UInt32.xor_assoc,← UInt32.xor_assoc _ d,UInt32.xor_comm _ d,
    UInt32.xor_assoc d]

/-- Remainders that four bytes, or fewer, make equal differ in no more than so many bytes. -/
theorem xor_lt_of_update_eq {d : UInt32} (hl : bs'.length = bs.length) (h4 : bs.length ≤ 4)
    (h : update c bs = update d bs') : (c ^^^ d).toNat < 2 ^ (8 * bs.length) := by
  induction bs generalizing bs' c d with
  | nil =>
    obtain rfl := List.eq_nil_of_length_eq_zero hl
    obtain rfl : c = d := h
    simp
  | cons b bs ih =>
    obtain ⟨b',bs',rfl⟩ := List.exists_cons_of_length_eq_add_one hl
    have hrest := ih (c := step c b) (d := step d b') (by simpa using hl) (by simp at h4; omega) h
    have hn : 8 * bs.length ≤ 24 := by simp at h4; omega
    have hmoved := toNat_of_octet_lt (c := (c ^^^ d) ^^^ (b ^^^ b').toUInt32) (by
      rw [← step_xor]
      exact hrest.trans_le (Nat.pow_le_pow_right (by decide) hn))
    rw [← step_xor] at hmoved
    have hpow : 2 ^ (8 * (b :: bs).length) = 256 * 2 ^ (8 * bs.length) := by
      rw [List.length_cons,Nat.mul_add,Nat.pow_add]
      ring
    have hboth : ((c ^^^ d) ^^^ (b ^^^ b').toUInt32).toNat < 2 ^ (8 * (b :: bs).length) := by
      rw [hmoved,hpow]
      exact Nat.mul_lt_mul_of_pos_left hrest (by decide)
    have hbyte : (b ^^^ b').toUInt32.toNat < 2 ^ (8 * (b :: bs).length) := by
      have hlt := (b ^^^ b').toNat_lt
      have hone := Nat.one_le_two_pow (n := 8 * bs.length)
      rw [UInt8.toNat_toUInt32,hpow]
      omega
    have hback : c ^^^ d = ((c ^^^ d) ^^^ (b ^^^ b').toUInt32) ^^^ (b ^^^ b').toUInt32 := by
      rw [UInt32.xor_assoc,UInt32.xor_self,UInt32.xor_zero]
    rw [hback,UInt32.toNat_xor]
    exact Nat.xor_lt_two_pow hboth hbyte

/-- From one remainder, four bytes or fewer lead to as many remainders as there are of them. -/
theorem eq_of_update_eq (hl : bs'.length = bs.length) (h4 : bs.length ≤ 4)
    (h : update c bs = update c bs') : bs' = bs := by
  induction bs generalizing bs' c with
  | nil => exact List.eq_nil_of_length_eq_zero hl
  | cons b bs ih =>
    obtain ⟨b',bs',rfl⟩ := List.exists_cons_of_length_eq_add_one hl
    have hl' : bs'.length = bs.length := by simpa using hl
    have hn : 8 * bs.length ≤ 24 := by simp at h4; omega
    have hrest := xor_lt_of_update_eq (c := step c b) (d := step c b') hl' (by omega) h
    have hmoved := toNat_of_octet_lt (c := (c ^^^ c) ^^^ (b ^^^ b').toUInt32) (by
      rw [← step_xor]
      exact hrest.trans_le (Nat.pow_le_pow_right (by decide) hn))
    rw [← step_xor,UInt32.xor_self,UInt32.zero_xor,UInt8.toNat_toUInt32] at hmoved
    -- a byte is no multiple of 256 but zero
    have hbyte := (b ^^^ b').toNat_lt
    have hzero : (b ^^^ b').toNat = 0 := by omega
    have hb : b = b' := UInt8.xor_eq_zero_iff.mp (UInt8.toNat_inj.mp hzero)
    subst hb
    rw [ih (c := step c b) hl' (by omega) h]

theorem update_injective (bs : Bytes) : Function.Injective fun c => update c bs := by
  induction bs with
  | nil => exact fun _ _ h => h
  | cons b bs ih =>
    intro c d h
    have hstep : step c b = step d b := ih h
    have hzero : octet ((c ^^^ d) ^^^ (b ^^^ b).toUInt32) = 0 := by
      rw [← step_xor,hstep,UInt32.xor_self]
    have hmoved := toNat_of_octet_lt (c := (c ^^^ d) ^^^ (b ^^^ b).toUInt32) (by rw [hzero]; decide)
    rw [hzero,UInt8.xor_self] at hmoved
    have hsame : (c ^^^ d) ^^^ 0 = 0 := UInt32.toNat_inj.mp hmoved
    rw [UInt32.xor_zero] at hsame
    exact UInt32.xor_eq_zero_iff.mp hsame

theorem checksum_ne (start : Nat) (hl : bs'.length = bs.length)
    (h : ∀ j, j < start ∨ start + 4 ≤ j → bs'[j]? = bs[j]?) (hne : bs' ≠ bs) :
    checksum bs' ≠ checksum bs := by
  intro heq
  have hfront : bs'.take start = bs.take start := by
    refine List.ext_getElem? fun j => ?_
    by_cases hj : j < start
    · rw [List.getElem?_take_of_lt hj,List.getElem?_take_of_lt hj,h j (.inl hj)]
    · rw [List.getElem?_take_eq_none (Nat.not_lt.mp hj),
        List.getElem?_take_eq_none (Nat.not_lt.mp hj)]
  have hback : (bs'.drop start).drop 4 = (bs.drop start).drop 4 := by
    refine List.ext_getElem? fun j => ?_
    simpa [List.getElem?_drop] using h (start + 4 + j) (.inr (by omega))
  have hparts (as : Bytes) :
      as = as.take start ++ ((as.drop start).take 4 ++ (as.drop start).drop 4) := by
    rw [List.take_append_drop,List.take_append_drop]
  have hupdate : update 0xffffffff bs = update 0xffffffff bs' :=
    ((UInt32.xor_left_inj 0xffffffff).mp heq).symm
  rw [hparts bs,hparts bs',hfront,hback,update_append,update_append,update_append,
    update_append] at hupdate
  have hwindow := eq_of_update_eq (by simp [hl]) (by simp) (update_injective _ hupdate)
  exact hne (by rw [hparts bs',hparts bs,hfront,hback,hwindow])

end Crc32c

namespace Bytes

theorem ofUInt32_toUInt32 {bs : Bytes} (h : bs.length = 4) : ofUInt32 (toUInt32 bs) = bs := by
  have hlt := toWord_lt bs
  rw [h] at hlt
  have hword : (UInt32.ofNat (toWord bs)).toNat = toWord bs := UInt32.toNat_ofNat_of_lt' hlt
  rw [ofUInt32,toUInt32,hword,← h,ofWord_toWord]

end Bytes

/-- The same bytes, but for one or more at the given places. -/
structure Altered (places : Nat → Prop) (bs bs' : Bytes) : Prop where
  length : bs'.length = bs.length
  elsewhere : ∀ i, ¬places i → bs'[i]? = bs[i]?
  changed : bs' ≠ bs

namespace Frame

variable {kind flags : UInt8} {body bs sum : Bytes}

/-- Where a frame has the byte at place `j` of those that its checksum covers: kind, flags, body. -/
def covered (j : Nat) : Nat := if j < 2 then j else j + 8

/-- How bytes of a frame may change so that it shows: in the checksum, or within four consecutive
bytes of what it covers. The length stays as it is. -/
inductive Corrupts (bs bs' : Bytes) : Prop
  | checksum (h : Altered (fun i => 6 ≤ i ∧ i < 10) bs bs')
  | burst (start : Nat)
      (h : Altered (fun i => ∃ j, start ≤ j ∧ j < start + 4 ∧ i = covered j) bs bs')

theorem exists_of_altered {places : Nat → Prop} (h : Altered places (assemble kind flags body) bs)
    (hp : ∀ i, places i → i < 2 ∨ 6 ≤ i) :
    ∃ kind' flags' sum' body',
      bs = kind' :: flags' :: (Bytes.ofWord 4 body.length ++ (sum' ++ body')) ∧
      sum'.length = 4 ∧ body'.length = body.length := by
  have hl : bs.length = 10 + body.length := by rw [h.length,length_assemble,headerSize]
  obtain ⟨kind',bs₁,rfl⟩ := List.exists_cons_of_length_pos (l := bs) (by omega)
  obtain ⟨flags',bs₂,rfl⟩ := List.exists_cons_of_length_pos (l := bs₁) (by simp at hl; omega)
  have hl₂ : bs₂.length = 8 + body.length := by simp at hl; omega
  have hword : bs₂.take 4 = Bytes.ofWord 4 body.length := by
    refine List.ext_getElem? fun i => ?_
    by_cases hi : i < 4
    · have helse := h.elsewhere (i + 2) fun hx => by
        have hplace := hp _ hx
        omega
      rw [List.getElem?_take_of_lt hi]
      rw [assemble,List.getElem?_cons_succ,List.getElem?_cons_succ,List.getElem?_cons_succ,
        List.getElem?_cons_succ,List.getElem?_append_left (by simpa using hi)] at helse
      exact helse
    · rw [List.getElem?_take_eq_none (by omega),List.getElem?_eq_none (by simp; omega)]
  refine ⟨kind',flags',(bs₂.drop 4).take 4,(bs₂.drop 4).drop 4,?_,by simp [hl₂]; omega,
    by simp [hl₂]⟩
  rw [← hword,List.take_append_drop,List.take_append_drop]

theorem decode_assembled (maxBody : Nat) (kind flags : UInt8) (hs : sum.length = 4)
    (hl : body.length < UInt32.size) (rest : Bytes)
    (hsum : Crc32c.checksum (kind :: flags :: body) ≠ Bytes.toUInt32 sum) :
    let src := kind :: flags :: (Bytes.ofWord 4 body.length ++ (sum ++ (body ++ rest)))
    ∃ e, decode maxBody src = .invalid e src ∧
      (e = .unknownType kind ∨ e = .tooLarge body.length maxBody ∨
        e = .checksumMismatch (Bytes.toUInt32 sum) (Crc32c.checksum (kind :: flags :: body))) := by
  intro src
  have hw := Bytes.toWord_ofWord 4 body.length
  rw [Nat.mod_eq_of_lt (show body.length < 256 ^ 4 from hl)] at hw
  obtain ⟨c₀,sum,rfl⟩ := List.exists_cons_of_length_eq_add_one hs
  obtain ⟨c₁,sum,rfl⟩ := List.exists_cons_of_length_eq_add_one (by simpa using hs)
  obtain ⟨c₂,sum,rfl⟩ := List.exists_cons_of_length_eq_add_one (by simpa using hs)
  obtain ⟨c₃,sum,rfl⟩ := List.exists_cons_of_length_eq_add_one (by simpa using hs)
  obtain rfl := List.eq_nil_of_length_eq_zero (by simpa using hs)
  have hh : Bytes.holds body.length (body ++ rest) = true := by
    rw [Bytes.holds_iff,List.length_append]
    omega
  have hd := decode.eq_def maxBody src
  simp only [Bytes.ofWord,src,List.cons_append,List.nil_append] at hd hw
  simp only [hw,hh,List.take_left,if_neg hsum,if_true] at hd
  cases hk : FrameKind.ofCode? kind with
  | none =>
    rw [hk] at hd
    exact ⟨_,hd,.inl rfl⟩
  | some k =>
    rw [hk] at hd
    by_cases hm : maxBody < body.length
    · rw [if_pos hm] at hd
      exact ⟨_,hd,.inr (.inl rfl)⟩
    · rw [if_neg hm] at hd
      exact ⟨_,hd,.inr (.inr rfl)⟩

theorem getElem?_covered (size : Nat) (hs : sum.length = 4) (j : Nat) :
    (kind :: flags :: (Bytes.ofWord 4 size ++ (sum ++ body)))[covered j]? =
      (kind :: flags :: body)[j]? := by
  unfold covered
  split
  · rename_i hj
    obtain rfl | rfl : j = 0 ∨ j = 1 := by omega
    all_goals rfl
  · rename_i hj
    obtain ⟨n,rfl⟩ : ∃ n, j = n + 2 := ⟨j - 2,by omega⟩
    rw [show n + 2 + 8 = n + 8 + 2 by omega,List.getElem?_cons_succ,List.getElem?_cons_succ,
      List.getElem?_cons_succ,List.getElem?_cons_succ,List.getElem?_append_right (by simp),
      List.getElem?_append_right (by simp [hs])]
    congr 1
    simp [hs]

theorem covered_injective {i j : Nat} (h : covered i = covered j) : i = j := by
  unfold covered at h
  split at h <;> split at h <;> omega

theorem Corrupts.checksum_ne (h : Corrupts (assemble kind flags body) bs) :
    ∃ kind' flags' sum' body',
      bs = kind' :: flags' :: (Bytes.ofWord 4 body'.length ++ (sum' ++ body')) ∧
      sum'.length = 4 ∧ body'.length = body.length ∧
      Crc32c.checksum (kind' :: flags' :: body') ≠ Bytes.toUInt32 sum' := by
  have hsum : (Bytes.ofUInt32 (Crc32c.checksum (kind :: flags :: body))).length = 4 :=
    Bytes.length_ofWord 4 _
  cases h with
  | checksum h =>
    obtain ⟨kind',flags',sum',body',rfl,hs,hb⟩ := exists_of_altered h fun i hi => by omega
    have hcovered : kind' :: flags' :: body' = kind :: flags :: body := by
      refine List.ext_getElem? fun j => ?_
      rw [← getElem?_covered body.length hs j,← getElem?_covered body.length hsum j]
      refine h.elsewhere _ fun hx => ?_
      unfold covered at hx
      split at hx <;> omega
    obtain ⟨rfl,rfl,rfl⟩ : kind' = kind ∧ flags' = flags ∧ body' = body := by simpa using hcovered
    refine ⟨kind',flags',sum',body',rfl,hs,rfl,fun hx => h.changed ?_⟩
    rw [assemble,hx,Bytes.ofUInt32_toUInt32 hs]
  | burst start h =>
    have hplace (j : Nat) : covered j < 2 ∨ 10 ≤ covered j := by
      unfold covered
      split <;> omega
    obtain ⟨kind',flags',sum',body',rfl,hs,hb⟩ := exists_of_altered h fun i => by
      rintro ⟨j,-,-,rfl⟩
      have hj := hplace j
      omega
    have hsame : sum' = Bytes.ofUInt32 (Crc32c.checksum (kind :: flags :: body)) := by
      refine List.ext_getElem? fun i => ?_
      by_cases hi : i < 4
      · have helse := h.elsewhere (i + 6) (by
          rintro ⟨j,-,-,hj⟩
          have hx := hplace j
          omega)
        rw [assemble] at helse
        simp only [List.getElem?_cons_succ] at helse
        have hskip (as bs : Bytes) (has : as.length = 4) :
            (Bytes.ofWord 4 body.length ++ (as ++ bs))[i + 4]? = as[i]? := by
          rw [List.getElem?_append_right (by simp),Bytes.length_ofWord,Nat.add_sub_cancel,
            List.getElem?_append_left (by omega)]
        rwa [hskip _ _ hs,hskip _ _ hsum] at helse
      · rw [List.getElem?_eq_none (by omega),List.getElem?_eq_none (by omega)]
    refine ⟨kind',flags',sum',body',by rw [hb],hs,hb,?_⟩
    rw [hsame,Bytes.toUInt32_ofUInt32]
    refine Crc32c.checksum_ne start (by simp [hb]) (fun j hj => ?_) fun hx => h.changed ?_
    · rw [← getElem?_covered body.length hs j,← getElem?_covered body.length hsum j]
      refine h.elsewhere _ ?_
      rintro ⟨k,hk,hk',he⟩
      obtain rfl := covered_injective he
      omega
    · obtain ⟨rfl,rfl,rfl⟩ : kind' = kind ∧ flags' = flags ∧ body' = body := by simpa using hx
      rw [assemble,hsame]

theorem length_lt_of_decode {maxBody size : Nat} {src rest : Bytes} {f : Frame}
    (h : decode maxBody src = .frame f size rest) : f.body.length < UInt32.size := by
  rcases faithful_of_decode h with hf | ⟨-,s,rfl,-⟩
  · exact hf.length_lt
  · rw [length_settings]
    decide

/-- A frame that can be read is not read, and no frame is waited for, once its wire form is damaged
in the checksum or within four consecutive bytes of what that covers. Nothing is taken off the
buffer. -/
theorem corruption_detected {maxBody size : Nat} {src rest : Bytes} {f : Frame}
    (accepted : decode maxBody src = .frame f size rest) {bs : Bytes}
    (damaged : Corrupts f.encode bs) (trailing : Bytes) :
    ∃ e, decode maxBody (bs ++ trailing) = .invalid e (bs ++ trailing) ∧
      ((∃ code, e = .unknownType code) ∨ e = .tooLarge f.body.length maxBody ∨
        ∃ expected actual, e = .checksumMismatch expected actual ∧ expected ≠ actual) := by
  obtain ⟨kind,flags,sum,body,rfl,hs,hb,hne⟩ := damaged.checksum_ne
  have hl := length_lt_of_decode accepted
  obtain ⟨e,hd,he⟩ := decode_assembled maxBody kind flags hs (hb ▸ hl) trailing hne
  refine ⟨e,by simpa using hd,?_⟩
  rcases he with rfl | rfl | rfl
  · exact .inl ⟨_,rfl⟩
  · exact .inr (.inl (by rw [hb]))
  · exact .inr (.inr ⟨_,_,rfl,hne.symm⟩)

/-- A PING that was turned into a PONG with another payload. -/
def disguised : Bytes := ((encode (.ping 7)).set 0 4).set 10 9

theorem corruption_detected_disguised :
    decode 8 (encode (.ping 7)) = .frame (.ping 7) 18 [] ∧ Corrupts (encode (.ping 7)) disguised ∧
      ∃ e, decode 8 (disguised ++ [1, 2]) = .invalid e (disguised ++ [1, 2]) := by
  have haccepted : decode 8 (encode (.ping 7)) = .frame (.ping 7) 18 [] := by decide +kernel
  have hdamaged : Corrupts (encode (.ping 7)) disguised := by
    refine .burst 0 ⟨by simp [disguised],fun i hi => ?_,by decide +kernel⟩
    have hkind : 0 ≠ i := fun h => hi ⟨0,le_rfl,by decide,h.symm⟩
    have hpayload : 10 ≠ i := fun h => hi ⟨2,by decide,by decide,h.symm⟩
    rw [disguised,List.getElem?_set_ne hpayload,List.getElem?_set_ne hkind]
  obtain ⟨e,hd,-⟩ := corruption_detected haccepted hdamaged [1, 2]
  exact ⟨haccepted,hdamaged,e,hd⟩

end Frame

end Multiplex
