import Multiplex.Frame.Codec
import Mathlib.Tactic

/-!
The wire form of frames is read back as it was written, whatever follows it, and the start of a
frame is never taken for a whole one.
-/

namespace Multiplex

variable {s : Settings}

namespace Bytes

theorem toWord_ofWord (n v : Nat) : toWord (ofWord n v) = v % 256 ^ n := by
  induction n generalizing v with
  | zero => simp [ofWord, toWord, Nat.mod_one]
  | succ n ih =>
    have hb : (UInt8.ofNat v).toNat = v % 256 := by simp
    rw [ofWord, toWord, ih, hb, Nat.pow_succ, Nat.mul_comm (256 ^ n) 256, Nat.mod_mul]

theorem toUInt64_ofUInt64 (v : UInt64) : toUInt64 (ofUInt64 v) = v := by
  have h : v.toNat % 256 ^ 8 = v.toNat := Nat.mod_eq_of_lt v.toNat_lt
  rw [toUInt64, ofUInt64, toWord_ofWord, h, UInt64.ofNat_toNat]

theorem toUInt32_ofUInt32 (v : UInt32) : toUInt32 (ofUInt32 v) = v := by
  have h : v.toNat % 256 ^ 4 = v.toNat := Nat.mod_eq_of_lt v.toNat_lt
  rw [toUInt32, ofUInt32, toWord_ofWord, h, UInt32.ofNat_toNat]

theorem toUInt16_ofUInt16 (v : UInt16) : toUInt16 (ofUInt16 v) = v := by
  have h : v.toNat % 256 ^ 2 = v.toNat := Nat.mod_eq_of_lt v.toNat_lt
  rw [toUInt16, ofUInt16, toWord_ofWord, h, UInt16.ofNat_toNat]

@[simp]
theorem length_ofUInt64 (v : UInt64) : (ofUInt64 v).length = 8 := length_ofWord 8 _

end Bytes

namespace Settings

def heard (s : Settings) : Settings := { s with idle := s.idle.filter (· ≠ 0) }

/-- Whether the other side takes the settings. -/
def Valid (s : Settings) : Prop :=
  s.window ≠ 0 ∧ s.window ≤ greatestWindow ∧ leastMaxFrame ≤ s.maxFrame

theorem length_encode (s : Settings) : s.encode.length = 50 := by
  simp [encode,pairs,Pair.encode,Bytes.ofUInt16]

theorem readPairs_encode (p : Pair) (rest : Bytes) :
    readPairs (p.encode ++ rest) = p :: readPairs rest := by
  have hk := Bytes.toUInt16_ofUInt16 p.key
  have hv := Bytes.toUInt64_ofUInt64 p.value
  simp only [Bytes.ofUInt16,Bytes.ofUInt64,Bytes.ofWord] at hk hv
  simp only [Pair.encode,Bytes.ofUInt16,Bytes.ofUInt64,Bytes.ofWord,List.cons_append,
    List.nil_append,readPairs,hk,hv]

theorem readPairs_flatMap (ps : List Pair) : readPairs (ps.flatMap Pair.encode) = ps := by
  induction ps with
  | nil => rfl
  | cons p ps ih => rw [List.flatMap_cons,readPairs_encode,ih]

theorem foldl_apply_pairs (s : Settings) : s.pairs.foldl apply {} = s.heard := by
  cases hs : s.idle with
  | none => simp [pairs,apply,heard,hs]
  | some t =>
    by_cases ht : t = 0 <;> simp [pairs,apply,heard,hs,ht,Option.filter]

theorem decode_encode_eq (s : Settings) : decode s.encode = s.heard.validate := by
  have hp : s.encode.length % pairSize = 0 := by rw [length_encode]; rfl
  rw [decode,if_pos hp,encode,readPairs_flatMap,foldl_apply_pairs]

theorem validate_eq_ok_iff {s t : Settings} : s.validate = .ok t ↔ t = s ∧ s.Valid := by
  have hv : s.Valid ↔ ¬(s.window = 0 ∨ greatestWindow < s.window) ∧
      ¬s.maxFrame < leastMaxFrame := by
    simp [Valid,and_assoc]
  rw [hv]
  unfold validate
  split
  · simp_all
  · split
    · simp_all
    · simp_all [eq_comm]

theorem decode_encode (s : Settings) (h : s.Valid) : decode s.encode = .ok s.heard := by
  rw [decode_encode_eq]
  exact validate_eq_ok_iff.mpr ⟨rfl,h⟩

theorem valid_of_decode {body : Bytes} (h : decode body = .ok s) : s.Valid := by
  unfold decode at h
  split at h
  · obtain ⟨rfl,hv⟩ := validate_eq_ok_iff.mp h
    exact hv
  · cases h

theorem decode_encode_of_not_valid (h : ¬s.Valid) : ∃ e, decode s.encode = .error e := by
  cases hd : decode s.encode with
  | error e => exact ⟨e,rfl⟩
  | ok t =>
    rw [decode_encode_eq] at hd
    exact absurd (validate_eq_ok_iff.mp hd).2 h

end Settings

namespace Frame

variable {inbox more rest : Bytes} {maxBody : Nat} {f : Frame}

def heard : Frame → Frame
  | .settings s => .settings s.heard
  | f => f

/-- Whether the frame can be written so that a body of at most `maxBody` bytes is read back. -/
structure Fits (maxBody : Nat) (f : Frame) : Prop where
  length_le : f.body.length ≤ maxBody
  length_lt : f.body.length < UInt32.size
  valid : ∀ s, f = .settings s → s.Valid

theorem ofCode?_code (k : FrameKind) : FrameKind.ofCode? k.code = some k := by
  cases k <;> rfl

theorem readStreamId_append (id : StreamId) (rest : Bytes) :
    readStreamId (Bytes.ofUInt64 id.value ++ rest) = .ok (id, rest) := by
  have hh : Bytes.holds 8 (Bytes.ofUInt64 id.value ++ rest) = true := by
    rw [Bytes.holds_iff]
    simp
  have ht : (Bytes.ofUInt64 id.value ++ rest).take 8 = Bytes.ofUInt64 id.value :=
    List.take_left' (Bytes.length_ofUInt64 _)
  have hd : (Bytes.ofUInt64 id.value ++ rest).drop 8 = rest :=
    List.drop_left' (Bytes.length_ofUInt64 _)
  rw [readStreamId,if_pos hh,ht,hd,Bytes.toUInt64_ofUInt64]

theorem readWord_ofUInt64 (k : FrameKind) (v : UInt64) :
    readWord k (Bytes.ofUInt64 v) = .ok v := by
  rw [readWord,if_pos (Bytes.length_ofUInt64 v),Bytes.toUInt64_ofUInt64]

theorem decodeBody_body (f : Frame) (h : ∀ s, f = .settings s → s.Valid) :
    decodeBody f.kind f.flags f.body = .ok f.heard := by
  cases f with
  | stream id fin data =>
    cases fin <;> simp [decodeBody,kind,flags,body,heard,readStreamId_append,bind,Except.bind,
      pure,Except.pure]
  | windowUpdate id n =>
    simp [decodeBody,kind,body,heard,readStreamId_append,readWord_ofUInt64,bind,Except.bind,
      pure,Except.pure]
  | reset id n =>
    simp [decodeBody,kind,body,heard,readStreamId_append,readWord_ofUInt64,bind,Except.bind,
      pure,Except.pure]
  | settings s =>
    simp [decodeBody,kind,body,heard,Settings.decode_encode s (h s rfl),Except.mapError,Except.map]
  | ping | pong | close =>
    simp [decodeBody,kind,body,heard,readWord_ofUInt64,bind,Except.bind,pure,Except.pure]

theorem length_assemble (k f : UInt8) (body : Bytes) :
    (assemble k f body).length = headerSize + body.length := by
  simp [assemble,Bytes.ofUInt32,headerSize]
  omega

theorem length_encode (f : Frame) : f.encode.length = headerSize + f.body.length :=
  length_assemble _ _ _

theorem length_body (f : Frame) : headerSize + f.body.length = f.encodedLength := by
  cases f with
  | settings s => simp [body,encodedLength,Settings.length_encode,Settings.pairs,Settings.pairSize]
  | stream id fin data => simp [body,encodedLength,streamOverhead]
  | windowUpdate | reset | ping | pong | close => simp [body,encodedLength]

theorem decode_header (maxBody : Nat) (k : FrameKind) (flags : UInt8) (body : Bytes)
    (hl : body.length < UInt32.size) :
    ∃ header, assemble k.code flags body = header ++ body ∧ header.length = headerSize ∧
      ∀ rest, decode maxBody (header ++ rest) =
        if maxBody < body.length then .invalid (.tooLarge body.length maxBody) (header ++ rest)
        else if Bytes.holds body.length rest then
          if Crc32c.checksum (k.code :: flags :: rest.take body.length) =
              Crc32c.checksum (k.code :: flags :: body) then
            match decodeBody k flags (rest.take body.length) with
            | .ok f => .frame f (headerSize + body.length) (rest.drop body.length)
            | .error e => .invalid e (rest.drop body.length)
          else .invalid (.checksumMismatch (Crc32c.checksum (k.code :: flags :: body))
            (Crc32c.checksum (k.code :: flags :: rest.take body.length))) (header ++ rest)
        else .incomplete := by
  have hw := Bytes.toWord_ofWord 4 body.length
  rw [Nat.mod_eq_of_lt (show body.length < 256 ^ 4 from hl)] at hw
  have hc := Bytes.toUInt32_ofUInt32 (Crc32c.checksum (k.code :: flags :: body))
  simp only [Bytes.ofWord,Bytes.ofUInt32] at hw hc
  refine ⟨k.code :: flags :: (Bytes.ofWord 4 body.length ++
    Bytes.ofUInt32 (Crc32c.checksum (k.code :: flags :: body))),by simp [assemble],
    by simp [Bytes.ofUInt32,headerSize],fun rest => ?_⟩
  have hd := decode.eq_def maxBody (k.code :: flags :: (Bytes.ofWord 4 body.length ++
    Bytes.ofUInt32 (Crc32c.checksum (k.code :: flags :: body)) ++ rest))
  simp only [Bytes.ofWord,Bytes.ofUInt32,List.cons_append,List.nil_append,hw,hc,ofCode?_code] at hd
  exact hd

theorem decode_encode_append (h : f.Fits maxBody) (rest : Bytes) :
    decode maxBody (f.encode ++ rest) = .frame f.heard f.encodedLength rest := by
  obtain ⟨header,ha,-,hd⟩ := decode_header maxBody f.kind f.flags f.body h.length_lt
  have hh : Bytes.holds f.body.length (f.body ++ rest) = true := by
    rw [Bytes.holds_iff,List.length_append]
    omega
  rw [encode,ha,List.append_assoc,hd,if_neg (Nat.not_lt.mpr h.length_le),if_pos hh,List.take_left,
    List.drop_left,if_pos rfl,decodeBody_body f h.valid,length_body]

theorem decode_of_length_lt_header (h : inbox.length < headerSize) :
    decode maxBody inbox = .incomplete := by
  unfold decode
  split
  · simp only [List.length_cons,headerSize] at h
    omega
  · rfl

/-- The start of a frame is not taken for one. -/
theorem decode_of_length_lt (hb : f.body.length < UInt32.size) (hm : f.body.length ≤ maxBody)
    (he : inbox ++ more = f.encode ++ rest) (hl : inbox.length < f.encodedLength) :
    decode maxBody inbox = .incomplete := by
  by_cases hh : inbox.length < headerSize
  · exact decode_of_length_lt_header hh
  · obtain ⟨header,ha,hs,hd⟩ := decode_header maxBody f.kind f.flags f.body hb
    rw [encode,ha,List.append_assoc] at he
    obtain ⟨part,rfl⟩ := List.prefix_of_prefix_length_le (List.prefix_append _ _) ⟨more,he⟩
      (by omega)
    rw [← length_body,List.length_append] at hl
    have hn : ¬Bytes.holds f.body.length part = true := by
      rw [Bytes.holds_iff]
      omega
    rw [hd,if_neg (Nat.not_lt.mpr hm),if_neg hn]

theorem exists_of_encodedLength_le (he : inbox ++ more = f.encode ++ rest)
    (hl : f.encodedLength ≤ inbox.length) :
    ∃ left, inbox = f.encode ++ left ∧ left ++ more = rest := by
  have hle : f.encode.length ≤ inbox.length := by rw [length_encode,length_body]; omega
  obtain ⟨left,rfl⟩ := List.prefix_of_prefix_length_le (List.prefix_append _ rest) ⟨more,he⟩ hle
  rw [List.append_assoc] at he
  exact ⟨left,rfl,List.append_cancel_left he⟩

/-- What is read at the front of frames of which a part has arrived: nothing yet, or the first of
them. -/
theorem decode_frames (h : f.Fits maxBody) (he : inbox ++ more = f.encode ++ rest) :
    decode maxBody inbox = .incomplete ∨
      ∃ left, decode maxBody inbox = .frame f.heard f.encodedLength left ∧ left ++ more = rest := by
  by_cases hl : inbox.length < f.encodedLength
  · exact .inl (decode_of_length_lt h.length_lt h.length_le he hl)
  · obtain ⟨left,rfl,hx⟩ := exists_of_encodedLength_le he (Nat.not_lt.mp hl)
    exact .inr ⟨left,decode_encode_append h left,hx⟩

theorem decode_settings_of_not_fits (h : ¬(Frame.settings s).Fits maxBody)
    (he : inbox ++ more = (Frame.settings s).encode ++ rest) :
    decode maxBody inbox = .incomplete ∨ ∃ e left, decode maxBody inbox = .invalid e left := by
  have hb : s.encode.length < UInt32.size := by rw [s.length_encode]; decide
  by_cases hm : s.encode.length ≤ maxBody
  · by_cases hl : inbox.length < (Frame.settings s).encodedLength
    · exact .inl (decode_of_length_lt (f := .settings s) hb hm he hl)
    · obtain ⟨left,rfl,-⟩ := exists_of_encodedLength_le he (Nat.not_lt.mp hl)
      obtain ⟨header,ha,-,hd⟩ := decode_header maxBody FrameKind.settings 0 s.encode hb
      have hh : Bytes.holds s.encode.length (s.encode ++ left) = true := by
        rw [Bytes.holds_iff,List.length_append]
        omega
      have hv : ¬s.Valid := fun hv => h ⟨hm,hb,fun _ hx => by cases hx; exact hv⟩
      obtain ⟨e,hx⟩ := Settings.decode_encode_of_not_valid hv
      refine .inr ⟨.settings e,left,?_⟩
      rw [show (Frame.settings s).encode = header ++ s.encode from ha,List.append_assoc,hd,
        if_neg (Nat.not_lt.mpr hm),if_pos hh,List.take_left,List.drop_left,if_pos rfl]
      simp [decodeBody,hx,Except.mapError,Except.map]
  · by_cases hh : inbox.length < headerSize
    · exact .inl (decode_of_length_lt_header hh)
    · obtain ⟨header,ha,hs,hd⟩ := decode_header maxBody FrameKind.settings 0 s.encode hb
      rw [show (Frame.settings s).encode = header ++ s.encode from ha,List.append_assoc] at he
      obtain ⟨part,rfl⟩ := List.prefix_of_prefix_length_le (List.prefix_append _ _) ⟨more,he⟩
        (by omega)
      rw [hd,if_pos (Nat.not_le.mp hm)]
      exact .inr ⟨_,_,rfl⟩

theorem exists_of_bind_eq_ok {ε α β : Type} {x : Except ε α} {k : α → Except ε β} {b : β}
    (h : x >>= k = .ok b) : ∃ a, x = .ok a ∧ k a = .ok b := by
  cases x with
  | error e => cases h
  | ok a => exact ⟨a,rfl,h⟩

theorem decode_of_decodeBody_settings {kind : FrameKind} {flags : UInt8} {body : Bytes}
    (h : decodeBody kind flags body = .ok (.settings s)) : Settings.decode body = .ok s := by
  cases kind with
  | settings =>
    cases hs : Settings.decode body with
    | error e => simp [decodeBody,hs,Except.mapError,Except.map] at h
    | ok t =>
      obtain rfl : t = s := by simpa [decodeBody,hs,Except.mapError,Except.map] using h
      rfl
  | stream | ping | pong | close =>
    obtain ⟨_,-,h⟩ := exists_of_bind_eq_ok h
    cases h
  | windowUpdate | reset =>
    obtain ⟨_,-,h⟩ := exists_of_bind_eq_ok h
    obtain ⟨_,-,h⟩ := exists_of_bind_eq_ok h
    cases h

theorem valid_of_decode {maxBody size : Nat} {src rest : Bytes}
    (h : decode maxBody src = .frame (.settings s) size rest) : s.Valid := by
  unfold decode at h
  split at h
  · dsimp only at h
    split at h
    · cases h
    · split at h
      · cases h
      · split at h
        · split at h
          · split at h
            · rename_i hb
              cases h
              exact Settings.valid_of_decode (decode_of_decodeBody_settings hb)
            · cases h
          · cases h
        · cases h
  · cases h

end Frame

end Multiplex
