import Multiplex.Proofs.Codec

/-!
Reading undoes writing, and whatever is read could have been written.
-/

namespace Multiplex

variable {body : Bytes}

namespace Bytes

theorem toWord_lt (bs : Bytes) : toWord bs < 256 ^ bs.length := by
  induction bs with
  | nil => simp [toWord]
  | cons b bs ih =>
    have hb := b.toNat_lt
    rw [toWord,List.length_cons,Nat.pow_succ]
    omega

theorem ofWord_toWord (bs : Bytes) : ofWord bs.length (toWord bs) = bs := by
  induction bs with
  | nil => rfl
  | cons b bs ih =>
    have hb := b.toNat_lt
    have hfirst : UInt8.ofNat (b.toNat + 256 * toWord bs) = b := by
      rw [← UInt8.toNat_inj,UInt8.toNat_ofNat']
      omega
    have hrest : (b.toNat + 256 * toWord bs) / 256 = toWord bs := by omega
    rw [List.length_cons,toWord,ofWord,hfirst,hrest,ih]

end Bytes

namespace Settings

variable {s : Settings}

/-- Whether the settings are read back as they are: an end may announce them, and an idle time is
not zero, which stands for none. -/
structure Faithful (s : Settings) : Prop where
  valid : s.Valid
  idle : s.idle ≠ some 0

theorem Faithful.heard (h : s.Faithful) : s.heard = s := by
  have hi : s.idle.filter (· ≠ 0) = s.idle := by
    cases hs : s.idle with
    | none => rfl
    | some t =>
      have ht : t ≠ 0 := fun ht => h.idle (by rw [hs,ht])
      simp [Option.filter,ht]
  rw [Settings.heard,hi]

theorem apply_idle (h : s.idle ≠ some 0) (p : Pair) : (s.apply p).idle ≠ some 0 := by
  unfold apply
  split
  · exact h
  · exact h
  · exact h
  · by_cases hv : p.value = 0 <;> simp [hv]
  · exact h
  · exact h

theorem foldl_apply_idle (ps : List Pair) (h : s.idle ≠ some 0) :
    (ps.foldl apply s).idle ≠ some 0 := by
  induction ps generalizing s with
  | nil => exact h
  | cons p ps ih => exact ih (apply_idle h p)

theorem faithful_of_decode (h : decode body = .ok s) : s.Faithful := by
  refine ⟨valid_of_decode h,?_⟩
  unfold decode at h
  split at h
  · rw [(validate_eq_ok_iff.mp h).1]
    exact foldl_apply_idle _ (by decide)
  · cases h

end Settings

namespace Frame

variable {maxBody size : Nat} {f : Frame} {rest src : Bytes} {kind : FrameKind}

def settingsSize : Nat := 50

/-- Whether a frame can be written and read where bodies have at most `maxBody` bytes. -/
structure Faithful (maxBody : Nat) (f : Frame) : Prop where
  length_le : f.body.length ≤ maxBody
  length_lt : f.body.length < UInt32.size
  settings : ∀ s, f = .settings s → s.Faithful

theorem Faithful.fits (h : f.Faithful maxBody) : f.Fits maxBody :=
  { h with valid := fun s hs => (h.settings s hs).valid }

theorem Faithful.heard (h : f.Faithful maxBody) : f.heard = f := by
  cases f with
  | settings s => rw [Frame.heard,(h.settings s rfl).heard]
  | _ => rfl

theorem decode_encode (h : f.Faithful maxBody) (rest : Bytes) :
    decode maxBody (f.encode ++ rest) = .frame f f.encodedLength rest := by
  rw [decode_encode_append h.fits,h.heard]

theorem encode_length (f : Frame) : f.encode.length = f.encodedLength := by
  rw [length_encode,length_body]

/-- What a frame was read from: a header, and a body of the size that it says. -/
theorem exists_of_decode (h : decode maxBody src = .frame f size rest) :
    ∃ header body kind flags, src = header ++ (body ++ rest) ∧ header.length = headerSize ∧
      size = headerSize + body.length ∧ body.length ≤ maxBody ∧ body.length < UInt32.size ∧
      decodeBody kind flags body = .ok f := by
  unfold decode at h
  split at h
  · rename_i code flags l₀ l₁ l₂ l₃ c₀ c₁ c₂ c₃ tail
    dsimp only at h
    have hlt : Bytes.toWord [l₀, l₁, l₂, l₃] < UInt32.size := by
      have hword := Bytes.toWord_lt [l₀, l₁, l₂, l₃]
      simpa [UInt32.size] using hword
    generalize Bytes.toWord [l₀, l₁, l₂, l₃] = n at h hlt
    split at h
    · cases h
    · rename_i kind _
      split at h
      · cases h
      · rename_i hmax
        split at h
        · rename_i hold
          have hn : n ≤ tail.length := (Bytes.holds_iff n tail).mp hold
          have hbody : (tail.take n).length = n := by rw [List.length_take]; omega
          split at h
          · split at h
            · rename_i hd
              cases h
              refine ⟨[code, flags, l₀, l₁, l₂, l₃, c₀, c₁, c₂, c₃],tail.take n,kind,flags,?_,rfl,
                ?_,?_,?_,hd⟩
              · simp
              · rw [hbody]
              · omega
              · omega
            · cases h
          · cases h
        · cases h
  · cases h

theorem readStreamId_eq_ok {id : StreamId} (h : readStreamId body = .ok (id, rest)) :
    body.length = 8 + rest.length := by
  unfold readStreamId at h
  split at h
  · rename_i hold
    have hlen := (Bytes.holds_iff 8 body).mp hold
    cases h
    rw [List.length_drop]
    omega
  · cases h

theorem readWord_eq_ok {v : UInt64} (h : readWord kind body = .ok v) : body.length = 8 := by
  unfold readWord at h
  split at h
  · assumption
  · cases h

/-- A body that was read is as long as the one that would be written; only settings may have come in
a body of another length. -/
theorem decodeBody_eq_ok {flags : UInt8} (h : decodeBody kind flags body = .ok f) :
    f.body.length = body.length ∨ ∃ s, f = .settings s ∧ s.Faithful := by
  cases kind with
  | stream =>
    obtain ⟨⟨id,data⟩,hr,h⟩ := exists_of_bind_eq_ok h
    cases h
    simp [Frame.body,readStreamId_eq_ok hr]
  | windowUpdate | reset =>
    obtain ⟨⟨id,rest⟩,hr,h⟩ := exists_of_bind_eq_ok h
    obtain ⟨v,hw,h⟩ := exists_of_bind_eq_ok h
    cases h
    simp [Frame.body,readStreamId_eq_ok hr,readWord_eq_ok hw]
  | ping | pong | close =>
    obtain ⟨v,hw,h⟩ := exists_of_bind_eq_ok h
    cases h
    simp [Frame.body,readWord_eq_ok hw]
  | settings =>
    cases hs : Settings.decode body with
    | error e => simp [decodeBody,hs,Except.mapError,Except.map] at h
    | ok s =>
      simp only [decodeBody,hs,Except.mapError,Except.map,Except.ok.injEq] at h
      exact .inr ⟨s,h.symm,Settings.faithful_of_decode hs⟩

theorem length_settings (s : Settings) : (settings s).body.length = settingsSize := s.length_encode

theorem faithful_of_decode (h : decode maxBody src = .frame f size rest) :
    f.Faithful maxBody ∨ maxBody < settingsSize ∧ ∃ s, f = .settings s ∧ s.Faithful := by
  obtain ⟨header,body,kind,flags,-,-,-,hle,hlt,hd⟩ := exists_of_decode h
  rcases decodeBody_eq_ok hd with hb | ⟨s,rfl,hs⟩
  · refine .inl ⟨by omega,by omega,?_⟩
    rintro s rfl
    exact Settings.faithful_of_decode (decode_of_decodeBody_settings hd)
  · by_cases hm : settingsSize ≤ maxBody
    · have hlen := length_settings s
      refine .inl ⟨by omega,by rw [hlen]; decide,?_⟩
      rintro t ⟨⟩
      exact hs
    · exact .inr ⟨by omega,s,rfl,hs⟩

/-- Writing and reading frames undo each other. A frame whose body has at most `maxBody` bytes is
read back from its wire form, which has the length foretold, and leaves what stands behind it. A
frame that was read from anything came in a body of at most `maxBody` bytes, has values that can be
written, and is read back in turn; only settings may have come in a shorter body than they are
written in. -/
theorem codec_roundTrip (maxBody : Nat) : (∀ f : Frame, f.Faithful maxBody → ∀ rest,
      f.encode.length = f.encodedLength ∧
        decode maxBody (f.encode ++ rest) = .frame f f.encodedLength rest) ∧
    ∀ src f size rest, decode maxBody src = .frame f size rest →
      (∃ header body, src = header ++ (body ++ rest) ∧ header.length = headerSize ∧
        size = headerSize + body.length ∧ body.length ≤ maxBody ∧ body.length < UInt32.size) ∧
      (f.Faithful maxBody ∨ maxBody < settingsSize ∧ ∃ s, f = .settings s ∧ s.Faithful) ∧
      (settingsSize ≤ maxBody → f.Faithful maxBody ∧
        ∀ more, decode maxBody (f.encode ++ more) = .frame f f.encodedLength more) := by
  refine ⟨fun f hf rest => ⟨f.encode_length,decode_encode hf rest⟩,fun src f size rest h => ?_⟩
  obtain ⟨header,body,-,-,hsrc,hh,hs,hle,hlt,-⟩ := exists_of_decode h
  have hf := faithful_of_decode h
  refine ⟨⟨header,body,hsrc,hh,hs,hle,hlt⟩,hf,fun hm => ?_⟩
  have hf' : f.Faithful maxBody := hf.resolve_right fun hx => by omega
  exact ⟨hf',decode_encode hf'⟩

/-- Settings in an empty body are the default ones, and are read back from a full body. -/
theorem codec_roundTrip_defaults :
    decode 50 (assemble 5 0 [] ++ [7]) = .frame (.settings {}) 10 [7] ∧
      decode 50 (encode (.settings {}) ++ [1, 2]) = .frame (.settings {}) 60 [1, 2] ∧
      (encode (.stream ⟨4⟩ true [1, 2])).length = 20 ∧
      decode 50 (encode (.stream ⟨4⟩ true [1, 2]) ++ [3]) =
        .frame (.stream ⟨4⟩ true [1, 2]) 20 [3] := by
  have h : decode 50 (assemble 5 0 [] ++ [7]) = .frame (.settings {}) 10 [7] := by decide +kernel
  have hf : (stream ⟨4⟩ true [1, 2]).Faithful 50 := ⟨by decide,by decide,by simp⟩
  obtain ⟨hl,hd⟩ := (codec_roundTrip 50).1 _ hf [3]
  exact ⟨h,(((codec_roundTrip 50).2 _ _ _ _ h).2.2 (by decide)).2 [1, 2],hl,hd⟩

/-- Where less than a full body of settings fits, settings may be read from a short body that could
not be read from the one they are written in. -/
theorem settings_outgrow_body :
    decode 10 (assemble 5 0 []) = .frame (.settings {}) 10 [] ∧ ¬(settings {}).Faithful 10 ∧
      decode 10 (encode (.settings {})) =
        .invalid (.tooLarge 50 10) (encode (.settings {})) := by
  have hlong : ¬(settings {}).body.length ≤ 10 := by decide
  exact ⟨by decide +kernel,fun h => hlong h.length_le,by decide +kernel⟩

end Frame

end Multiplex
