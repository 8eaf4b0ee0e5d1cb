import Multiplex.Proofs.RoundTrip

/-!
How bytes are cut on their way does not matter to what is read from them: whatever the front of a
buffer is once it is known, it stays when more bytes arrive.
-/

namespace Multiplex

/-- Whether only the body of a frame was at fault. -/
def FrameError.isMalformed : FrameError → Bool
  | .missingStreamId | .wordExpected .. | .settings _ => true
  | .checksumMismatch .. | .tooLarge .. | .unknownType _ => false

namespace Frame

variable {body : Bytes} {e : FrameError} {kind : FrameKind}

/-- The size of the body that the header at the front of a buffer announces. -/
def announced (src : Bytes) : Nat := Bytes.toWord ((src.drop 2).take 4)

namespace Decoded

def extend (more : Bytes) : Decoded → Decoded
  | .frame f size rest => .frame f size (rest ++ more)
  | .incomplete => .incomplete
  | .invalid e rest => .invalid e (rest ++ more)

/-- What remains of the buffer `src`. -/
def left (src : Bytes) : Decoded → Bytes
  | .frame _ _ rest => rest
  | .incomplete => src
  | .invalid _ rest => rest

/-- How many bytes are taken off a buffer whose header announces a body of `size` bytes. -/
def taken (size : Nat) : Decoded → Nat
  | .frame .. => headerSize + size
  | .incomplete => 0
  | .invalid e _ => if e.isMalformed then headerSize + size else 0

end Decoded

theorem isMalformed_of_readStreamId (h : readStreamId body = .error e) : e.isMalformed = true := by
  unfold readStreamId at h
  split at h
  · cases h
  · cases h
    rfl

theorem isMalformed_of_readWord (h : readWord kind body = .error e) : e.isMalformed = true := by
  unfold readWord at h
  split at h
  · cases h
  · cases h
    rfl

theorem exists_of_bind_eq_error {ε α β : Type} {x : Except ε α} {k : α → Except ε β} {e : ε}
    (h : x >>= k = .error e) : x = .error e ∨ ∃ a, x = .ok a ∧ k a = .error e := by
  cases x with
  | error e' => exact .inl (by simpa [bind,Except.bind] using h)
  | ok a => exact .inr ⟨a,rfl,h⟩

theorem isMalformed_of_decodeBody {flags : UInt8} (h : decodeBody kind flags body = .error e) :
    e.isMalformed = true := by
  cases kind with
  | stream =>
    rcases exists_of_bind_eq_error h with hr | ⟨_,-,h⟩
    · exact isMalformed_of_readStreamId hr
    · cases h
  | windowUpdate | reset =>
    rcases exists_of_bind_eq_error h with hr | ⟨_,-,h⟩
    · exact isMalformed_of_readStreamId hr
    · rcases exists_of_bind_eq_error h with hw | ⟨_,-,h⟩
      · exact isMalformed_of_readWord hw
      · cases h
  | ping | pong | close =>
    rcases exists_of_bind_eq_error h with hw | ⟨_,-,h⟩
    · exact isMalformed_of_readWord hw
    · cases h
  | settings =>
    cases hs : Settings.decode body with
    | error cause =>
      simp only [decodeBody,hs,Except.mapError,Except.map,Except.error.injEq] at h
      rw [← h]
      rfl
    | ok s => simp [decodeBody,hs,Except.mapError,Except.map] at h

section Decode

variable (maxBody : Nat)

/-- What the front of a buffer is does not change when more bytes arrive behind it. -/
theorem decode_append {src : Bytes} (h : decode maxBody src ≠ .incomplete) (more : Bytes) :
    decode maxBody (src ++ more) = (decode maxBody src).extend more := by
  unfold decode at h
  split at h
  · rename_i kind flags l₀ l₁ l₂ l₃ c₀ c₁ c₂ c₃ rest
    simp only [decode,List.cons_append] at h ⊢
    generalize Bytes.toWord [l₀, l₁, l₂, l₃] = size at h ⊢
    cases hk : FrameKind.ofCode? kind with
    | none => simp [Decoded.extend]
    | some k =>
      simp only [hk] at h ⊢
      by_cases hm : maxBody < size
      · simp [hm,Decoded.extend]
      · rw [if_neg hm] at h
        by_cases hh : Bytes.holds size rest = true
        · have hle := (Bytes.holds_iff size rest).mp hh
          have hh' : Bytes.holds size (rest ++ more) = true := by
            rw [Bytes.holds_iff,List.length_append]
            omega
          rw [if_neg hm,if_neg hm,if_pos hh,if_pos hh',List.take_append_of_le_length hle,
            List.drop_append_of_le_length hle]
          by_cases hs : Crc32c.checksum (kind :: flags :: rest.take size) =
              Bytes.toUInt32 [c₀, c₁, c₂, c₃]
          · rw [if_pos hs,if_pos hs]
            cases decodeBody k flags (rest.take size) <;> rfl
          · rw [if_neg hs,if_neg hs]
            rfl
        · exact absurd (if_neg hh) h
  · exact absurd rfl h

theorem decode_left (src : Bytes) :
    (decode maxBody src).left src = src.drop ((decode maxBody src).taken (announced src)) ∧
      (decode maxBody src).taken (announced src) ≤ src.length := by
  unfold decode
  split
  · rename_i kind flags l₀ l₁ l₂ l₃ c₀ c₁ c₂ c₃ rest
    have hsize : announced (kind :: flags :: l₀ :: l₁ :: l₂ :: l₃ :: c₀ :: c₁ :: c₂ :: c₃ :: rest) =
        Bytes.toWord [l₀, l₁, l₂, l₃] := rfl
    rw [hsize]
    generalize Bytes.toWord [l₀, l₁, l₂, l₃] = size
    cases hk : FrameKind.ofCode? kind with
    | none => simp [Decoded.left,Decoded.taken,FrameError.isMalformed]
    | some k =>
      dsimp only
      split
      · simp [Decoded.left,Decoded.taken,FrameError.isMalformed]
      · split
        · rename_i hh
          have hle := (Bytes.holds_iff size rest).mp hh
          have htaken : rest.drop size = (kind :: flags :: l₀ :: l₁ :: l₂ :: l₃ :: c₀ :: c₁ :: c₂ ::
              c₃ :: rest).drop (headerSize + size) := by
            rw [← List.drop_drop]
            rfl
          have hroom : headerSize + size ≤
              (kind :: flags :: l₀ :: l₁ :: l₂ :: l₃ :: c₀ :: c₁ :: c₂ :: c₃ :: rest).length := by
            simp only [List.length_cons,headerSize]
            omega
          split
          · cases hd : decodeBody k flags (rest.take size) with
            | ok f => exact ⟨htaken,hroom⟩
            | error e =>
              simp only [Decoded.left,Decoded.taken,isMalformed_of_decodeBody hd,if_true]
              exact ⟨htaken,hroom⟩
          · simp [Decoded.left,Decoded.taken,FrameError.isMalformed]
        · exact ⟨rfl,Nat.zero_le _⟩
  · exact ⟨rfl,Nat.zero_le _⟩

end Decode

namespace Drained

def read (d : Drained) : List Frame := d.frames.map (·.1)

def after (before : List Frame) (d : Drained) : List Frame × Option FrameError × Bytes :=
  (before ++ d.read, d.fault, d.rest)

end Drained

section Drain

variable {maxBody : Nat} {src rest : Bytes}

theorem drain_of_frame {f : Frame} {size : Nat} (h : decode maxBody src = .frame f size rest) :
    drain maxBody src = { drain maxBody rest with
      frames := (f, rest.length) :: (drain maxBody rest).frames } := by
  rw [drain]
  split <;> rename_i hx <;> rw [h] at hx <;> cases hx
  rfl

theorem drain_of_incomplete (h : decode maxBody src = .incomplete) :
    drain maxBody src = ⟨[], none, src⟩ := by
  rw [drain]
  split <;> rename_i hx <;> rw [h] at hx <;> cases hx

theorem drain_of_invalid {e : FrameError} (h : decode maxBody src = .invalid e rest) :
    drain maxBody src = ⟨[], some e, rest⟩ := by
  rw [drain]
  split <;> rename_i hx <;> rw [h] at hx <;> cases hx
  rfl

theorem decode_drain (h : (drain maxBody src).fault = none) :
    decode maxBody (drain maxBody src).rest = .incomplete := by
  induction hn : src.length using Nat.strong_induction_on generalizing src with
  | _ n ih =>
    cases hd : decode maxBody src with
    | frame f size rest =>
      rw [drain_of_frame hd] at h ⊢
      exact ih rest.length (hn ▸ decode_frame_length hd) h rfl
    | incomplete =>
      rw [drain_of_incomplete hd]
      exact hd
    | invalid e rest =>
      rw [drain_of_invalid hd] at h
      cases h

theorem drain_append (maxBody : Nat) (src more : Bytes) : (drain maxBody (src ++ more)).after [] =
      match (drain maxBody src).fault with
      | some e => ((drain maxBody src).read, some e, (drain maxBody src).rest ++ more)
      | none =>
        (drain maxBody ((drain maxBody src).rest ++ more)).after (drain maxBody src).read := by
  induction hn : src.length using Nat.strong_induction_on generalizing src with
  | _ n ih =>
    cases hd : decode maxBody src with
    | frame f size rest =>
      have hwhole : decode maxBody (src ++ more) = _ := decode_append maxBody (by simp [hd]) more
      rw [hd] at hwhole
      have hrest := ih rest.length (hn ▸ decode_frame_length hd) rest rfl
      rw [drain_of_frame hd,drain_of_frame hwhole]
      simp only [Drained.after,Drained.read,List.map_cons,List.nil_append] at hrest ⊢
      cases hf : (drain maxBody rest).fault with
      | some e =>
        simp only [hf,Prod.mk.injEq] at hrest
        simp [hrest]
      | none =>
        simp only [hf,Prod.mk.injEq] at hrest
        simp [hrest]
    | incomplete =>
      rw [drain_of_incomplete hd]
      rfl
    | invalid e rest =>
      have hwhole : decode maxBody (src ++ more) = _ := decode_append maxBody (by simp [hd]) more
      rw [hd] at hwhole
      rw [drain_of_invalid hd,drain_of_invalid hwhole]
      rfl

def remaining (buffer : Bytes) (parts : List Drained) : Bytes :=
  parts.getLast?.elim buffer (·.rest)

theorem drainChunks_eq (maxBody : Nat) (chunks : List Bytes) {buffer : Bytes}
    (h : decode maxBody buffer = .incomplete) :
    let parts := drainChunks maxBody buffer chunks
    (drain maxBody (buffer ++ chunks.flatten)).after [] =
        (parts.flatMap (·.read), parts.getLast?.bind (·.fault),
          remaining buffer parts ++ (chunks.drop parts.length).flatten) ∧
      (parts.length = chunks.length ∨ (parts.getLast?.bind (·.fault)).isSome = true) := by
  induction chunks generalizing buffer with
  | nil =>
    simp [drainChunks,drain_of_incomplete h,Drained.after,Drained.read,remaining]
  | cons chunk chunks ih =>
    intro parts
    have hwhole := drain_append maxBody (buffer ++ chunk) chunks.flatten
    rw [List.append_assoc,← List.flatten_cons] at hwhole
    rw [hwhole]
    simp only [parts,drainChunks]
    cases hf : (drain maxBody (buffer ++ chunk)).fault with
    | some e => simp [hf,remaining]
    | none =>
      obtain ⟨hrest,hall⟩ := ih (decode_drain hf)
      generalize drainChunks maxBody (drain maxBody (buffer ++ chunk)).rest chunks = more at *
      simp only [Drained.after,Prod.mk.injEq,List.nil_append] at hrest ⊢
      obtain ⟨hread,hfault,hleft⟩ := hrest
      -- the last of the chunks is the one just read, if there are no more
      cases more with
      | nil => simpa [hread,hfault,hleft,hf,remaining,eq_comm] using hall
      | cons d more =>
        have hlast : (d :: more).getLast? = some ((d :: more).getLast (by simp)) :=
          List.getLast?_eq_some_getLast _
        simpa [hread,hfault,hleft,remaining,hlast] using hall

end Drain

/-- Frames that arrive in chunks are read as if they had arrived at once, whatever the bytes are:
the same frames, the same fault, and the same bytes left, among which are those that had not arrived
when the fault was found; without a fault all the chunks are read. Every frame, and every malformed
one, is taken off with its header and the body that the header announces, and nothing else is taken
off. -/
theorem chunking_irrelevant (maxBody : Nat) (chunks : List Bytes) :
    let parts := drainChunks maxBody [] chunks
    let whole := drain maxBody chunks.flatten
    parts.flatMap (·.read) = whole.read ∧ parts.getLast?.bind (·.fault) = whole.fault ∧
      remaining [] parts ++ (chunks.drop parts.length).flatten = whole.rest ∧
      (parts.length = chunks.length ∨ whole.fault.isSome = true) ∧
      ∀ src, (decode maxBody src).left src = src.drop ((decode maxBody src).taken (announced src)) ∧
        (decode maxBody src).taken (announced src) ≤ src.length := by
  intro parts whole
  have hnil : decode maxBody [] = .incomplete := rfl
  obtain ⟨hwhole,hall⟩ := drainChunks_eq maxBody chunks hnil
  simp only [Drained.after,List.nil_append,Prod.mk.injEq] at hwhole
  obtain ⟨hread,hfault,hrest⟩ := hwhole
  exact ⟨hread.symm,hfault.symm,hrest.symm,by rwa [hfault],decode_left maxBody⟩

end Frame

end Multiplex
