import Multiplex.Crc32c
import Multiplex.Frame.Basic

/-!
The wire form of frames: kind, flags, body length and checksum in a header of ten bytes, then the
body. The checksum covers kind, flags and body.
-/

namespace Multiplex

inductive FrameError
  | checksumMismatch (expected actual : UInt32)
  | tooLarge (size max : Nat)
  | unknownType (code : UInt8)
  | missingStreamId
  | wordExpected (kind : FrameKind) (size : Nat)
  | settings (cause : SettingsError)
  deriving DecidableEq, Repr

def hexWord (v : UInt32) : String :=
  let digits := Nat.toDigits 16 v.toNat
  String.ofList ('0' :: 'x' :: (List.replicate (8 - digits.length) '0' ++ digits))

def FrameError.message : FrameError → String
  | .checksumMismatch expected actual =>
    s!"checksum mismatch: expected {hexWord expected}, got {hexWord actual}"
  | .tooLarge size max => s!"frame too large: {size} bytes (max {max})"
  | .unknownType code => s!"unknown frame type {code}"
  | .missingStreamId => "malformed frame: missing stream id"
  | .wordExpected kind size =>
    s!"malformed frame: {kind.text} body has {size} trailing bytes, expected 8"
  | .settings cause => s!"malformed frame: {cause.message}"

namespace Frame

def flags : Frame → UInt8
  | .stream _ true _ => 1
  | _ => 0

def body : Frame → Bytes
  | .stream id _ data => Bytes.ofUInt64 id.value ++ data
  | .windowUpdate id n | .reset id n => Bytes.ofUInt64 id.value ++ Bytes.ofUInt64 n
  | .ping n | .pong n | .close n => Bytes.ofUInt64 n
  | .settings s => s.encode

def assemble (kind flags : UInt8) (body : Bytes) : Bytes :=
  kind :: flags :: (Bytes.ofWord 4 body.length ++
    (Bytes.ofUInt32 (Crc32c.checksum (kind :: flags :: body)) ++ body))

def encode (f : Frame) : Bytes := assemble f.kind.code f.flags f.body

def readWord (kind : FrameKind) (body : Bytes) : Except FrameError UInt64 :=
  if body.length = 8 then .ok (Bytes.toUInt64 body)
  else .error (.wordExpected kind body.length)

def readStreamId (body : Bytes) : Except FrameError (StreamId × Bytes) :=
  if Bytes.holds 8 body then .ok (⟨Bytes.toUInt64 (body.take 8)⟩, body.drop 8)
  else .error .missingStreamId

def decodeBody (kind : FrameKind) (flags : UInt8) (body : Bytes) : Except FrameError Frame :=
  match kind with
  | .stream => do
    let (id, data) ← readStreamId body
    return .stream id (flags % 2 = 1) data
  | .windowUpdate => do
    let (id, rest) ← readStreamId body
    return .windowUpdate id (← readWord .windowUpdate rest)
  | .reset => do
    let (id, rest) ← readStreamId body
    return .reset id (← readWord .reset rest)
  | .ping => return .ping (← readWord .ping body)
  | .pong => return .pong (← readWord .pong body)
  | .settings => (Settings.decode body).mapError .settings |>.map .settings
  | .close => return .close (← readWord .close body)

inductive Decoded
  | frame (f : Frame) (size : Nat) (rest : Bytes)
  | incomplete
  /-- No frame. `rest` is what remains to be read: all of it, unless only the body was at fault. -/
  | invalid (e : FrameError) (rest : Bytes)
  deriving DecidableEq, Repr

/-- Reads one frame whose body has at most `maxBody` bytes from the front of `src`. -/
def decode (maxBody : Nat) (src : Bytes) : Decoded :=
  match src with
  | kind :: flags :: l₀ :: l₁ :: l₂ :: l₃ :: c₀ :: c₁ :: c₂ :: c₃ :: rest =>
    let size := Bytes.toWord [l₀, l₁, l₂, l₃]
    let expected := Bytes.toUInt32 [c₀, c₁, c₂, c₃]
    match FrameKind.ofCode? kind with
    | none => .invalid (.unknownType kind) src
    | some k =>
      if maxBody < size then .invalid (.tooLarge size maxBody) src
      else if Bytes.holds size rest then
        let body := rest.take size
        let actual := Crc32c.checksum (kind :: flags :: body)
        if actual = expected then
          match decodeBody k flags body with
          | .ok f => .frame f (headerSize + size) (rest.drop size)
          | .error e => .invalid e (rest.drop size)
        else .invalid (.checksumMismatch expected actual) src
      else .incomplete
  | _ => .incomplete

theorem decode_frame_length {maxBody size : Nat} {src rest : Bytes} {f : Frame}
    (h : decode maxBody src = .frame f size rest) : rest.length < src.length := by
  unfold decode at h
  split at h
  · rename_i kind flags l₀ l₁ l₂ l₃ c₀ c₁ c₂ c₃ tail
    simp only at h
    split at h
    · cases h
    · split at h
      · cases h
      · split at h
        · split at h
          · split at h
            · cases h
              simp only [List.length_drop, List.length_cons]
              omega
            · cases h
          · cases h
        · cases h
  · cases h

/-- What decoding a buffer until more bytes are needed yields: the frames, each with what was left
behind it, the fault that ended it, and what remains. -/
structure Drained where
  frames : List (Frame × Nat)
  fault : Option FrameError
  rest : Bytes
  deriving DecidableEq, Repr

def drain (maxBody : Nat) (src : Bytes) : Drained :=
  match h : decode maxBody src with
  | .frame f _ rest =>
    have := decode_frame_length h
    let d := drain maxBody rest
    { d with frames := (f, rest.length) :: d.frames }
  | .incomplete => ⟨[], none, src⟩
  | .invalid e rest => ⟨[], some e, rest⟩
termination_by src.length

/-- Appends chunks to a buffer one after another, draining after each, up to the first fault. -/
def drainChunks (maxBody : Nat) : Bytes → List Bytes → List Drained
  | _, [] => []
  | buffer, chunk :: chunks =>
    let d := drain maxBody (buffer ++ chunk)
    match d.fault with
    | some _ => [d]
    | none => d :: drainChunks maxBody d.rest chunks

end Frame

end Multiplex
