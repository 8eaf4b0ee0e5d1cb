import Multiplex.Bytes

/-!
Text out of bytes that need not be well formed.
-/

namespace Multiplex.Text

def replacement : Char := Char.ofNat 0xfffd

/-- A character whose first bytes were read: their bits, how many bytes are missing, and the range
that the next one has to be in. -/
structure Partial where
  bits : Nat
  missing : Nat
  low : UInt8 := 0x80
  high : UInt8 := 0xbf
  deriving DecidableEq, Repr

inductive Lead
  | whole (c : Char)
  | more (p : Partial)
  | invalid

/-- The ranges for the second byte leave out overlong forms, surrogates and what is beyond the last
code point. -/
def lead (b : UInt8) : Lead :=
  let bits (base : Nat) : Nat := b.toNat - base
  if b < 0x80 then .whole (Char.ofNat b.toNat)
  else if b < 0xc2 then .invalid
  else if b < 0xe0 then .more ⟨bits 0xc0, 1, 0x80, 0xbf⟩
  else if b = 0xe0 then .more ⟨bits 0xe0, 2, 0xa0, 0xbf⟩
  else if b = 0xed then .more ⟨bits 0xe0, 2, 0x80, 0x9f⟩
  else if b < 0xf0 then .more ⟨bits 0xe0, 2, 0x80, 0xbf⟩
  else if b = 0xf0 then .more ⟨bits 0xf0, 3, 0x90, 0xbf⟩
  else if b < 0xf4 then .more ⟨bits 0xf0, 3, 0x80, 0xbf⟩
  else if b = 0xf4 then .more ⟨bits 0xf0, 3, 0x80, 0x8f⟩
  else .invalid

/-- Reads on behind the start of a character, if there is one. A character that breaks off is one
replacement, and the byte where it does is read afresh. -/
def lossyFrom (before : Option Partial) : Bytes → List Char
  | [] => if before.isSome then [replacement] else []
  | b :: rest =>
    let broken := if before.isSome then [replacement] else []
    let afresh :=
      match lead b with
      | .whole c => broken ++ c :: lossyFrom none rest
      | .more p => broken ++ lossyFrom (some p) rest
      | .invalid => broken ++ replacement :: lossyFrom none rest
    match before with
    | none => afresh
    | some p =>
      if p.low ≤ b && b ≤ p.high then
        let bits := p.bits * 64 + (b.toNat - 0x80)
        if p.missing ≤ 1 then Char.ofNat bits :: lossyFrom none rest
        else lossyFrom (some ⟨bits, p.missing - 1, 0x80, 0xbf⟩) rest
      else afresh

def lossy (bs : Bytes) : String := String.ofList (lossyFrom none bs)

end Multiplex.Text
