import Multiplex.Bytes
import Multiplex.StreamId

/-!
The parameters that each side of a connection announces, their wire form, and the options they are
taken from. Times are in milliseconds.
-/

namespace Multiplex

structure Settings where
  /-- Credit that every new stream towards this side starts with. -/
  window : UInt64 := 65536
  maxBidirectional : UInt64 := 100
  maxUnidirectional : UInt64 := 100
  idle : Option UInt64 := some 60000
  maxFrame : UInt64 := 32768
  deriving DecidableEq, Repr

inductive SettingsError
  | notPairs (size : Nat)
  | window (value : UInt64)
  | maxFrame (value : UInt64)
  deriving DecidableEq, Repr

namespace Settings

def leastMaxFrame : UInt64 := 1024

def greatestWindow : UInt64 := 2147483648

def maxStreams (s : Settings) : Direction → UInt64
  | .bidirectional => s.maxBidirectional
  | .unidirectional => s.maxUnidirectional

/-- The smaller of the two idle times, where either side has one. -/
def negotiatedIdle (s t : Settings) : Option UInt64 :=
  match s.idle, t.idle with
  | some a, some b => some (min a b)
  | some a, none => some a
  | none, b => b

structure Pair where
  key : UInt16
  value : UInt64
  deriving DecidableEq, Repr

def Pair.encode (p : Pair) : Bytes := Bytes.ofUInt16 p.key ++ Bytes.ofUInt64 p.value

/-- No idle time is announced as zero. -/
def pairs (s : Settings) : List Pair :=
  [⟨0, s.window⟩, ⟨1, s.maxBidirectional⟩, ⟨2, s.maxUnidirectional⟩, ⟨3, s.idle.getD 0⟩,
    ⟨4, s.maxFrame⟩]

def encode (s : Settings) : Bytes := s.pairs.flatMap Pair.encode

/-- Takes over one pair; unknown keys change nothing. -/
def apply (s : Settings) (p : Pair) : Settings :=
  match p.key with
  | 0 => { s with window := p.value }
  | 1 => { s with maxBidirectional := p.value }
  | 2 => { s with maxUnidirectional := p.value }
  | 3 => { s with idle := if p.value = 0 then none else some p.value }
  | 4 => { s with maxFrame := p.value }
  | _ => s

def pairSize : Nat := 10

def readPairs (body : Bytes) : List Pair :=
  match body with
  | k₀ :: k₁ :: v₀ :: v₁ :: v₂ :: v₃ :: v₄ :: v₅ :: v₆ :: v₇ :: rest =>
    ⟨Bytes.toUInt16 [k₀, k₁], Bytes.toUInt64 [v₀, v₁, v₂, v₃, v₄, v₅, v₆, v₇]⟩ :: readPairs rest
  | _ => []

def validate (s : Settings) : Except SettingsError Settings :=
  if s.window = 0 ∨ greatestWindow < s.window then .error (.window s.window)
  else if s.maxFrame < leastMaxFrame then .error (.maxFrame s.maxFrame)
  else .ok s

/-- Absent keys keep their defaults; of a repeated key the last pair counts. -/
def decode (body : Bytes) : Except SettingsError Settings :=
  if body.length % pairSize = 0 then ((readPairs body).foldl apply {}).validate
  else .error (.notPairs body.length)

end Settings

def SettingsError.message : SettingsError → String
  | .notPairs size => s!"settings body of {size} bytes is not a sequence of pairs"
  | .window value => s!"invalid initial stream window {value}"
  | .maxFrame value => s!"max frame size {value} below minimum {Settings.leastMaxFrame}"

structure Options where
  window : UInt64 := 65536
  maxBidirectional : UInt64 := 100
  maxUnidirectional : UInt64 := 100
  /-- Silence after which the connection is given up. -/
  idle : Option UInt64 := some 60000
  /-- Whether to send a PING at every half of the idle time. -/
  keepAlive : Bool := false
  maxFrame : UInt64 := 32768
  /-- Share of the window, in percent, to consume before giving credit back. -/
  threshold : UInt8 := 50
  connectTimeout : UInt64 := 10000
  deriving DecidableEq, Repr

namespace Options

def withWindow (o : Options) (window : UInt64) : Options :=
  { o with window := min (max 1 window) Settings.greatestWindow }

def withMaxStreams (o : Options) (bidirectional unidirectional : UInt64) : Options :=
  { o with maxBidirectional := bidirectional, maxUnidirectional := unidirectional }

def withIdle (o : Options) (idle : Option UInt64) : Options := { o with idle }

def withKeepAlive (o : Options) (keepAlive : Bool) : Options := { o with keepAlive }

def withMaxFrame (o : Options) (maxFrame : UInt64) : Options :=
  { o with maxFrame := max maxFrame Settings.leastMaxFrame }

def withThreshold (o : Options) (percent : UInt8) : Options :=
  { o with threshold := min (max 1 percent) 100 }

def withConnectTimeout (o : Options) (connectTimeout : UInt64) : Options :=
  { o with connectTimeout }

def settings (o : Options) : Settings where
  window := o.window
  maxBidirectional := o.maxBidirectional
  maxUnidirectional := o.maxUnidirectional
  idle := o.idle
  maxFrame := o.maxFrame

def maxStreams (o : Options) (d : Direction) : UInt64 := o.settings.maxStreams d

end Options

end Multiplex
