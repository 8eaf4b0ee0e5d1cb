import Multiplex.Bytes
import Multiplex.Settings
import Multiplex.StreamId

/-!
Frames, the units that cross a connection.
-/

namespace Multiplex

inductive Frame
  /-- Data of a stream; with `fin`, the last of its sender. -/
  | stream (id : StreamId) (fin : Bool) (data : Bytes)
  /-- Credit given back to the sender of a stream. -/
  | windowUpdate (id : StreamId) (increment : UInt64)
  /-- The end of a stream, at once and in both directions. -/
  | reset (id : StreamId) (code : UInt64)
  | ping (payload : UInt64)
  | pong (payload : UInt64)
  | settings (s : Settings)
  /-- The sender opens no more streams. -/
  | close (code : UInt64)
  deriving DecidableEq, Repr

inductive FrameKind
  | stream
  | windowUpdate
  | reset
  | ping
  | pong
  | settings
  | close
  deriving DecidableEq, Repr

namespace FrameKind

def text : FrameKind → String
  | .stream => "STREAM"
  | .windowUpdate => "WINDOW_UPDATE"
  | .reset => "RESET"
  | .ping => "PING"
  | .pong => "PONG"
  | .settings => "SETTINGS"
  | .close => "CLOSE"

def code : FrameKind → UInt8
  | .stream => 0
  | .windowUpdate => 1
  | .reset => 2
  | .ping => 3
  | .pong => 4
  | .settings => 5
  | .close => 6

def ofCode? : UInt8 → Option FrameKind
  | 0 => some .stream
  | 1 => some .windowUpdate
  | 2 => some .reset
  | 3 => some .ping
  | 4 => some .pong
  | 5 => some .settings
  | 6 => some .close
  | _ => none

end FrameKind

namespace Frame

def kind : Frame → FrameKind
  | .stream .. => .stream
  | .windowUpdate .. => .windowUpdate
  | .reset .. => .reset
  | .ping _ => .ping
  | .pong _ => .pong
  | .settings _ => .settings
  | .close _ => .close

def streamId : Frame → Option StreamId
  | .stream id _ _ | .windowUpdate id _ | .reset id _ => some id
  | _ => none

def headerSize : Nat := 10

/-- Bytes of a STREAM body that are not data. -/
def streamOverhead : Nat := 8

def encodedLength : Frame → Nat
  | .stream _ _ data => headerSize + (streamOverhead + data.length)
  | .windowUpdate .. | .reset .. => headerSize + 16
  | .ping _ | .pong _ | .close _ => headerSize + 8
  | .settings s => headerSize + s.pairs.length * Settings.pairSize

end Frame

/-- How large a body an end takes in. The sum wraps around. -/
def Options.maxBody (o : Options) : Nat :=
  (o.maxFrame.toNat + Frame.streamOverhead) % UInt64.size

end Multiplex
