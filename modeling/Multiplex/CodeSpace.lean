/-!
Application error codes and their place among the codes on the wire.
-/

namespace Multiplex

/-- Why a stream is reset without the application asking for it. -/
inductive ResetReason
  | cancelled
  | disposed
  | refused
  deriving DecidableEq, Repr

structure CodeSpace where
  toWire : UInt64 → UInt64
  ofWire : UInt64 → UInt64
  resetCode : ResetReason → UInt64

namespace CodeSpace

def direct : CodeSpace where
  toWire code := code
  ofWire wire := wire
  resetCode
    | .cancelled => 1
    | .refused => 2
    | .disposed => 3

end CodeSpace

end Multiplex
