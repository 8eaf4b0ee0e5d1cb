import Multiplex.Flow
import Multiplex.Frame.Codec

/-!
Why operations on connections and streams fail, and the words for it.
-/

namespace Multiplex

inductive PipeFault
  /-- Nobody will read what is written. -/
  | broken
  /-- The pipe ended before enough bytes came. -/
  | ended
  deriving DecidableEq, Repr

def PipeFault.message : PipeFault → String
  | .broken => "broken pipe"
  | .ended => "early eof"

inductive TrustFault
  | untrusted (peer : String)
  | rejected (peer own : String)
  | stated (reason : String)
  deriving DecidableEq, Repr

def TrustFault.message : TrustFault → String
  | .untrusted peer => s!"untrusted peer identity '{peer}'"
  | .rejected peer own => s!"peer '{peer}' rejected identity '{own}'"
  | .stated reason => reason

inductive ConnectFault
  | identityTooLong (size : Nat)
  | badMagic
  | peerIdentityTooLong (size : Nat)
  | handshakePipe (fault : PipeFault)
  | pipe (fault : PipeFault)
  | frame (e : FrameError)
  | settingsExpected (received : FrameKind)
  | closedDuringSettings
  | timedOut
  | stated (reason : String)
  deriving DecidableEq, Repr

def ConnectFault.message : ConnectFault → String
  | .identityTooLong size => s!"handshake protocol error: identity too long: {size} bytes"
  | .badMagic => "handshake protocol error: bad identity magic"
  | .peerIdentityTooLong size => s!"handshake protocol error: peer identity too long: {size} bytes"
  | .handshakePipe fault => s!"handshake i/o error: {fault.message}"
  | .pipe fault => fault.message
  | .frame e => e.message
  | .settingsExpected received => s!"expected SETTINGS, received {received.text}"
  | .closedDuringSettings => "connection closed during settings exchange"
  | .timedOut => "connect timed out"
  | .stated reason => reason

inductive Violation
  | frame (e : FrameError)
  | neverOpened (id : StreamId)
  | beyondLimit (id : StreamId) (limit : UInt64)
  | writeOnly (id : StreamId)
  | dataAfterFin (id : StreamId)
  | window (id : StreamId) (e : WindowExceeded)
  | duplicateClose
  | lateSettings
  | stated (reason : String)
  deriving DecidableEq, Repr

def Violation.message : Violation → String
  | .frame e => e.message
  | .neverOpened id => s!"frame for local stream {id.text} which was never opened"
  | .beyondLimit id limit =>
    s!"peer opened stream {id.text} beyond the limit of {limit} concurrent streams"
  | .writeOnly id => s!"STREAM frame on write-only stream {id.text}"
  | .dataAfterFin id => s!"data after FIN on stream {id.text}"
  | .window id e => s!"stream {id.text}: {e.message}"
  | .duplicateClose => "duplicate CLOSE"
  | .lateSettings => "SETTINGS received after connection establishment"
  | .stated reason => reason

inductive Loss
  | hungUp
  | pipe (fault : PipeFault)
  | stated (reason : String)
  deriving DecidableEq, Repr

def Loss.message : Loss → String
  | .hungUp => "peer closed the connection without CLOSE"
  | .pipe fault => fault.message
  | .stated reason => reason

/-- A call that the state of its object does not allow. -/
inductive Misuse
  | connectCalled
  | connectInProgress
  | notEstablished
  | noReadSide
  | noWriteSide
  | readsAbandoned
  | stated (reason : String)
  deriving DecidableEq, Repr

def Misuse.message : Misuse → String
  | .connectCalled => "connect was already called"
  | .connectInProgress => "connect is already in progress"
  | .notEstablished => "connection is not established"
  | .noReadSide => "stream has no read side"
  | .noWriteSide => "stream has no write side"
  | .readsAbandoned => "reads were abandoned"
  | .stated reason => reason

inductive Failure
  | connectFailed (cause : ConnectFault)
  | authenticationFailed (cause : TrustFault)
  | streamAborted (code : UInt64)
  | closedLocally
  | closedByPeer (code : UInt64)
  | connectionLost (cause : Loss)
  | connectionIdle
  | protocolViolation (cause : Violation)
  | unexpectedEnd
  | writesClosed
  | invalidState (cause : Misuse)
  | cancelled
  deriving DecidableEq, Repr

def Failure.message : Failure → String
  | .connectFailed cause => s!"connect failed: {cause.message}"
  | .authenticationFailed cause => s!"authentication failed: {cause.message}"
  | .streamAborted code => s!"stream aborted with error code {code}"
  | .closedLocally => "connection closed locally"
  | .closedByPeer code => s!"connection closed by peer with error code {code}"
  | .connectionLost cause => s!"connection lost: {cause.message}"
  | .connectionIdle => "connection idle timeout"
  | .protocolViolation cause => s!"protocol violation: {cause.message}"
  | .unexpectedEnd => "unexpected end of stream"
  | .writesClosed => "writes are closed"
  | .invalidState cause => s!"invalid state: {cause.message}"
  | .cancelled => "operation cancelled"

end Multiplex
