import Multiplex.Bytes
import Multiplex.CodeSpace
import Multiplex.Connection.Basic
import Multiplex.Connection.Calls
import Multiplex.Connection.Closing
import Multiplex.Connection.Receiving
import Multiplex.Connection.Sending
import Multiplex.Crc32c
import Multiplex.Endpoint
import Multiplex.Failure
import Multiplex.Flow
import Multiplex.Frame.Basic
import Multiplex.Frame.Codec
import Multiplex.Identity
import Multiplex.Json.Reader
import Multiplex.Json.Writer
import Multiplex.Link
import Multiplex.Network.Basic
import Multiplex.Network.Session
import Multiplex.Opening
import Multiplex.Pipe
import Multiplex.Proofs.Accepting
import Multiplex.Proofs.Addressing
import Multiplex.Proofs.Agreement
import Multiplex.Proofs.Announcing
import Multiplex.Proofs.Buffering
import Multiplex.Proofs.Calling
import Multiplex.Proofs.Cancellation
import Multiplex.Proofs.Carriage
import Multiplex.Proofs.Chunking
import Multiplex.Proofs.Conversation
import Multiplex.Proofs.Corruption
import Multiplex.Proofs.Counting
import Multiplex.Proofs.Course
import Multiplex.Proofs.Cutting
import Multiplex.Proofs.Duties
import Multiplex.Proofs.Fidelity
import Multiplex.Proofs.Graceful
import Multiplex.Proofs.Grammar
import Multiplex.Proofs.Grove
import Multiplex.Proofs.Headers
import Multiplex.Proofs.Heading
import Multiplex.Proofs.Hosting
import Multiplex.Proofs.Interruption
import Multiplex.Proofs.Introduction
import Multiplex.Proofs.Keeping
import Multiplex.Proofs.Lifecycle
import Multiplex.Proofs.Listening
import Multiplex.Proofs.Nesting
import Multiplex.Proofs.Ownership
import Multiplex.Proofs.Pinging
import Multiplex.Proofs.ProcessCalls
import Multiplex.Proofs.Producers
import Multiplex.Proofs.RoundTrip
import Multiplex.Proofs.Routing
import Multiplex.Proofs.Serving
import Multiplex.Proofs.Shutdown
import Multiplex.Proofs.Splitting
import Multiplex.Proofs.Standing
import Multiplex.Proofs.Table
import Multiplex.Proofs.Violations
import Multiplex.Proofs.Wakeups
import Multiplex.Proofs.Wire
import Multiplex.Quiescence
import Multiplex.Race
import Multiplex.Rpc.Address
import Multiplex.Rpc.Deployment.Basic
import Multiplex.Rpc.Deployment.Calling
import Multiplex.Rpc.Deployment.Script
import Multiplex.Rpc.Deployment.Serving
import Multiplex.Rpc.Dispatch
import Multiplex.Rpc.Error
import Multiplex.Rpc.Event
import Multiplex.Rpc.Exchange
import Multiplex.Rpc.Features
import Multiplex.Rpc.Fields
import Multiplex.Rpc.Handler
import Multiplex.Rpc.Header
import Multiplex.Rpc.Invocation
import Multiplex.Rpc.Payload
import Multiplex.Rpc.Process
import Multiplex.Rpc.Reply
import Multiplex.Rpc.Request
import Multiplex.Rpc.Routes
import Multiplex.Rpc.Service
import Multiplex.Rpc.Source
import Multiplex.Rpc.Status
import Multiplex.Session
import Multiplex.Settings
import Multiplex.Stream
import Multiplex.StreamId
import Multiplex.Text
import Multiplex.Token.Basic
import Multiplex.Token.Session
