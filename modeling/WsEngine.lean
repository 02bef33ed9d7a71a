import WsEngine.Lib.EventSystem
import WsEngine.Tcp.Closing
import WsEngine.Tcp.Fifo
import WsEngine.Tcp.Progress
import WsEngine.Tcp.InFlight
import WsEngine.Lib.ControlFlow
import WsEngine.Ws.Connection
import WsEngine.Ws.Decode
import WsEngine.Ws.Refinement
import WsEngine.Ws.Handshake
import WsEngine.Ws.Activation
import WsEngine.Ws.Session
import WsEngine.Ws.Termination
import WsEngine.Ws.SendsStop
import WsEngine.Ws.FailStop
import WsEngine.Ws.Listening
import WsEngine.Ws.Chunks
import WsEngine.Ws.Encode
import WsEngine.Ws.Reassembly
import WsEngine.Lib.Queue
import WsEngine.Tcp.Draining
import WsEngine.Buffer.Operations
import WsEngine.Ws.Overloads
import WsEngine.Ws.RoundTrip
import WsEngine.Ws.Output
import WsEngine.Ws.PingPong
import WsEngine.Ws.Validation
import WsEngine.Ws.Acceptance
import WsEngine.Ws.Opening
import WsEngine.Server.Model
import WsEngine.Server.Registries
import WsEngine.Ws.Incomplete
import WsEngine.Server.ThreadPool
import WsEngine.Tcp.Metering
import WsEngine.Lib.CString
import WsEngine.String.Model
import WsEngine.String.Values
import WsEngine.Ws.Indices
import WsEngine.Ws.Lifecycle
import WsEngine.Ws.Stranding
import WsEngine.Lib.Slices
import WsEngine.Http.Requests
import WsEngine.Ws.Answer
import WsEngine.Lib.Product
import WsEngine.Server.Isolation
import WsEngine.Ws.Replies
import WsEngine.Ws.Echo
import WsEngine.Ws.Serving
import WsEngine.Ws.Delivery
