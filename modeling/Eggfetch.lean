import Eggfetch.Retry.Credentials
import Eggfetch.Facade.TextLines
import Eggfetch.CookieJar.Traced
import Eggfetch.Retry.Logical
import Eggfetch.Sse.RoundTrip
import Eggfetch.Transport.Metrics
import Eggfetch.Facade.Reuse
import Eggfetch.Facade.FollowUp
import Eggfetch.Facade.ContentLength
import Eggfetch.Facade.Redirection
import Eggfetch.Facade.BuildRequest
import Eggfetch.Streaming.IteratorRuns
import Eggfetch.Facade.HeaderMerge
import Eggfetch.Text.Dictionary
import Eggfetch.Facade.Extensions
import Eggfetch.Facade.NativeArguments
import Eggfetch.Transport.DirectConnector
import Eggfetch.Transport.Candidates
import Eggfetch.Tls.Pem
import Eggfetch.Cli.Output
import Eggfetch.Facade.MountLaws
import Eggfetch.Facade.ResponseRuns
import Eggfetch.Facade.QueryMapping
import Eggfetch.Facade.CopyWith
import Eggfetch.Facade.HostHeader
import Eggfetch.Facade.Netrc
import Eggfetch.Facade.Nonces
import Eggfetch.Transport.Upgraded
import Eggfetch.Transport.Inactivity
import Eggfetch.Body.WriteTimeout
import Eggfetch.Body.Lines
import Eggfetch.Pool.Limit
import Eggfetch.CookieJar.Batch
import Eggfetch.CookieJar.Confined
import Eggfetch.AltSvc.Learned
import Eggfetch.CookieJar.Order
import Eggfetch.Compression.Limit
import Eggfetch.Datagram.Wakeups
import Eggfetch.Multipart.RoundTrip
import Eggfetch.Multipart.Published
import Eggfetch.Multipart.Streamed
import Eggfetch.AltSvc.Removal
import Eggfetch.AltSvc.Generations
import Eggfetch.Pipeline.Hints
import Eggfetch.Pipeline.Bodies
import Eggfetch.Streaming.Exact
import Eggfetch.Facade.Secrecy
import Eggfetch.Facade.Wire
import Eggfetch.AltSvc.Bounds
import Eggfetch.Http3.Head
import Eggfetch.Http3.Fallback
import Eggfetch.Http3.Attribution
import Eggfetch.Http3.Bound
import Eggfetch.Http3.Establish
import Eggfetch.Retry.Deadline
import Eggfetch.Retry.Budget
import Eggfetch.Proxy.Body
import Eggfetch.Proxy.Length
import Eggfetch.Proxy.Fallback
import Eggfetch.Proxy.Rejection
import Eggfetch.Proxy.Forward
import Eggfetch.Proxy.Tunnel
import Eggfetch.Routing.Decision
import Eggfetch.Routing.Caches
import Eggfetch.Body.Custody
import Eggfetch.Compression.Paths
import Eggfetch.Compression.Lines
import Eggfetch.Streaming.Bridge
import Eggfetch.Streaming.Runtime
import Eggfetch.Streaming.Response
import Eggfetch.Ffi.Stream
import Eggfetch.Transport.Admission
import Eggfetch.Transport.Punctual
import Eggfetch.Sse.Splits
import Eggfetch.HttpConnect.Head
import Eggfetch.HttpConnect.Request
import Eggfetch.Proxy.Framed
import Eggfetch.WebSocket.Writes
import Eggfetch.WebSocket.Exit
import Eggfetch.WebSocket.Turns
import Eggfetch.Routing.Bypass
import Eggfetch.Proxy.Declared
import Eggfetch.AltSvc.Backoff
import Eggfetch.Http3.Shares
import Eggfetch.Transport.Representable
import Eggfetch.Http.H2Headers
import Eggfetch.Http.Redact
import Eggfetch.Facade.HeaderMerge
