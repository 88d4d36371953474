import Railscale.Lib.Bytes
import Railscale.Lib.Text
import Railscale.Lib.Split
import Railscale.Lib.Run
import Railscale.Lib.Token
import Railscale.Lib.Map
import Railscale.Lib.Decoder
import Railscale.Lib.Framed
import Railscale.Lib.Stream
import Railscale.Lib.Fill
import Railscale.Lib.Field
import Railscale.Lib.Record
import Railscale.Lib.Batch
import Railscale.Lib.Stable
import Railscale.Atom.Derive
import Railscale.Atom.Frame
import Railscale.Atom.Phased
import Railscale.Http.Frame
import Railscale.Http.Derive
import Railscale.Http.Hook
import Railscale.Http.Line
import Railscale.Tcp.Routed
import Railscale.Http.Codec
import Railscale.Http.Pipeline
import Railscale.Http.Rewriting
import Railscale.Http.Parser
import Railscale.Http.Message
import Railscale.Http.ContentLength
import Railscale.Http.ListHeader
import Railscale.Http.Boundary
import Railscale.Http.ResponseCodec
import Railscale.Http.ResponseHead
import Railscale.Http.ResponseParser
import Railscale.Http.ResponseLength
import Railscale.Core.Service
import Railscale.Core.Forward
import Railscale.Core.Steps
import Railscale.Core.Relay
import Railscale.Core.Recording
import Railscale.Core.Phases
import Railscale.Core.Cycles
import Railscale.Core.Accounting
import Railscale.Core.Upstreams
import Railscale.Core.Accept
import Railscale.Core.Stabling
import Railscale.Core.Yard
import Railscale.Core.Calls
import Railscale.Core.IdleCount
import Railscale.Core.Reaping
import Railscale.Core.Pool
import Railscale.Core.Gauge
import Railscale.Core.Custody
import Railscale.Core.Server
import Railscale.Core.Rejection
import Railscale.Http.Upstream
import Railscale.Http.Client
import Railscale.Http.Cycles
import Railscale.Http.Truncation
import Railscale.Http.Conservation
import Railscale.Http.Phase
import Railscale.Http.Memory
import Railscale.Http.ResponseRelay
import Railscale.Http.ResponseMessage
import Railscale.Http.ChunkedGrammar
import Railscale.Tls.Frame
import Railscale.Tls.Bounds
import Railscale.Tls.Parser
import Railscale.Tls.ClientHello
import Railscale.Tls.Matching
import Railscale.Tls.Authority
import Railscale.Core.Feed
import Railscale.Tls.Passthrough
import Railscale.Core.Answer
import Railscale.Capture.Format
import Railscale.Capture.Pcap
import Railscale.Capture.Rotation
import Railscale.Capture.Channel
import Railscale.Http.CycleItems
import Railscale.Http.CloseInjection
import Railscale.Core.Exchange
import Railscale.Core.Proxy
import Railscale.Http.Proxy
import Railscale.Http.Error
