import CppImprovement.Core.Bytes
import CppImprovement.Core.Lines
import CppImprovement.Core.Effect
import CppImprovement.Core.Sim
import CppImprovement.Core.Transition
import CppImprovement.Core.PriorityQueue
import CppImprovement.Net.Ws.Types
import CppImprovement.Net.Ws.Header
import CppImprovement.Net.Ws.Utf8
import CppImprovement.Net.Ws.Base64
import CppImprovement.Net.Ws.Handshake
import CppImprovement.Net.Ws.HandshakeSound
import CppImprovement.Net.Ws.Session
import CppImprovement.Net.Ws.Sending
import CppImprovement.Net.Ws.Receive
import CppImprovement.Net.Ws.Events
import CppImprovement.Net.Ws.Served
import CppImprovement.Net.Ws.Steps
import CppImprovement.Net.Ws.Lifecycle
import CppImprovement.Net.Ws.Line
import CppImprovement.Net.Ws.Frames
import CppImprovement.Net.Ws.Delivery
import CppImprovement.Net.Ws.ReadBoundaries
import CppImprovement.Net.Ws.Fragments
import CppImprovement.Net.Ws.ServerFrames
import CppImprovement.Net.Ws.CloseRecord
import CppImprovement.Wtf.TaskQueues
import CppImprovement.Wtf.TaskOrder
import CppImprovement.Wtf.MessageLoopWin
import CppImprovement.Pipeline.Delivery
import CppImprovement.Wtf.WaitableEvent
import CppImprovement.Core.OrderedMap
import CppImprovement.Net.Http.Request
import CppImprovement.Net.Http.Session
import CppImprovement.Net.Http.ResponseParser
import CppImprovement.Net.Http.ReadBoundaries
import CppImprovement.Net.Http.Requests
import CppImprovement.Core.Service
import CppImprovement.Net.Http.Tls
import CppImprovement.Net.Ws.Steady
import CppImprovement.Net.Ws.Twins
import CppImprovement.Net.Ws.Reconnect
import CppImprovement.Net.Ws.Leftovers
import CppImprovement.Net.Ws.Upgrade
import CppImprovement.Net.Ws.Stale
import CppImprovement.Net.Ws.Binary
import CppImprovement.Net.Ws.Outgoing
import CppImprovement.Net.Ws.Validity
import CppImprovement.Net.Ws.Rules
import CppImprovement.Net.Ws.Deadline
import CppImprovement.Net.Ws.Discipline
import CppImprovement.Net.Ws.Exchange
import CppImprovement.Wtf.Termination
import CppImprovement.Wtf.LoopRun
import CppImprovement.Wtf.Thread
import CppImprovement.Net.Ws.CodePoints
import CppImprovement.Net.Ws.Base64Codec
import CppImprovement.Net.Http.HostCheck
import CppImprovement.Net.Http.CertVerify
import CppImprovement.Net.Ws.SessionUV
import CppImprovement.Net.Ws.ReplyCuts
import CppImprovement.Net.Ws.Pings
import CppImprovement.Net.Ws.Base64Bounds
import CppImprovement.Net.Ws.HeaderCuts
import CppImprovement.Net.Ws.CloseReply
import CppImprovement.Net.Ws.CallerStrings
import CppImprovement.Net.Ws.SendState
import CppImprovement.Core.Loop
import CppImprovement.Core.RequestHead
import CppImprovement.Net.Ws.Rounds
import CppImprovement.Net.Ws.Remaining
import CppImprovement.Net.Ws.MaskedReads
import CppImprovement.Net.Ws.UpgradeRequest
import CppImprovement.Net.Http.Serialised
import CppImprovement.Net.Http.SessionEV
import CppImprovement.Wtf.DelayedPost
import CppImprovement.Pipeline.Inflight
import CppImprovement.Core.Text
import CppImprovement.Core.MapHistory
import CppImprovement.Reflect.Class
import CppImprovement.Reflect.TypeDescriptor
import CppImprovement.Reflect.Method
import CppImprovement.Reflect.Value
import CppImprovement.Wtf.QueueStore
import CppImprovement.Reflect.Instances
import CppImprovement.Net.Ws.Conversation
import CppImprovement.Pipeline.Buffer
import CppImprovement.Pipeline.Drain
