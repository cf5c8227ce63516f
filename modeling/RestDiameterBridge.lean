import RestDiameterBridge.CommandBuffer
import RestDiameterBridge.CommandReader
import RestDiameterBridge.CommandLayout
import RestDiameterBridge.AvpTree
import RestDiameterBridge.CommandLengths
import RestDiameterBridge.CommandJson
import RestDiameterBridge.CheckedReads
import RestDiameterBridge.CommandFromJsonTotal
import RestDiameterBridge.CommandJsonEntries
import RestDiameterBridge.AvpValueFromJson
import RestDiameterBridge.AvpNameBack
import RestDiameterBridge.JsonThroughWire
import RestDiameterBridge.LoadBalancerStrategy
import RestDiameterBridge.Stack.ExpressionDepth
import RestDiameterBridge.Stack.ListenAddressPrint
import RestDiameterBridge.Transport.ConnectionIterator
import RestDiameterBridge.Transport.FailOver
import RestDiameterBridge.Transport.FailOverSends
import RestDiameterBridge.Transport.RoundRobinSnapshot
import RestDiameterBridge.Transport.Fairness
import RestDiameterBridge.Transport.ConnectionManager
import RestDiameterBridge.Transport.RemovedConnections
import RestDiameterBridge.Transport.ManagerLocks
import RestDiameterBridge.Transport.RedirectCoverage
import RestDiameterBridge.Transport.HopByHopIds
import RestDiameterBridge.Transport.RoutingReach
import RestDiameterBridge.Transport.RoutingSelection
import RestDiameterBridge.Transport.RoutingTree
import RestDiameterBridge.Transport.Relay
import RestDiameterBridge.Transport.RelayChain
import RestDiameterBridge.Transport.RestToBackend
import RestDiameterBridge.Transport.AnswerToClient
import RestDiameterBridge.Transport.LoopDetection
import RestDiameterBridge.Transport.SingleAnswer
import RestDiameterBridge.Transport.RequestBudget
import RestDiameterBridge.Transport.AwaitedAnswers
import RestDiameterBridge.Transport.AnswerCalls
import RestDiameterBridge.Transport.TcpClient
import RestDiameterBridge.Transport.SctpReadLoop
import RestDiameterBridge.Transport.WaitCycle
import RestDiameterBridge.Transport.OwnAnswers
import RestDiameterBridge.Transport.Correlation
import RestDiameterBridge.Transport.EveryRequest
import RestDiameterBridge.RestOrigin
import RestDiameterBridge.AlarmCalls
import RestDiameterBridge.Transport.InboundAlarms
import RestDiameterBridge.Stack.PeerFiles
import RestDiameterBridge.Stack.PeerAnswers
import RestDiameterBridge.Transport.Retention
import RestDiameterBridge.Transport.RedirectedSends
import RestDiameterBridge.RestResponse
import RestDiameterBridge.Transport.Handshake
import RestDiameterBridge.Transport.ClientStreams
import RestDiameterBridge.Transport.StreamReads
