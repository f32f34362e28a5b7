import Mesim.Takeover
import Mesim.ConnectBinding
import Mesim.MacPolicy
import Mesim.KeyAgreement
import Mesim.RouteTables
import Mesim.SessionIndexes
import Mesim.Robustness
import Mesim.Retransmission
import Mesim.Forwarding
import Mesim.RouteSources
import Mesim.SigningContexts
import Mesim.Duress
import Mesim.Leftovers
import Mesim.ReplayNetwork
import Mesim.Custody
import Mesim.RouteLearning
import Mesim.Flooding
import Mesim.HistoryPages
import Mesim.FifoQueue
import Mesim.SendOrder
import Mesim.IdleLock
import Mesim.PeerHistory
import Mesim.NodeRuns
import Mesim.Callsigns
import Mesim.Flush
import Mesim.Outcomes
import Mesim.Purging
import Mesim.Staleness
import Mesim.OriginatorTraces
import Mesim.Restarts
import Mesim.BundleCoverage
import Mesim.PacketFraming
import Mesim.FileTampering
import Mesim.StoreOpening
import Mesim.FailedOpens
import Mesim.PeerNames
import Mesim.QueuedDelivery
import Mesim.RateLimit
import Mesim.Discovery
import Mesim.LatestHistory
import Mesim.Nonces
import Mesim.BestRoutes
import Mesim.OriginatorCodec
import Mesim.MessagePages
import Mesim.LoadErrors
import Mesim.Datagrams
import Mesim.FloodCoverage
import Mesim.Advertisement
import Mesim.PublishedBundle
import Mesim.AutoConnect
import Mesim.Answers
import Mesim.Ledger
import Mesim.Settling
import Mesim.Invocations
import Mesim.FragmentTable
import Mesim.Chats
import Mesim.Silence
import Mesim.Acknowledgements
