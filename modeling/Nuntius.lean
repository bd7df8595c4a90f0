import Nuntius.OrderStatistics
import Nuntius.FloatModel
import Nuntius.WireFormat
import Nuntius.DigitText
import Nuntius.AddressText
import Nuntius.InteractivePrograms
import Nuntius.LabelledRuns
import Nuntius.CancellableTasks
import Nuntius.ConcurrentPrograms
import Nuntius.SelfDelimiting
import Nuntius.FramedStreams
import Nuntius.DistinctLists
import Nuntius.OrderedDicts
import Nuntius.ServedRequests
import Nuntius.CheckedSlices
import Nuntius.ByteSources
import Nuntius.SeparatedWords
import Nuntius.TokenBuckets
import Nuntius.SortedLadder
import Nuntius.RunningWeights
import Nuntius.SignedIntegers
import Nuntius.JsonTrees
import Nuntius.SequenceChains
import Nuntius.Aggregator
import Nuntius.ServerClock
import Nuntius.ExactFilters
import Nuntius.OutlierFilter
import Nuntius.WeightedMedian
import Nuntius.VolumeDominance
import Nuntius.CobCommon
import Nuntius.ConsolidatedBook
import Nuntius.BookReader
import Nuntius.BookState
import Nuntius.BookClearing
import Nuntius.ExactBooks
import Nuntius.ClearingBalance
import Nuntius.CommonGrid
import Nuntius.DeepBooks
import Nuntius.QuoteRange
import Nuntius.LocalBook
import Nuntius.Bootstrap
import Nuntius.VenueFrames
import Nuntius.VenueLog
import Nuntius.BookSink
import Nuntius.BinanceFeed
import Nuntius.BookChains
import Nuntius.SnapshotSessions
import Nuntius.SessionProgress
import Nuntius.PushedFeeds
import Nuntius.BitmartFeed
import Nuntius.CryptoComFeed
import Nuntius.GateFeed
import Nuntius.VenueGate
import Nuntius.VenuePool
import Nuntius.VenueManipulation
import Nuntius.OracleCycle
import Nuntius.RestPath
import Nuntius.QuoteRates
import Nuntius.CobCommitment
import Nuntius.SourceCommitment
import Nuntius.StoredPrices
import Nuntius.HandoverPolicy
import Nuntius.OwnerApprovals
import Nuntius.ControlChannel
import Nuntius.PeerHints
import Nuntius.ApprovalText
import Nuntius.AttestedExchange
import Nuntius.ExchangeAgreement
import Nuntius.AttestationDocument
import Nuntius.AttestationVerify
import Nuntius.DerSignatures
import Nuntius.KeySealing
import Nuntius.BootRules
import Nuntius.BootSafety
import Nuntius.OracleRuns
import Nuntius.HandoverSafety
import Nuntius.PublishedIdentity
import Nuntius.ImageRefinement
import Nuntius.ChainReads
import Nuntius.OwnerReads
import Nuntius.Quantities
import Nuntius.ClaimFlow
import Nuntius.BridgeHandlers
import Nuntius.BridgeBoot
import Nuntius.BridgeServer
import Nuntius.BridgeClaims
import Nuntius.BridgeSafety
import Nuntius.TxQueue
import Nuntius.TxRuntime
import Nuntius.TxNonces
import Nuntius.Relayer
import Nuntius.RelaySteps
import Nuntius.RelayRecords
import Nuntius.RelaySafety
import Nuntius.RelayLiveness
import Nuntius.ClientKey
import Nuntius.RateLimiter
import Nuntius.RateWindows
import Nuntius.PriceServer
import Nuntius.SignedUpdates
import Nuntius.CollectorSupervisor
import Nuntius.RpcFailover
import Nuntius.NsmRandom
import Nuntius.VsockFrames
import Nuntius.TimedSockets
import Nuntius.DeadlineReads
import Nuntius.EgressTunnel
import Nuntius.TypedData
import Nuntius.SignedMessages
import Nuntius.PushedSessions
import Nuntius.PushedVenues
import Nuntius.StatedTimes
import Nuntius.BerValues
import Nuntius.KeyEnvelope
import Nuntius.CoinGecko
