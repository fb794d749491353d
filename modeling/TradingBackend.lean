import TradingBackend.Loop
import TradingBackend.OrderedTree
import TradingBackend.Order
import TradingBackend.OrderBook
import TradingBackend.Engine
import TradingBackend.BookInvariant
import TradingBackend.BookOperations
import TradingBackend.BookView
import TradingBackend.BookContents
import TradingBackend.Walk
import TradingBackend.Execution
import TradingBackend.Fills
import TradingBackend.Matching
import TradingBackend.MatchOrder
import TradingBackend.Commands
import TradingBackend.Draining
import TradingBackend.Runs
import TradingBackend.LifeCycle
import TradingBackend.PlainBook
import TradingBackend.Conservation
import TradingBackend.Uncrossed
import TradingBackend.Greedy
import TradingBackend.Priority
import TradingBackend.Termination
import TradingBackend.Commutation
import TradingBackend.OutOfReach
import TradingBackend.Cancellation
import TradingBackend.Recovery
import TradingBackend.CrashRecovery
import TradingBackend.Trace
import TradingBackend.WorkerSteps
import TradingBackend.Goroutines
import TradingBackend.StartStop
import TradingBackend.Answers
import TradingBackend.Handlers
import TradingBackend.Columns
import TradingBackend.EventStore
import TradingBackend.EventLog
import TradingBackend.EventReplay
import TradingBackend.EventTransactions
import TradingBackend.Ledger
import TradingBackend.RetryQueue
import TradingBackend.SafeStore
import TradingBackend.Instruments
import TradingBackend.Idempotency
import TradingBackend.Postgres
import TradingBackend.StoreTransactions
import TradingBackend.Redelivery
import TradingBackend.RetryPolicy
import TradingBackend.TradeBatches
import TradingBackend.Precision
import TradingBackend.BatchProcessor
import TradingBackend.TokenBucket
import TradingBackend.RateLimiter
import TradingBackend.RateBound
import TradingBackend.RacingRequests
import TradingBackend.RedisScript
import TradingBackend.Fallback
import TradingBackend.RetryAfter
import TradingBackend.ActivityLog
import TradingBackend.Float64
import TradingBackend.InputValidator
import TradingBackend.SecurityGuards
import TradingBackend.ReadModifyWrite
import TradingBackend.TradesCache
import TradingBackend.Hub
import TradingBackend.ClientPhases
import TradingBackend.Batcher
import TradingBackend.DeltaBatches
import TradingBackend.Effects
import TradingBackend.Fanout
import TradingBackend.EventBus
import TradingBackend.LevelVolumes
import TradingBackend.LimitMarket
import TradingBackend.Splitting
import TradingBackend.Feeds
import TradingBackend.Json
import TradingBackend.Snapshots
import TradingBackend.LevelWrites
import TradingBackend.SnapshotCapture
import TradingBackend.SnapshotValidation
import TradingBackend.RecoveryReport
import TradingBackend.RecoveryValidation
import TradingBackend.EventSourcing
import TradingBackend.Replays
import TradingBackend.FillPrices
import TradingBackend.GoStrings
import TradingBackend.Sanitize
import TradingBackend.Glob
import TradingBackend.CacheKeys
import TradingBackend.CacheWarming
import TradingBackend.Linearization
import TradingBackend.ConcurrentClients
import TradingBackend.MarketDepth
import TradingBackend.OrderedQuery
import TradingBackend.TradePages
import TradingBackend.SnapshotRetention
import TradingBackend.Relay
import TradingBackend.ClientFeeds
import TradingBackend.FixedWindow
import TradingBackend.ErrorLogging
import TradingBackend.RWLocks
import TradingBackend.LockProgress
import TradingBackend.EngineLocks
import TradingBackend.LinePump
import TradingBackend.WritePump
import TradingBackend.SnapshotLifecycle
