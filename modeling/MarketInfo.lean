import MarketInfo.Lib.Check
import MarketInfo.Lib.Transition
import MarketInfo.Lib.BinaryHeap
import MarketInfo.Lib.Listing
import MarketInfo.Lib.DeltaLog
import MarketInfo.Lib.CrashLogic
import MarketInfo.Lib.Json
import MarketInfo.Lib.Grouping
import MarketInfo.Universe.Perpetual
import MarketInfo.Universe.Laws
import MarketInfo.Universe.Selection
import MarketInfo.Universe.Common
import MarketInfo.Model.Time
import MarketInfo.Model.Book
import MarketInfo.Model.PriceMap
import MarketInfo.Model.Minute
import MarketInfo.Orderbook.Book
import MarketInfo.Orderbook.Invariant
import MarketInfo.Orderbook.Frontier
import MarketInfo.Orderbook.Feed
import MarketInfo.Orderbook.DerivativeStream
import MarketInfo.Orderbook.LevelCount
import MarketInfo.OptionsLive.LevelBudget
import MarketInfo.Binance.Collector
import MarketInfo.Binance.Activation
import MarketInfo.Binance.Equivalence
import MarketInfo.Binance.Sequencing
import MarketInfo.Exchange.Collectors
import MarketInfo.Codec.Laws
import MarketInfo.Codec.BookDelivery
import MarketInfo.Codec.SqlRoundTrip
import MarketInfo.Spool.Durability
import MarketInfo.Discovery.CapitalVersions
import MarketInfo.Contracts.BookValidation
import MarketInfo.Sampler.Changes
import MarketInfo.Sampler.Buffer
import MarketInfo.Replay.AtSecond
import MarketInfo.Sampler.BufferInvariant
import MarketInfo.Sampler.RoundTrip
import MarketInfo.Sampler.DerivativeRoundTrip
import MarketInfo.Redis.ReadyIndex
import MarketInfo.Redis.BookReload
import MarketInfo.Stream.Isolation
import MarketInfo.Keeper.Frontier
import MarketInfo.Across.ReceiptSelection
import MarketInfo.Rental.Outcome
import MarketInfo.Reserve.Binding
import MarketInfo.Across.DecodeWork
import MarketInfo.DexRuntime.Coverage
import MarketInfo.Across.QuotaLaws
import MarketInfo.Across.ProbeLaws
import MarketInfo.Orderbook.Atomicity
import MarketInfo.Funding.AsOf
import MarketInfo.Mysql.ExactlyOnce
import MarketInfo.DexRuntime.Mirror
import MarketInfo.Lst.Quotas
import MarketInfo.Exchange.Gate
import MarketInfo.OptionsLive.Ingress
import MarketInfo.Stream.ControlWriter
import MarketInfo.Stream.ControlPace
import MarketInfo.Funding.Worker
import MarketInfo.Options.Decimal
import MarketInfo.Writer.Deferral
import MarketInfo.Writer.Accounting
import MarketInfo.Spool.IndexExact
import MarketInfo.Spool.InspectExact
import MarketInfo.Checkpoint.TypedRoundTrip
import MarketInfo.Mysql.BulkRefines
import MarketInfo.Keeper.Receipts
import MarketInfo.Lst.HedgeExact
import MarketInfo.Keeper.EventRoundTrip
import MarketInfo.Keeper.Fairness
import MarketInfo.Preimage.Laws
import MarketInfo.Discovery.Canonical
import MarketInfo.Orderbook.Selection
import MarketInfo.Across.Windows
import MarketInfo.OptionsLive.PendingBudget
import MarketInfo.Mysql.CompactRoundTrip
import MarketInfo.DexArb.Exact
import MarketInfo.Sampler.Accounts
import MarketInfo.Sampler.Replayed
import MarketInfo.Checkpoint.PagedRuns
