import Mercado.Results
import Mercado.Async.Task
import Mercado.Async.Machine
import Mercado.Async.Alone
import Mercado.Async.Ghost
import Mercado.Async.Rely
import Mercado.Redis.Stream
import Mercado.Errors
import Mercado.Drainer.Handler
import Mercado.Drainer.Run
import Mercado.Drainer.Loss
import Mercado.Drainer.Turns
import Mercado.Drainer.Progress
import Mercado.Drainer.Order
import Mercado.Storage.KvStore
import Mercado.Storage.Atomicity
import Mercado.Storage.WriteOrder
import Mercado.Cache.Functions
import Mercado.Cache.Coherence
import Mercado.Cache.Provenance
import Mercado.Cache.Invalidation
import Mercado.Scheduler.Lock
import Mercado.Scheduler.Batch
import Mercado.Scheduler.Exclusion
import Mercado.Scheduler.Flows
import Mercado.Scheduler.Stranding
import Mercado.Scheduler.Effects
import Mercado.Scheduler.Protocol
import Mercado.Scheduler.Delivery
import Mercado.Scheduler.Scheduling
import Mercado.Scheduler.Starts
import Mercado.Scheduler.Finish
import Mercado.Scheduler.Commands
import Mercado.Scheduler.BusinessStatus
import Mercado.Drainer.Fleet
import Mercado.Drainer.FlagExclusion
import Mercado.Drainer.Routing
import Mercado.Drainer.Shutdown
import Mercado.Drainer.Entry
import Mercado.Drainer.Bookkeeping
import Mercado.ApiKeys.Table
import Mercado.ApiKeys.Service
import Mercado.ApiKeys.Authentication
import Mercado.ApiKeys.Upsert
import Mercado.Scheduler.RoundTrip
import Mercado.Masking.Masked
import Mercado.Storage.Constraints
import Mercado.Storage.Uniqueness
import Mercado.Scheduler.RetryDelay
import Mercado.Tracing.Sampler
import Mercado.Http.Request
import Mercado.Configs.LockSettings
import Mercado.Configs.CommaSeparated
import Mercado.Drainer.Partitions
import Mercado.Scheduler.Division
import Mercado.Decimal.Literal
import Mercado.Decimal.Number
import Mercado.Decimal.Places
import Mercado.Decimal.Binary
import Mercado.Currency.Conversion
import Mercado.Serde.Numbers
import Mercado.Percentage.Parsing
import Mercado.Percentage.Visitor
import Mercado.Bytes.BigEndian
import Mercado.Crypto.GcmAes256
import Mercado.Text.Split
import Mercado.Text.Utf8
import Mercado.Pii.Strategies
import Mercado.Text.Regex
import Mercado.Pii.Email
import Mercado.Files.Path
import Mercado.Files.FileSystem
import Mercado.Logger.Storage
import Mercado.Logger.SpanTree
import Mercado.Logger.Latest
import Mercado.Logger.Formatter
import Mercado.Logger.LogLine
import Mercado.Logger.Diagnostics
import Mercado.Dates.Calendar
import Mercado.Dates.Format
import Mercado.Dates.CustomSerde
import Mercado.Scheduler.TrackerIds
import Mercado.Scheduler.MockDb
import Mercado.Text.Template
import Mercado.Derive.Syntax
import Mercado.Derive.Helpers
import Mercado.Derive.ApiError
import Mercado.Derive.Schema
import Mercado.Derive.Documented
import Mercado.Scheduler.Guarded
import Mercado.Scheduler.Undisturbed
import Mercado.Scheduler.Pipeline
import Mercado.Drainer.Settled
import Mercado.WriteBehind.System
import Mercado.WriteBehind.Convergence
import Mercado.Async.Moments
import Mercado.Storage.Instants
import Mercado.Async.Serial
import Mercado.Files.Store
import Mercado.Scheduler.Consumer
