import GenerationBalance.Transition
import GenerationBalance.Table
import GenerationBalance.Decimal
import GenerationBalance.Errors
import GenerationBalance.Texts
import GenerationBalance.Doubles
import GenerationBalance.Policy
import GenerationBalance.Money
import GenerationBalance.Redis
import GenerationBalance.Store
import GenerationBalance.Loader
import GenerationBalance.Generation
import GenerationBalance.Workers
import GenerationBalance.System
import GenerationBalance.Effects
import GenerationBalance.Progress
import GenerationBalance.Views
import GenerationBalance.Runs
import GenerationBalance.Versions
import GenerationBalance.Reservations
import GenerationBalance.Nonneg
import GenerationBalance.Records
import GenerationBalance.Ledger
import GenerationBalance.Outcomes
import GenerationBalance.Agreement
import GenerationBalance.Duplicates
import GenerationBalance.Locks
import GenerationBalance.Replays
import GenerationBalance.Flushes
import GenerationBalance.Copies
import GenerationBalance.TopUps
import GenerationBalance.Reach
import GenerationBalance.Columns
import GenerationBalance.Recovery
import GenerationBalance.Greedy
import GenerationBalance.Surplus
import GenerationBalance.Settling
import GenerationBalance.Authorization
import GenerationBalance.AllOrNothing
import GenerationBalance.Monotonicity
import GenerationBalance.Stopped
import GenerationBalance.Inflight
import GenerationBalance.Payloads
import GenerationBalance.ColdLoad
import GenerationBalance.Denials
import GenerationBalance.Stranded
import GenerationBalance.Exactness
import GenerationBalance.Additive
import GenerationBalance.Reaping
import GenerationBalance.Solo
import GenerationBalance.Drain
import GenerationBalance.Convergence
import GenerationBalance.Shutdown
import GenerationBalance.Interrupted
import GenerationBalance.Harmful
import GenerationBalance.Numerals
import GenerationBalance.Scripts
import GenerationBalance.Encoding
import GenerationBalance.Decoding
import GenerationBalance.Codec
import GenerationBalance.Banking
import GenerationBalance.Locking
import GenerationBalance.Upserts
import GenerationBalance.Contention
import GenerationBalance.Timing
import GenerationBalance.Durable
import GenerationBalance.Parallel
import GenerationBalance.Bounded
import GenerationBalance.Endings
import GenerationBalance.Queries
import GenerationBalance.Wire
