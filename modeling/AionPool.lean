import AionPool.Lib.Run
import AionPool.Lib.FixedPoint
import AionPool.Lib.Binary64
import AionPool.Lib.Tally
import AionPool.Lib.Window
import AionPool.Lib.PagedRead
import AionPool.Lib.Bytes
import AionPool.Lib.Rlp
import AionPool.Lib.Effects
import AionPool.Lib.Resilience
import AionPool.Lib.Framing
import AionPool.Lib.PairTree
import AionPool.Lib.Intervals
import AionPool.Lib.Rounded
import AionPool.Lib.Rx
import AionPool.Lib.Bracket
import AionPool.Lib.Birthday
import AionPool.Lib.Blocks
import AionPool.Lib.Buffer
import AionPool.Lib.Bits
import AionPool.Runtime
import AionPool.Configuration
import AionPool.Daemon
import AionPool.Extensions.Strings
import AionPool.Crypto.MerkleTree
import AionPool.DaemonInterface.DaemonClient
import AionPool.Util.PooledLineBuffer
import AionPool.Util.Flooding
import AionPool.Util.CircularBuffer
import AionPool.Util.Deque
import AionPool.Util.CorrelationIdGenerator
import AionPool.Stratum1.StratumClient
import AionPool.VarDiff.VarDiffManager
import AionPool.VarDiff.Retarget
import AionPool.Persistence.Model
import AionPool.Persistence.Repositories
import AionPool.Mining.ShareRecorder
import AionPool.Mining.FaultPolicy
import AionPool.Mining.Recovery
import AionPool.Mining.BlockFound
import AionPool.Mining.StatsRecorder
import AionPool.Mining.IdleUpdate
import AionPool.Mining.MinerInfoRecorder
import AionPool.Mining.Relay
import AionPool.Aion.Utils
import AionPool.Aion.Classify
import AionPool.Aion.Confirmation
import AionPool.Aion.Isolation
import AionPool.Payments.Credits
import AionPool.Payments.Pplns
import AionPool.Payments.Paging
import AionPool.Payments.Retention
import AionPool.Payments.Effort
import AionPool.Payments.Solo
import AionPool.Payments.Manager
import AionPool.Payments.Completion
import AionPool.Payments.Conservation
import AionPool.Payments.Decimals
import AionPool.Payments.PoolFrame
import AionPool.Payments.RewardOnce
import AionPool.Aion.Payout
import AionPool.Aion.PayoutLedger
import AionPool.Payments.Ledger
import AionPool.Aion.Transaction
import AionPool.Aion.EncodeLong
import AionPool.Aion.Nonce
import AionPool.Aion.Job
import AionPool.Aion.Duplicates
import AionPool.Aion.DiffTarget
import AionPool.Aion.JobManager
import AionPool.Aion.FoundBlock
import AionPool.Aion.TargetRange
import AionPool.Aion.ExtraNonce
import AionPool.Aion.ConcurrentNonces
import AionPool.Aion.UpdateJob
import AionPool.Aion.ShareWeight
import AionPool.Aion.Pool
import AionPool.Aion.Replies
import AionPool.Aion.Targets
import AionPool.Aion.DifficultyFloor
import AionPool.Aion.Bans
import AionPool.Aion.InitialWork
import AionPool.Aion.LastJob
import AionPool.Aion.RewardCurve
import AionPool.Aion.JobWindow
import AionPool.VarDiff.Average
import AionPool.Serialization.Converters
import AionPool.Native.Compression
import AionPool.Native.Blake2b
import AionPool.Native.Digest210
import AionPool.Native.BitArray
import AionPool.Native.StepRow
import AionPool.Native.Equihash210
import AionPool.Aion.ProofOfWork
import AionPool.Stratum1.StratumServer
import AionPool.Stratum1.Registry
import AionPool.Stratum1.Requests
