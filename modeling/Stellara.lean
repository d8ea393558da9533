import Stellara.Lib.Outcome
import Stellara.Lib.Checked
import Stellara.Lib.Store
import Stellara.Lib.Ledger
import Stellara.Lib.Machine
import Stellara.Lib.Loop
import Stellara.Lib.Quotes
import Stellara.Lib.Ranges
import Stellara.Lib.Rollback
import Stellara.Lib.Ancestry
import Stellara.Lib.Encoding
import Stellara.Lib.Json
import Stellara.Lib.JavaScript
import Stellara.Lib.HashChain
import Stellara.Lib.RangeMeter
import Stellara.Lib.Async
import Stellara.Lib.Asking
import Stellara.Lib.Protocol
import Stellara.Lib.Isolation
import Stellara.Host
import Stellara.Shared.Acl
import Stellara.Shared.Hierarchy
import Stellara.Shared.Guards
import Stellara.Shared.GovernanceSafety
import Stellara.Shared.Terminal
import Stellara.Shared.Passing
import Stellara.Shared.Nonces
import Stellara.Insurance.PoolSafety
import Stellara.Insurance.Expiry
import Stellara.Insurance.Pause
import Stellara.Amm.Solvency
import Stellara.Amm.Conservation
import Stellara.Amm.Canonical
import Stellara.Amm.FeeAttribution
import Stellara.Amm.Volatility
import Stellara.Amm.RoundTrip
import Stellara.Amm.Exit
import Stellara.Staking.Solvency
import Stellara.Staking.Claims
import Stellara.Vesting.PaidOnce
import Stellara.Vesting.Schedule
import Stellara.Router.ProofBinding
import Stellara.Router.MessageIdentity
import Stellara.Router.Withdrawal
import Stellara.Router.Administration
import Stellara.Router.DepositIdentity
import Stellara.Router.NonceOrder
import Stellara.Router.VolumeLimit
import Stellara.Router.Slashing
import Stellara.Synthetic.Liquidation
import Stellara.Synthetic.Collateral
import Stellara.Reserve.Redemptions
import Stellara.Reserve.DailyCap
import Stellara.Reserve.ProofOfReserves
import Stellara.Reserve.Rebalancing
import Stellara.Rewards.History
import Stellara.Rewards.Recovery
import Stellara.Did.Documents
import Stellara.Identity.Access
import Stellara.Tcr.Interference
import Stellara.Tcr.Votes
import Stellara.Token.Supply
import Stellara.Token.Allowances
import Stellara.Mining.Isolation
import Stellara.Mining.Budget
import Stellara.Mining.Locking
import Stellara.Messaging.Counters
import Stellara.Messaging.SameLedger
import Stellara.Trading.BookSafety
import Stellara.Trading.Fills
import Stellara.Trading.Breaker
import Stellara.Trading.Agreement
import Stellara.Trading.Volume
import Stellara.Trading.Limits
import Stellara.Trading.Priority
import Stellara.Trading.FillOrKill
import Stellara.Workflow.Resume
import Stellara.Workflow.Compensation
import Stellara.Workflow.Timeouts
import Stellara.Workflow.Attempts
import Stellara.Workflow.Order
import Stellara.Workflow.Limits
import Stellara.Workflow.Duplicates
import Stellara.Workflow.Keys
import Stellara.Workflow.Inputs
import Stellara.Queue.Requeue
import Stellara.Auth.Nonces
import Stellara.Auth.Rotation
import Stellara.Auth.Wallets
import Stellara.Auth.RateLimit
import Stellara.Throttle.Guard
import Stellara.Llm.Limits
import Stellara.Llm.Cache
import Stellara.Market.Invalidation
import Stellara.Monitor.Ingestion
import Stellara.Voice.Limit
import Stellara.Voice.Updates
import Stellara.Voice.Silence
import Stellara.Voice.Isolation
import Stellara.Webhooks.Ledger
import Stellara.Webhooks.Retries
import Stellara.Audit.Tampering
import Stellara.Audit.Migration
import Stellara.Treasury.Spending
