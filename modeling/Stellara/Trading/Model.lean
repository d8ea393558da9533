import Stellara.Shared.Guards
import Stellara.Shared.Governance
import Stellara.Trading.Market

/-!
# The trading contract (`contracts/trading/src/lib.rs`)

Around the market of `Trading.Market`: initialisation, rate limits, pausing, fees, roles
and upgrade governance.  The rate limiter is the deployed one (the test build replaces it
by a function that accepts everything).

The private-trade functions keep to storage entries of their own and read none of the
others but `init` and the roles; they are left out.
-/

namespace Stellara.Trading

open Outcome

def contractVersion : Nat := 1
def maxBatchSize : Nat := 25

structure RateLimitConfig where
  windowSecs : Nat
  userLimit : Nat
  globalLimit : Nat
  premiumUserLimit : Nat
deriving DecidableEq, Repr

structure State where
  /-- `init` -/
  initialized : Bool := false
  /-- `ver` -/
  version : Nat := 0
  /-- `rl_cfg` -/
  rateLimit : Option RateLimitConfig := none
  /-- `prem` -/
  premium : Store Address Bool := ∅
  /-- `rlu`, by trader and window -/
  userUsage : Store (Address × Nat) Nat := ∅
  /-- `rlg`, by window -/
  globalUsage : Store Nat Nat := ∅
  cb : CircuitBreaker.State := {}
  gov : Governance.State := {}
  market : Market := {}
  /-- the token contracts -/
  tokens : Tokens

/-! ## Guards -/

def requireInitialized (s : State) : Result Unit := require (s.initialized = true) (.err .notInitialized)

def requireTradeNotPaused (s : State) (funcName : Symbol) : Result Unit :=
  require (CircuitBreaker.isPaused s.cb funcName = false) (.err .contractPaused)

def u32Max : Nat := 2 ^ 32 - 1

def readRateLimitConfig (s : State) : RateLimitConfig :=
  s.rateLimit.getD ⟨1, u32Max, u32Max, u32Max⟩

def isPremiumUser (s : State) (user : Address) : Bool := (s.premium.lookup user).getD false

def getUserWindowUsage (s : State) (trader : Address) (window : Nat) : Nat :=
  (s.userUsage.lookup (trader, window)).getD 0

def getGlobalWindowUsage (s : State) (window : Nat) : Nat := (s.globalUsage.lookup window).getD 0

def checkAndConsumeTradeRateLimit (env : Env) (s : State) (trader : Address) : Result State := do
  let cfg := readRateLimitConfig s
  require (cfg.windowSecs ≠ 0 ∧ cfg.userLimit ≠ 0 ∧ cfg.globalLimit ≠ 0 ∧ cfg.premiumUserLimit ≠ 0)
    (.err .invalidRateLimitConfig)
  let window := env.timestamp / cfg.windowSecs
  let allowedUserLimit := if isPremiumUser s trader then cfg.premiumUserLimit else cfg.userLimit
  let currentUser := getUserWindowUsage s trader window
  require (currentUser < allowedUserLimit) (.err .rateLimitExceeded)
  let currentGlobal := getGlobalWindowUsage s window
  require (currentGlobal < cfg.globalLimit) (.err .globalRateLimitExceeded)
  pure { s with userUsage := s.userUsage.insert (trader, window) (currentUser + 1)
                globalUsage := s.globalUsage.insert window (currentGlobal + 1) }

def validateBatchSize (len : Nat) : Result Unit := require (len ≤ maxBatchSize) (.err .batchTooLarge)

def ensureTradeable (env : Env) (s : State) (trader : Address) : Result State := do
  requireInitialized s
  let s ← checkAndConsumeTradeRateLimit env s trader
  requireTradeNotPaused s "trade"
  pure s

/-- `collect_fee` with every error of its own mapped to `InsufficientBalance`. -/
def collectFee (s : State) (feeToken payer feeRecipient : Address) (amount : Int) : Result State := do
  let tokens ← (FeeManager.collectFee s.tokens feeToken payer feeRecipient amount).mapError
    (Fault.map fun _ => TradeError.insufficientBalance)
  pure { s with tokens }

/-! ## Trading -/

def init (env : Env) (s : State) (admin : Address) (approvers : List Address) (executor : Address)
    (cbConfig : CircuitBreaker.Config) : Result State := do
  require (s.initialized = false) (.err .unauthorized)
  let acl := Governance.initGovernanceRoles s.gov.acl admin approvers executor
  let acl := Acl.assignPermission acl Acl.roleAdmin Acl.permissionSetRate
  let acl := Acl.assignPermission acl Acl.roleAdmin Acl.permissionPremium
  let acl := Acl.assignPermission acl Acl.roleAdmin Acl.permissionPause
  let acl := Acl.assignPermission acl Acl.roleAdmin Acl.permissionUnpause
  let acl := Acl.assignPermission acl Acl.roleAdmin Acl.permissionMgrAcl
  pure { s with
    initialized := true
    version := contractVersion
    rateLimit := some ⟨60, 5, 100, 20⟩
    premium := ∅
    cb := CircuitBreaker.init env s.cb cbConfig
    gov := { s.gov with acl }
    market := { s.market with stats := {}, tradeCount := 0, orderCount := 0 } }

def trade (env : Env) (s : State) (trader : Address) (pair : Symbol) (amount price : Int)
    (isBuy : Bool) (feeToken : Address) (feeAmount : Int) (feeRecipient : Address) :
    Result (Nat × State) := do
  env.requireAuth trader
  require (0 < amount) (.err .invalidAmount)
  require (0 < price) (.err .invalidPrice)
  let s ← ensureTradeable env s trader
  let cb ← CircuitBreaker.trackActivity env s.cb amount
  let s ← collectFee { s with cb } feeToken trader feeRecipient feeAmount
  let (tradeId, market) ← recordTrade env s.market trader pair amount price isBuy
  pure (tradeId, { s with market })

def createLimitOrder (env : Env) (s : State) (trader : Address) (pair : Symbol) (isBuy : Bool)
    (price amount : Int) (tif : TimeInForce) : Result (Nat × State) := do
  env.requireAuth trader
  requireInitialized s
  let s ← checkAndConsumeTradeRateLimit env s trader
  requireTradeNotPaused s "trade"
  require (0 < amount) (.err .invalidAmount)
  require (0 < price) (.err .invalidPrice)
  let (orderId, market) ← placeOrder env s.market trader pair isBuy price amount tif
  pure (orderId, { s with market })

def cancelOrder (env : Env) (s : State) (trader : Address) (orderId : Nat) : Result State := do
  env.requireAuth trader
  requireInitialized s
  let market ← withdrawOrder s.market trader orderId
  pure { s with market }

/-- Unlike `trade`, a batch checks no price and is not counted by the circuit breaker. -/
def executeTradeBatch (env : Env) (s : State) (trader : Address) (orders : List TradeRequest)
    (feeToken : Address) (feePerTrade : Int) (feeRecipient : Address) :
    Result (List Nat × State) :=
  if orders = [] then .ok ([], s)
  else do
    validateBatchSize orders.length
    require (∀ order ∈ orders, 0 < order.amount) (.err .invalidAmount)
    let s ← ensureTradeable env s trader
    let totalFees ← env.i128 (feePerTrade * orders.length)
    let s ← collectFee s feeToken trader feeRecipient totalFees
    let (tradeIds, market) ← recordTrades env trader orders s.market
    pure (tradeIds, { s with market })

/-- `batch_trade`, and `trade_batch` under its old name. -/
def batchTrade (env : Env) (s : State) (trader : Address) (orders : List TradeRequest)
    (feeToken : Address) (feePerTrade : Int) (feeRecipient : Address) :
    Result (List Nat × State) := do
  env.requireAuth trader
  executeTradeBatch env s trader orders feeToken feePerTrade feeRecipient

/-! ## Administration -/

/-- The guards that every administrative function starts with. -/
def requireAdmin (env : Env) (s : State) (admin : Address) (permission : Symbol) : Result Unit := do
  env.requireAuth admin
  requireInitialized s
  Acl.requirePermission s.gov.acl admin permission

def setRateLimitConfig (env : Env) (s : State) (admin : Address) (cfg : RateLimitConfig) :
    Result State := do
  requireAdmin env s admin Acl.permissionSetRate
  require (cfg.windowSecs ≠ 0 ∧ cfg.userLimit ≠ 0 ∧ cfg.globalLimit ≠ 0 ∧ cfg.premiumUserLimit ≠ 0)
    (.err .invalidRateLimitConfig)
  pure { s with rateLimit := some cfg }

def setPremiumUser (env : Env) (s : State) (admin user : Address) (isPremium : Bool) :
    Result State := do
  requireAdmin env s admin Acl.permissionPremium
  pure { s with premium := s.premium.insert user isPremium }

/-- A change of the circuit breaker by an administrator with the permission. -/
def breakerCall (env : Env) (s : State) (admin : Address) (permission : Symbol)
    (f : CircuitBreaker.State → CircuitBreaker.State) : Result State := do
  requireAdmin env s admin permission
  pure { s with cb := f s.cb }

def setPauseLevel (env : Env) (s : State) (admin : Address) (level : CircuitBreaker.PauseLevel) :
    Result State :=
  breakerCall env s admin Acl.permissionPause fun cb => CircuitBreaker.setPauseLevel cb level

def pauseFunction (env : Env) (s : State) (admin : Address) (funcName : Symbol) : Result State :=
  breakerCall env s admin Acl.permissionPause fun cb => CircuitBreaker.pauseFunction cb funcName

def unpauseFunction (env : Env) (s : State) (admin : Address) (funcName : Symbol) : Result State :=
  breakerCall env s admin Acl.permissionUnpause fun cb => CircuitBreaker.unpauseFunction cb funcName

def pause (env : Env) (s : State) (admin : Address) : Result State :=
  breakerCall env s admin Acl.permissionPause fun cb => CircuitBreaker.setPauseLevel cb .full

def unpause (env : Env) (s : State) (admin : Address) : Result State :=
  breakerCall env s admin Acl.permissionUnpause fun cb => CircuitBreaker.setPauseLevel cb .none

/-- `create_role`, `assign_role`, `assign_permission`, `assign_permissions_batch` and
`set_role_parent`. -/
def aclCall (env : Env) (s : State) (admin : Address) (c : Acl.Call) : Result State := do
  requireAdmin env s admin Acl.permissionMgrAcl
  let acl ← c.exec s.gov.acl
  pure { s with gov := { s.gov with acl } }

/-! ## Governance -/

def governanceResult {α : Type} (x : Governance.Result α) : Result α :=
  x.mapError (Fault.map fun _ => TradeError.unauthorized)

def proposeUpgrade (env : Env) (s : State) (admin : Address) (newContractHash description : Symbol)
    (approvers : List Address) (approvalThreshold timelockDelay : Nat) : Result (Nat × State) := do
  env.requireAuth admin
  requireInitialized s
  let (id, gov) ← governanceResult (Governance.proposeUpgrade env s.gov admin newContractHash
    env.self description approvalThreshold approvers timelockDelay)
  pure (id, { s with gov })

/-- An operation on a proposal, signed by its actor. -/
def upgradeCall (env : Env) (s : State) (actor : Address)
    (f : Governance.State → Governance.Result Governance.State) : Result State := do
  env.requireAuth actor
  requireInitialized s
  let gov ← governanceResult (f s.gov)
  pure { s with gov }

def approveUpgrade (env : Env) (s : State) (proposalId : Nat) (approver : Address) : Result State :=
  upgradeCall env s approver fun gov => Governance.approveProposal gov proposalId approver

def executeUpgrade (env : Env) (s : State) (proposalId : Nat) (executor : Address) : Result State :=
  upgradeCall env s executor fun gov => Governance.executeProposal env gov proposalId executor

def rejectUpgrade (env : Env) (s : State) (proposalId : Nat) (rejector : Address) : Result State :=
  upgradeCall env s rejector fun gov => Governance.rejectProposal gov proposalId rejector

def cancelUpgrade (env : Env) (s : State) (proposalId : Nat) (admin : Address) : Result State :=
  upgradeCall env s admin fun gov => Governance.cancelProposal gov proposalId admin

/-! ## The contract as a machine -/

inductive Call
  | init (admin : Address) (approvers : List Address) (executor : Address)
      (cbConfig : CircuitBreaker.Config)
  | trade (trader : Address) (pair : Symbol) (amount price : Int) (isBuy : Bool)
      (feeToken : Address) (feeAmount : Int) (feeRecipient : Address)
  | batchTrade (trader : Address) (orders : List TradeRequest) (feeToken : Address)
      (feePerTrade : Int) (feeRecipient : Address)
  | createLimitOrder (trader : Address) (pair : Symbol) (isBuy : Bool) (price amount : Int)
      (tif : TimeInForce)
  | cancelOrder (trader : Address) (orderId : Nat)
  | setRateLimitConfig (admin : Address) (cfg : RateLimitConfig)
  | setPremiumUser (admin user : Address) (isPremium : Bool)
  | setPauseLevel (admin : Address) (level : CircuitBreaker.PauseLevel)
  | pauseFunction (admin : Address) (funcName : Symbol)
  | unpauseFunction (admin : Address) (funcName : Symbol)
  | pause (admin : Address)
  | unpause (admin : Address)
  | acl (admin : Address) (c : Acl.Call)
  | proposeUpgrade (admin : Address) (newContractHash description : Symbol)
      (approvers : List Address) (approvalThreshold timelockDelay : Nat)
  | approveUpgrade (proposalId : Nat) (approver : Address)
  | executeUpgrade (proposalId : Nat) (executor : Address)
  | rejectUpgrade (proposalId : Nat) (rejector : Address)
  | cancelUpgrade (proposalId : Nat) (admin : Address)
  /-- a call of a token contract that does not go through this one -/
  | token (c : TokenCall)
deriving DecidableEq, Repr

inductive Reply
  | done
  | id (n : Nat)
  | ids (ns : List Nat)
deriving DecidableEq, Repr

def done (x : Result State) : Result (Reply × State) := do pure (.done, ← x)

def replyId (x : Result (Nat × State)) : Result (Reply × State) := do
  let (n, s) ← x
  pure (.id n, s)

def exec (env : Env) : Call → State → Result (Reply × State)
  | .init admin approvers executor cbConfig, s => done (init env s admin approvers executor cbConfig)
  | .trade trader pair amount price isBuy feeToken feeAmount feeRecipient, s =>
    replyId (trade env s trader pair amount price isBuy feeToken feeAmount feeRecipient)
  | .batchTrade trader orders feeToken feePerTrade feeRecipient, s => do
    let (ns, s) ← batchTrade env s trader orders feeToken feePerTrade feeRecipient
    pure (.ids ns, s)
  | .createLimitOrder trader pair isBuy price amount tif, s =>
    replyId (createLimitOrder env s trader pair isBuy price amount tif)
  | .cancelOrder trader orderId, s => done (cancelOrder env s trader orderId)
  | .setRateLimitConfig admin cfg, s => done (setRateLimitConfig env s admin cfg)
  | .setPremiumUser admin user isPremium, s => done (setPremiumUser env s admin user isPremium)
  | .setPauseLevel admin level, s => done (setPauseLevel env s admin level)
  | .pauseFunction admin funcName, s => done (pauseFunction env s admin funcName)
  | .unpauseFunction admin funcName, s => done (unpauseFunction env s admin funcName)
  | .pause admin, s => done (pause env s admin)
  | .unpause admin, s => done (unpause env s admin)
  | .acl admin c, s => done (aclCall env s admin c)
  | .proposeUpgrade admin newContractHash description approvers approvalThreshold timelockDelay, s =>
    replyId (proposeUpgrade env s admin newContractHash description approvers approvalThreshold
      timelockDelay)
  | .approveUpgrade proposalId approver, s => done (approveUpgrade env s proposalId approver)
  | .executeUpgrade proposalId executor, s => done (executeUpgrade env s proposalId executor)
  | .rejectUpgrade proposalId rejector, s => done (rejectUpgrade env s proposalId rejector)
  | .cancelUpgrade proposalId admin, s => done (cancelUpgrade env s proposalId admin)
  | .token c, s => do pure (.done, { s with tokens := ← c.exec env s.tokens })

/-- Runs start with an undeployed market and any token balances. -/
def machine (d : Deployment) : Machine Env Call Reply (Fault TradeError) State where
  init s := s.initialized = false ∧ s.market = {}
  valid env _ := env.Of d
  clock env := env.timestamp
  exec env call s := exec env call s

/-- The calls of a run, newest first. -/
abbrev Trace : Type := List (Event Env Call Reply State)

instance (d : Deployment) (env : Env) (call : Call) : Decidable ((machine d).valid env call) :=
  inferInstanceAs (Decidable (env.Of d))

end Stellara.Trading
