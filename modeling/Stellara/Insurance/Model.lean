import Stellara.Host

/-!
# Parametric insurance (`contracts/parametric_insurance`)

Providers deposit into one pool.  A policy reserves its coverage there against a premium,
and is paid, cancelled or expired once; each of the three releases the reservation.

`check_trigger` asks the oracles through `shared::oracle::fetch_aggregate_price`, which is
not part of the repository: every call of `checkTrigger` brings its own answer.
-/

namespace Stellara.Insurance

open Outcome

inductive InsuranceError
  | unauthorized
  | contractPaused
  | notInitialized
  | alreadyInitialized
  | policyNotFound
  | policyNotActive
  | policyExpired
  | triggerNotMet
  | alreadyClaimed
  | policyAlreadyCancelled
  | insufficientPoolLiquidity
  | insufficientLPBalance
  | withdrawalExceedsAvailable
  | invalidAmount
  | invalidDuration
  | coverageExceedsAvailable
  | oracleFailure
deriving DecidableEq, Repr

inductive PolicyType
  | weather
  | flightDelay
  | naturalDisaster
  | crop
  | custom
deriving DecidableEq, Repr

inductive TriggerCondition
  | greaterThan
  | lessThan
  | greaterOrEqual
  | lessOrEqual
  | equalTo
deriving DecidableEq, Repr

inductive PolicyStatus
  | active
  | expired
  | claimed
  | cancelled
deriving DecidableEq, Repr

structure InsurancePolicy where
  id : Nat
  policyholder : Address
  policyType : PolicyType
  coverageAmount : Int
  premiumAmount : Int
  oracleFeed : Symbol
  triggerThreshold : Int
  triggerCondition : TriggerCondition
  startTime : Nat
  endTime : Nat
  status : PolicyStatus
  createdAt : Nat
deriving DecidableEq, Repr

structure RiskPool where
  totalLiquidity : Int := 0
  reservedLiquidity : Int := 0
  totalPremiumsCollected : Int := 0
  totalPayouts : Int := 0
  totalPolicies : Nat := 0
  activePolicies : Nat := 0
deriving DecidableEq, Repr

structure OracleConfig where
  sources : List Address
  maxStaleness : Nat
  minSources : Nat
deriving DecidableEq, Repr

structure State where
  /-- `Init` -/
  initialized : Bool := false
  admin : Option Address := none
  paused : Bool := false
  poolToken : Option Address := none
  oracleConfig : Option OracleConfig := none
  policyCounter : Nat := 0
  pool : RiskPool := {}
  policies : Store Nat InsurancePolicy := ∅
  /-- `LiquidityProvider` -/
  lpBalances : Store Address Int := ∅
  policyIdsByHolder : Store Address (List Nat) := ∅
  /-- the token contracts -/
  tokens : Tokens

abbrev Result (α : Type) : Type := Except (Fault InsuranceError) α

/-- `fetch_aggregate_price(env, sources, feed, max_staleness, min_sources)`: the median
price, or nothing for an error. -/
abbrev Fetch : Type := List Address → Symbol → Nat → Nat → Option Int

def RiskPool.availableLiquidity (pool : RiskPool) : Int :=
  saturatingSub pool.totalLiquidity pool.reservedLiquidity

/-! ## Storage -/

def getPolicy (s : State) (policyId : Nat) : Option InsurancePolicy := s.policies.lookup policyId

def getLpBalance (s : State) (provider : Address) : Int := (s.lpBalances.lookup provider).getD 0

def getPolicyIdsByHolder (s : State) (holder : Address) : List Nat :=
  (s.policyIdsByHolder.lookup holder).getD []

def addPolicyToHolderIndex (s : State) (holder : Address) (policyId : Nat) : State :=
  let ids := getPolicyIdsByHolder s holder
  if policyId ∈ ids then s
  else { s with policyIdsByHolder := s.policyIdsByHolder.insert holder (ids ++ [policyId]) }

def setPolicy (s : State) (policy : InsurancePolicy) : State :=
  addPolicyToHolderIndex { s with policies := s.policies.insert policy.id policy }
    policy.policyholder policy.id

def getPoliciesByHolder (s : State) (holder : Address) : List InsurancePolicy :=
  (getPolicyIdsByHolder s holder).filterMap (getPolicy s)

/-! ## Guards -/

def requireInitialized (s : State) : Result Unit :=
  require (s.initialized = true) (.err .notInitialized)

def requireNotPaused (s : State) : Result Unit := require (s.paused = false) (.err .contractPaused)

def requireAdminAuth (env : Env) (s : State) (admin : Address) : Result Unit := do
  requireInitialized s
  require (s.admin = some admin) (.err .unauthorized)
  env.requireAuth admin

/-! ## Administration -/

def init (env : Env) (s : State) (admin poolToken : Address) (oracleSources : List Address)
    (maxStaleness minOracleSources : Nat) : Result State := do
  require (s.initialized = false) (.err .alreadyInitialized)
  env.requireAuth admin
  pure { s with
    admin := some admin
    poolToken := some poolToken
    oracleConfig := some ⟨oracleSources, maxStaleness, minOracleSources⟩
    pool := {}
    initialized := true }

def updateOracleConfig (env : Env) (s : State) (admin : Address) (oracleSources : List Address)
    (maxStaleness minOracleSources : Nat) : Result State := do
  requireAdminAuth env s admin
  pure { s with oracleConfig := some ⟨oracleSources, maxStaleness, minOracleSources⟩ }

def pause (env : Env) (s : State) (admin : Address) : Result State := do
  requireAdminAuth env s admin
  pure { s with paused := true }

def unpause (env : Env) (s : State) (admin : Address) : Result State := do
  requireAdminAuth env s admin
  pure { s with paused := false }

/-! ## The pool -/

def depositLiquidity (env : Env) (s : State) (provider : Address) (amount : Int) :
    Result State := do
  requireNotPaused s
  requireInitialized s
  require (0 < amount) (.err .invalidAmount)
  env.requireAuth provider
  let poolToken ← ofOption s.poolToken (.err .notInitialized)
  let tokens ← s.tokens.transfer poolToken provider env.self amount
  let balance ← env.i128 (getLpBalance s provider + amount)
  let totalLiquidity ← env.i128 (s.pool.totalLiquidity + amount)
  pure { s with tokens
                lpBalances := s.lpBalances.insert provider balance
                pool := { s.pool with totalLiquidity } }

def withdrawLiquidity (env : Env) (s : State) (provider : Address) (amount : Int) :
    Result State := do
  requireNotPaused s
  requireInitialized s
  require (0 < amount) (.err .invalidAmount)
  env.requireAuth provider
  let lpBalance := getLpBalance s provider
  require (amount ≤ lpBalance) (.err .insufficientLPBalance)
  require (amount ≤ s.pool.availableLiquidity) (.err .withdrawalExceedsAvailable)
  let poolToken ← ofOption s.poolToken (.err .notInitialized)
  let tokens ← s.tokens.transfer poolToken env.self provider amount
  let balance ← env.i128 (lpBalance - amount)
  let totalLiquidity ← env.i128 (s.pool.totalLiquidity - amount)
  pure { s with tokens
                lpBalances := s.lpBalances.insert provider balance
                pool := { s.pool with totalLiquidity } }

/-! ## Policies -/

/-- What the policyholder asks for. -/
structure PolicyTerms where
  policyType : PolicyType
  oracleFeed : Symbol
  triggerThreshold : Int
  triggerCondition : TriggerCondition
  coverageAmount : Int
  premiumAmount : Int
  durationSecs : Nat
deriving DecidableEq, Repr

/-- The policy record of `create_policy`. -/
def newPolicy (env : Env) (policyId : Nat) (policyholder : Address) (terms : PolicyTerms)
    (endTime : Nat) : InsurancePolicy :=
  { id := policyId, policyholder, policyType := terms.policyType
    coverageAmount := terms.coverageAmount, premiumAmount := terms.premiumAmount
    oracleFeed := terms.oracleFeed, triggerThreshold := terms.triggerThreshold
    triggerCondition := terms.triggerCondition, startTime := env.timestamp, endTime
    status := .active, createdAt := env.timestamp }

def createPolicy (env : Env) (s : State) (policyholder : Address) (terms : PolicyTerms) :
    Result (Nat × State) := do
  requireNotPaused s
  requireInitialized s
  require (0 < terms.coverageAmount ∧ 0 < terms.premiumAmount) (.err .invalidAmount)
  require (terms.durationSecs ≠ 0) (.err .invalidDuration)
  env.requireAuth policyholder
  require (terms.coverageAmount ≤ s.pool.availableLiquidity) (.err .insufficientPoolLiquidity)
  let poolToken ← ofOption s.poolToken (.err .notInitialized)
  let tokens ← s.tokens.transfer poolToken policyholder env.self terms.premiumAmount
  let policyId := s.policyCounter + 1
  let endTime ← env.u64 (env.timestamp + terms.durationSecs)
  let totalLiquidity ← env.i128 (s.pool.totalLiquidity + terms.premiumAmount)
  let reservedLiquidity ← env.i128 (s.pool.reservedLiquidity + terms.coverageAmount)
  let totalPremiumsCollected ← env.i128 (s.pool.totalPremiumsCollected + terms.premiumAmount)
  let s := { s with tokens, policyCounter := policyId }
  let s := setPolicy s (newPolicy env policyId policyholder terms endTime)
  pure (policyId, { s with pool :=
    { s.pool with totalLiquidity, reservedLiquidity, totalPremiumsCollected
                  totalPolicies := s.pool.totalPolicies + 1
                  activePolicies := s.pool.activePolicies + 1 } })

/-- The reservation of a policy is released and the policy stored with its final status. -/
def release (s : State) (policy : InsurancePolicy) (status : PolicyStatus) : State :=
  setPolicy { s with pool :=
    { s.pool with
      reservedLiquidity := saturatingSub s.pool.reservedLiquidity policy.coverageAmount
      activePolicies := s.pool.activePolicies - 1 } } { policy with status }

/-- The code that a policy in another state than `Active` cannot be cancelled with. -/
def PolicyStatus.requireCancellable : PolicyStatus → Result Unit
  | .active => .ok ()
  | .cancelled => .error (.err .policyAlreadyCancelled)
  | .claimed => .error (.err .alreadyClaimed)
  | .expired => .error (.err .policyExpired)

def cancelPolicy (env : Env) (s : State) (policyholder : Address) (policyId : Nat) :
    Result State := do
  requireNotPaused s
  env.requireAuth policyholder
  let policy ← ofOption (getPolicy s policyId) (.err .policyNotFound)
  require (policy.policyholder = policyholder) (.err .unauthorized)
  policy.status.requireCancellable
  pure (release s policy .cancelled)

def doExpirePolicy (s : State) (policy : InsurancePolicy) : State := release s policy .expired

/-- The comparison of the oracle's value with the threshold. -/
def TriggerCondition.met (value threshold : Int) : TriggerCondition → Bool
  | .greaterThan => threshold < value
  | .lessThan => value < threshold
  | .greaterOrEqual => threshold ≤ value
  | .lessOrEqual => value ≤ threshold
  | .equalTo => value = threshold

/-- The payout of a triggered policy. -/
def payPolicy (env : Env) (s : State) (policy : InsurancePolicy) : Result State := do
  let poolToken ← ofOption s.poolToken (.err .notInitialized)
  let tokens ← s.tokens.transfer poolToken env.self policy.policyholder policy.coverageAmount
  let totalPayouts ← env.i128 (s.pool.totalPayouts + policy.coverageAmount)
  pure (release { s with tokens, pool := { s.pool with
    totalLiquidity := saturatingSub s.pool.totalLiquidity policy.coverageAmount
    totalPayouts } } policy .claimed)

/-- After the end of the window the source first expires the policy and then returns
`PolicyExpired`, with which the host drops what was written. -/
def checkTrigger (env : Env) (s : State) (fetch : Fetch) (policyId : Nat) :
    Result (Bool × State) := do
  requireInitialized s
  let policy ← ofOption (getPolicy s policyId) (.err .policyNotFound)
  require (policy.status = .active) (.err .policyNotActive)
  require (env.timestamp ≤ policy.endTime) (.err .policyExpired)
  let oracleConfig ← ofOption s.oracleConfig (.err .notInitialized)
  let oracleValue ← ofOption (fetch oracleConfig.sources policy.oracleFeed
    oracleConfig.maxStaleness oracleConfig.minSources) (.err .oracleFailure)
  if policy.triggerCondition.met oracleValue policy.triggerThreshold then do
    let s ← payPolicy env s policy
    pure (true, s)
  else pure (false, s)

def expirePolicy (env : Env) (s : State) (policyId : Nat) : Result State := do
  requireInitialized s
  let policy ← ofOption (getPolicy s policyId) (.err .policyNotFound)
  require (policy.status = .active) (.err .policyNotActive)
  require (policy.endTime < env.timestamp) (.err .policyNotActive)
  pure (doExpirePolicy s policy)

/-! ## The contract as a machine -/

inductive Call
  | init (admin poolToken : Address) (oracleSources : List Address)
      (maxStaleness minOracleSources : Nat)
  | updateOracleConfig (admin : Address) (oracleSources : List Address)
      (maxStaleness minOracleSources : Nat)
  | pause (admin : Address)
  | unpause (admin : Address)
  | depositLiquidity (provider : Address) (amount : Int)
  | withdrawLiquidity (provider : Address) (amount : Int)
  | createPolicy (policyholder : Address) (terms : PolicyTerms)
  | cancelPolicy (policyholder : Address) (policyId : Nat)
  /-- `fetch` is what the oracles answer in this call -/
  | checkTrigger (fetch : Fetch) (policyId : Nat)
  | expirePolicy (policyId : Nat)
  /-- a call of a token contract that does not go through this one -/
  | token (c : TokenCall)

inductive Reply
  | done
  | id (n : Nat)
  | triggered (b : Bool)
deriving DecidableEq, Repr

def done (x : Result State) : Result (Reply × State) := do pure (.done, ← x)

def exec (env : Env) : Call → State → Result (Reply × State)
  | .init admin poolToken oracleSources maxStaleness minOracleSources, s =>
    done (init env s admin poolToken oracleSources maxStaleness minOracleSources)
  | .updateOracleConfig admin oracleSources maxStaleness minOracleSources, s =>
    done (updateOracleConfig env s admin oracleSources maxStaleness minOracleSources)
  | .pause admin, s => done (pause env s admin)
  | .unpause admin, s => done (unpause env s admin)
  | .depositLiquidity provider amount, s => done (depositLiquidity env s provider amount)
  | .withdrawLiquidity provider amount, s => done (withdrawLiquidity env s provider amount)
  | .createPolicy policyholder terms, s => do
    let (policyId, s) ← createPolicy env s policyholder terms
    pure (.id policyId, s)
  | .cancelPolicy policyholder policyId, s => done (cancelPolicy env s policyholder policyId)
  | .checkTrigger fetch policyId, s => do
    let (b, s) ← checkTrigger env s fetch policyId
    pure (.triggered b, s)
  | .expirePolicy policyId, s => done (expirePolicy env s policyId)
  | .token c, s => done (do pure { s with tokens := ← c.exec env s.tokens })

/-- Runs start before `init`, with any token balances. -/
def machine (d : Deployment) : Machine Env Call Reply (Fault InsuranceError) State where
  init s := ∃ tokens, s = { tokens }
  valid env _ := env.Of d
  clock env := env.timestamp
  exec env call s := exec env call s

/-- The calls of a run, newest first. -/
abbrev Trace : Type := List (Event Env Call Reply State)

instance (d : Deployment) (env : Env) (call : Call) : Decidable ((machine d).valid env call) :=
  inferInstanceAs (Decidable (env.Of d))

end Stellara.Insurance
