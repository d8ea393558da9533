import Stellara.Host
import Stellara.Shared.Governance

/-!
# The stablecoin reserve (`contracts/stablecoin_reserve/src`)

The administrator records the assets of the reserve; their total is kept in a snapshot.
Large holders ask for redemptions, which an executor processes after a delay.  A request is
stored at the end of a list and returns the next number of a counter; the functions that
look a request up by its id compare the id with the time the request was made.

`shared::governance::has_role` is not in the repository: a call comes with the roles that it
finds for the caller.
-/

namespace Stellara.Reserve

open Outcome Governance

inductive ReserveError
  | unauthorized
  | insufficientReserves
  | invalidAsset
  | reserveRatioTooLow
  | rebalancingRequired
  | invalidMerkleProof
  | redemptionAmountTooSmall
  | redemptionAmountTooLarge
  | custodianError
  | reportingError
  | governanceError
deriving DecidableEq, Repr

inductive AssetType
  | usd
  | treasury
  | repo
  | corporateBond
  | etf
deriving DecidableEq, Repr

structure ReserveAsset where
  assetType : AssetType
  amount : Nat
  custodian : Address
  lastVerified : Nat
  verificationHash : String
deriving DecidableEq, Repr

structure ReserveSnapshot where
  timestamp : Nat
  totalReserves : Nat
  totalSupply : Nat
  /-- basis points -/
  reserveRatio : Nat
deriving DecidableEq, Repr

structure TargetAllocation where
  assetType : AssetType
  targetPercentage : Nat
  minPercentage : Nat
  maxPercentage : Nat
deriving DecidableEq, Repr

inductive RedemptionStatus
  | pending
  | approved
  | rejected
  | processed
deriving DecidableEq, Repr

structure RedemptionRequest where
  requester : Address
  amount : Nat
  requestTime : Nat
  status : RedemptionStatus
  processedTime : Option Nat
deriving DecidableEq, Repr

structure RedemptionQueue where
  pendingRequests : List Nat
  totalPendingAmount : Nat
  lastProcessed : Nat
deriving DecidableEq, Repr

structure RedemptionConfig where
  largeHolderThreshold : Nat
  processingDelay : Nat
  maxDailyRedemption : Nat
  emergencyPause : Bool
deriving DecidableEq, Repr

/-- What the contract stores: every key is absent until it is first written. -/
structure State where
  reserveAssets : Option (List ReserveAsset) := none
  currentSnapshot : Option ReserveSnapshot := none
  totalSupply : Option Nat := none
  rebalancingThreshold : Option Nat := none
  targetAllocations : Option (List TargetAllocation) := none
  redemptionConfig : Option RedemptionConfig := none
  redemptionRequests : Option (List RedemptionRequest) := none
  /-- `unwrap_or(0)` where it is read -/
  redemptionCounter : Nat := 0
  redemptionQueue : Option RedemptionQueue := none
deriving DecidableEq, Repr

abbrev Result (α : Type) : Type := Except (Fault ReserveError) α

/-- A call's environment: with `env.invoker()`, and the roles of that address. -/
structure CallEnv extends Env where
  invoker : Address
  roles : List GovernanceRole
deriving DecidableEq, Repr

/-- `has_role(env, env.invoker(), role)`, as the functions check it. -/
def requireRole (env : CallEnv) (role : GovernanceRole) : Result Unit :=
  require (role ∈ env.roles) (.err .unauthorized)

@[simp] theorem requireRole_eq_ok {env : CallEnv} {role : GovernanceRole} {u : Unit} :
    requireRole env role = .ok u ↔ role ∈ env.roles :=
  require_eq_ok

/-! ## `reserve_tracking.rs` -/

/-- `assets.iter().map(|asset| asset.amount).sum()` on `u128`. -/
def totalAmount (env : CallEnv) (assets : List ReserveAsset) : Result Nat :=
  assets.foldlM (fun total asset => env.u128 (total + asset.amount)) 0

def reserveRatio (env : CallEnv) (totalReserves totalSupply : Nat) : Result Nat :=
  if 0 < totalSupply then do
    let scaled ← env.u128 (totalReserves * 10000)
    pure (scaled / totalSupply)
  else pure 10000

def updateSnapshot (env : CallEnv) (s : State) : Result State := do
  let totalSupply := s.totalSupply.getD 0
  let totalReserves ← totalAmount env (s.reserveAssets.getD [])
  let ratio ← reserveRatio env totalReserves totalSupply
  pure { s with currentSnapshot := some ⟨env.timestamp, totalReserves, totalSupply, ratio⟩ }

def addAsset (env : CallEnv) (s : State) (assetType : AssetType) (amount : Nat)
    (custodian : Address) (verificationHash : String) : Result State :=
  let assets := s.reserveAssets.getD []
  let newAsset : ReserveAsset := ⟨assetType, amount, custodian, env.timestamp, verificationHash⟩
  updateSnapshot env { s with reserveAssets := some (assets ++ [newAsset]) }

def updateAsset (env : CallEnv) (s : State) (assetIndex newAmount : Nat)
    (verificationHash : String) : Result State := do
  let assets ← ofOption s.reserveAssets (.err .invalidAsset)
  let asset ← ofOption assets[assetIndex]? (.err .invalidAsset)
  let updatedAsset : ReserveAsset :=
    { asset with amount := newAmount, lastVerified := env.timestamp, verificationHash }
  updateSnapshot env { s with reserveAssets := some (assets.set assetIndex updatedAsset) }

def getTotalReserves (s : State) : Result Nat := do
  let snapshot ← ofOption s.currentSnapshot (.err .invalidAsset)
  pure snapshot.totalReserves

def updateTotalSupply (env : CallEnv) (s : State) (newSupply : Nat) : Result State :=
  updateSnapshot env { s with totalSupply := some newSupply }

/-! ## `rebalancing.rs` -/

def defaultAllocations : List TargetAllocation :=
  [⟨.usd, 4000, 3500, 4500⟩, ⟨.treasury, 3000, 2500, 3500⟩, ⟨.repo, 2000, 1500, 2500⟩,
    ⟨.corporateBond, 1000, 500, 1500⟩]

def getAssetAmountByType (env : CallEnv) (assets : List ReserveAsset) (assetType : AssetType) :
    Result Nat :=
  totalAmount env (assets.filter fun asset => asset.assetType = assetType)

/-- Some target is missed by more than the threshold; the targets are tried in order. -/
def deviates (env : CallEnv) (assets : List ReserveAsset) (totalReserves threshold : Nat) :
    List TargetAllocation → Result Bool
  | [] => pure false
  | target :: rest => do
    let currentAmount ← getAssetAmountByType env assets target.assetType
    let scaled ← env.u128 (currentAmount * 10000)
    let currentPercentage := scaled / totalReserves
    let deviation := max currentPercentage target.targetPercentage -
      min currentPercentage target.targetPercentage
    if threshold < deviation then pure true else deviates env assets totalReserves threshold rest

def checkRebalancingNeeded (env : CallEnv) (s : State) : Result Bool := do
  let assets ← ofOption s.reserveAssets (.err .invalidAsset)
  let totalReserves ← totalAmount env assets
  let threshold := s.rebalancingThreshold.getD 500
  let targets := s.targetAllocations.getD []
  if totalReserves = 0 then pure false else deviates env assets totalReserves threshold targets

/-- Only the first asset of the type is changed. -/
def updateAssetAmountByType (assetType : AssetType) (newAmount : Nat) :
    List ReserveAsset → List ReserveAsset
  | [] => []
  | asset :: rest =>
    if asset.assetType = assetType then { asset with amount := newAmount } :: rest
    else asset :: updateAssetAmountByType assetType newAmount rest

/-- The assets after every target has been set, one after another. -/
def rebalanced (env : CallEnv) (totalReserves : Nat) :
    List TargetAllocation → List ReserveAsset → Result (List ReserveAsset)
  | [], assets => pure assets
  | target :: rest, assets => do
    let currentAmount ← getAssetAmountByType env assets target.assetType
    let _ ← env.u128 (currentAmount * 10000)
    let scaled ← env.u128 (totalReserves * target.targetPercentage)
    let targetAmount := scaled / 10000
    rebalanced env totalReserves rest
      (if currentAmount ≠ targetAmount then
        updateAssetAmountByType target.assetType targetAmount assets else assets)

def executeRebalancing (env : CallEnv) (s : State) : Result State := do
  let needed ← checkRebalancingNeeded env s
  require (needed = true) (.err .rebalancingRequired)
  let assets ← ofOption s.reserveAssets (.err .invalidAsset)
  let totalReserves ← totalAmount env assets
  require (totalReserves ≠ 0) (.err .insufficientReserves)
  let assets ← rebalanced env totalReserves (s.targetAllocations.getD []) assets
  updateSnapshot env { s with reserveAssets := some assets }

/-- `initialize`, of this contract, of the tracking and of the rebalancing.  The governance
module, which is not in the repository, may refuse a second call. -/
def initContract (s : State) : State :=
  { s with reserveAssets := some [], totalSupply := some 0, rebalancingThreshold := some 500
           targetAllocations := some defaultAllocations }

/-! ## `redemption.rs` -/

/-- The stored configuration, or the default one. -/
def getRedemptionConfig (s : State) : RedemptionConfig :=
  s.redemptionConfig.getD ⟨1000000000000, 24 * 60 * 60, 10000000000000, false⟩

/-- "For now, we'll use the request time as a proxy" -/
def getRequestId (request : RedemptionRequest) : Nat := request.requestTime

/-- The first request with the id. -/
def findRequest (requests : List RedemptionRequest) (requestId : Nat) : Option RedemptionRequest :=
  requests.find? fun request => getRequestId request = requestId

def getRequestById (requests : List RedemptionRequest) (requestId : Nat) :
    Result RedemptionRequest :=
  ofOption (findRequest requests requestId) (.err .redemptionAmountTooSmall)

def storedRequests (s : State) : Result (List RedemptionRequest) :=
  ofOption s.redemptionRequests (.err .redemptionAmountTooSmall)

/-- The loop of `update_request`: the first request with the id is replaced. -/
def setRequest (requestId : Nat) (request : RedemptionRequest) :
    List RedemptionRequest → List RedemptionRequest
  | [] => []
  | req :: rest =>
    if getRequestId req = requestId then request :: rest
    else req :: setRequest requestId request rest

def updateRequest (s : State) (requestId : Nat) (request : RedemptionRequest) : Result State := do
  let requests ← storedRequests s
  pure { s with redemptionRequests := some (setRequest requestId request requests) }

/-- The start of the ledger's day. -/
def startOfDay (now : Nat) : Nat := now - now % (24 * 60 * 60)

/-- The requests made since the day began that have been processed; without a stored list
this is an error. -/
def getDailyRedemptionTotal (env : CallEnv) (s : State) : Result Nat := do
  let requests ← storedRequests s
  let counted := requests.filter fun request =>
    startOfDay env.timestamp ≤ request.requestTime ∧ request.status = .processed
  counted.foldlM (fun dailyTotal request => env.u128 (dailyTotal + request.amount)) 0

/-- The queue, empty until something has been added. -/
def RedemptionQueue.stored (s : State) : RedemptionQueue := s.redemptionQueue.getD ⟨[], 0, 0⟩

def addToQueue (env : CallEnv) (s : State) (requestId amount : Nat) : Result State := do
  let queue := RedemptionQueue.stored s
  let total ← env.u128 (queue.totalPendingAmount + amount)
  let queue := { queue with pendingRequests := queue.pendingRequests ++ [requestId]
                            totalPendingAmount := total }
  pure { s with redemptionQueue := some queue }

/-- The queue without the request; the subtraction saturates. -/
def RedemptionQueue.remove (queue : RedemptionQueue) (requestId amount now : Nat) :
    RedemptionQueue where
  pendingRequests := queue.pendingRequests.filter fun reqId => reqId ≠ requestId
  totalPendingAmount := queue.totalPendingAmount - amount
  lastProcessed := now

def removeFromQueue (env : CallEnv) (s : State) (requestId amount : Nat) : Result State := do
  let queue ← ofOption s.redemptionQueue (.err .redemptionAmountTooSmall)
  pure { s with redemptionQueue := some (queue.remove requestId amount env.timestamp) }

/-- Returns the next number of the counter. -/
def requestRedemption (env : CallEnv) (s : State) (requester : Address) (amount : Nat) :
    Result (Nat × State) := do
  let config := getRedemptionConfig s
  require (config.emergencyPause = false) (.err .redemptionAmountTooSmall)
  require (config.largeHolderThreshold ≤ amount) (.err .redemptionAmountTooSmall)
  let dailyTotal ← getDailyRedemptionTotal env s
  let wanted ← env.u128 (dailyTotal + amount)
  require (wanted ≤ config.maxDailyRedemption) (.err .redemptionAmountTooLarge)
  let totalReserves ← getTotalReserves s
  require (amount ≤ totalReserves) (.err .insufficientReserves)
  let requestId := s.redemptionCounter + 1
  let request : RedemptionRequest := ⟨requester, amount, env.timestamp, .pending, none⟩
  -- here a missing list counts as an empty one
  let requests := s.redemptionRequests.getD []
  let s := { s with redemptionCounter := requestId, redemptionRequests := some (requests ++ [request]) }
  let s ← addToQueue env s requestId amount
  pure (requestId, s)

def processRedemption (env : CallEnv) (s : State) (requestId : Nat) : Result State := do
  requireRole env .executor
  let config := getRedemptionConfig s
  let requests ← storedRequests s
  let request ← getRequestById requests requestId
  require (request.status = .pending) (.err .redemptionAmountTooSmall)
  let age ← env.u64 ((env.timestamp : Int) - request.requestTime)
  require (config.processingDelay ≤ age) (.err .redemptionAmountTooSmall)
  let totalReserves ← getTotalReserves s
  -- the request is marked as rejected first, which the error undoes
  require (request.amount ≤ totalReserves) (.err .insufficientReserves)
  let s ← updateRequest s requestId
    { request with status := .processed, processedTime := some env.timestamp }
  let s ← removeFromQueue env s requestId request.amount
  let newSupply ← env.u128 ((s.totalSupply.getD 0 : Nat) - request.amount)
  updateTotalSupply env { s with totalSupply := some newSupply } newSupply

def approveRedemption (env : CallEnv) (s : State) (requestId : Nat) : Result State := do
  requireRole env .admin
  let requests ← storedRequests s
  let request ← getRequestById requests requestId
  require (request.status = .pending) (.err .redemptionAmountTooSmall)
  updateRequest s requestId { request with status := .approved }

/-- The reason goes into the event. -/
def rejectRedemption (env : CallEnv) (s : State) (requestId : Nat) (_reason : Symbol) :
    Result State := do
  requireRole env .admin
  let requests ← storedRequests s
  let request ← getRequestById requests requestId
  require (request.status = .pending) (.err .redemptionAmountTooSmall)
  let s ← updateRequest s requestId { request with status := .rejected }
  removeFromQueue env s requestId request.amount

def getRedemptionRequest (s : State) (requestId : Nat) : Result RedemptionRequest := do
  let requests ← storedRequests s
  getRequestById requests requestId

def updateRedemptionConfig (env : CallEnv) (s : State) (config : RedemptionConfig) :
    Result State := do
  requireRole env .admin
  pure { s with redemptionConfig := some config }

/-! ## The contract as a machine -/

/-- The entry points of `lib.rs`, and the functions of `redemption.rs` that complete the life
of a request. -/
inductive Call
  | initContract
  | addReserveAsset (assetType : AssetType) (amount : Nat) (custodian : Address)
      (verificationHash : String)
  | updateReserveAsset (assetIndex newAmount : Nat) (verificationHash : String)
  | executeRebalancing
  | requestRedemption (amount : Nat)
  | processRedemption (requestId : Nat)
  | approveRedemption (requestId : Nat)
  | rejectRedemption (requestId : Nat) (reason : Symbol)
  | updateRedemptionConfig (config : RedemptionConfig)
deriving DecidableEq, Repr

inductive Reply
  | done
  | request (id : Nat)
deriving DecidableEq, Repr

/-- The answer of a call that returns nothing. -/
def done (x : Result State) : Result (Reply × State) := do pure (.done, ← x)

/-- An entry point that checks the role before it calls the module. -/
def guarded (env : CallEnv) (role : GovernanceRole) (x : Result State) :
    Result (Reply × State) := do
  requireRole env role
  done x

/-- `request_redemption` of `lib.rs`: at least one million dollars, of the caller's own. -/
def requestOwn (env : CallEnv) (s : State) (amount : Nat) : Result (Reply × State) := do
  require (1000000000000 ≤ amount) (.err .redemptionAmountTooSmall)
  let (id, s) ← requestRedemption env s env.invoker amount
  pure (.request id, s)

def exec (env : CallEnv) : Call → State → Result (Reply × State)
  | .initContract, s => pure (.done, initContract s)
  | .addReserveAsset assetType amount custodian verificationHash, s =>
    guarded env .admin (addAsset env s assetType amount custodian verificationHash)
  | .updateReserveAsset assetIndex newAmount verificationHash, s =>
    guarded env .admin (updateAsset env s assetIndex newAmount verificationHash)
  | .executeRebalancing, s => guarded env .executor (executeRebalancing env s)
  | .requestRedemption amount, s => requestOwn env s amount
  | .processRedemption requestId, s => guarded env .executor (processRedemption env s requestId)
  | .approveRedemption requestId, s => done (approveRedemption env s requestId)
  | .rejectRedemption requestId reason, s => done (rejectRedemption env s requestId reason)
  | .updateRedemptionConfig config, s => done (updateRedemptionConfig env s config)

/-- The contract, started from any of the states `init`. -/
def machineFrom (d : Deployment) (init : State → Prop) :
    Machine CallEnv Call Reply (Fault ReserveError) State where
  init := init
  valid env _ := env.Of d
  clock env := env.timestamp
  exec env call s := exec env call s

/-- Runs start with nothing stored. -/
def machine (d : Deployment) : Machine CallEnv Call Reply (Fault ReserveError) State :=
  machineFrom d fun s => s = {}

/-- Nothing is stored but an empty list of requests. -/
def Listed (s : State) : Prop := s = { redemptionRequests := some [] }

instance (d : Deployment) (init : State → Prop) (env : CallEnv) (call : Call) :
    Decidable ((machineFrom d init).valid env call) :=
  inferInstanceAs (Decidable (env.Of d))

instance (d : Deployment) (env : CallEnv) (call : Call) : Decidable ((machine d).valid env call) :=
  inferInstanceAs (Decidable (env.Of d))

abbrev Trace : Type := List (Event CallEnv Call Reply State)

/-! ## What one call can do -/

theorem done_ok {x : Result State} {r : Reply} {s' : State} :
    done x = .ok (r, s') ↔ x = .ok s' ∧ r = .done :=
  answer_eq_ok

theorem guarded_ok {env : CallEnv} {role : GovernanceRole} {x : Result State} {r : Reply}
    {s' : State} (h : guarded env role x = .ok (r, s')) : x = .ok s' ∧ r = .done := by
  simp only [guarded, bind_eq_ok, exists_unit_and] at h
  exact done_ok.mp h.2

/-- A new snapshot, and nothing else. -/
theorem updateSnapshot_ok {env : CallEnv} {s s' : State} (h : updateSnapshot env s = .ok s') :
    ∃ snapshot, s' = { s with currentSnapshot := some snapshot } := by
  simp only [updateSnapshot, bind_eq_ok, pure_eq_ok] at h
  obtain ⟨_, _, _, _, rfl⟩ := h
  exact ⟨_, rfl⟩

theorem updateAsset_ok {env : CallEnv} {s s' : State} {assetIndex newAmount : Nat}
    {verificationHash : String} (h : updateAsset env s assetIndex newAmount verificationHash = .ok s') :
    ∃ assets snapshot, s' = { s with reserveAssets := some assets, currentSnapshot := some snapshot } := by
  simp only [updateAsset, bind_eq_ok, ofOption_eq_ok] at h
  obtain ⟨_, -, _, -, hsnapshot⟩ := h
  obtain ⟨snapshot, rfl⟩ := updateSnapshot_ok hsnapshot
  exact ⟨_, snapshot, rfl⟩

theorem updateRedemptionConfig_ok {env : CallEnv} {s s' : State} {config : RedemptionConfig}
    (h : updateRedemptionConfig env s config = .ok s') :
    s' = { s with redemptionConfig := some config } := by
  simp only [updateRedemptionConfig, bind_eq_ok, exists_unit_and, pure_eq_ok] at h
  exact h.2.symm

section Redemption

variable {env : CallEnv} {s s' : State} {requestId : Nat}

/-- A request is appended under the next number, which needs a list to be there. -/
theorem requestRedemption_ok {requester : Address} {amount : Nat}
    (h : requestRedemption env s requester amount = .ok (requestId, s')) :
    ∃ requests total, s.redemptionRequests = some requests ∧ requestId = s.redemptionCounter + 1 ∧
      env.u128 (((RedemptionQueue.stored s).totalPendingAmount : Int) + amount) =
        (.ok total : Result Nat) ∧
      s' = { s with
        redemptionCounter := s.redemptionCounter + 1
        redemptionRequests := some (requests ++ [⟨requester, amount, env.timestamp, .pending, none⟩])
        redemptionQueue := some { RedemptionQueue.stored s with
          pendingRequests := (RedemptionQueue.stored s).pendingRequests ++ [s.redemptionCounter + 1]
          totalPendingAmount := total } } := by
  simp only [requestRedemption, getDailyRedemptionTotal, storedRequests, addToQueue, bind_eq_ok,
    require_eq_ok, exists_unit_and, ofOption_eq_ok, pure_eq_ok, Prod.mk.injEq] at h
  obtain ⟨-, -, _, ⟨requests, hrequests, -⟩, _, -, -, _, -, -, s1, ⟨total, htotal, rfl⟩, rfl, rfl⟩ := h
  rw [hrequests] at htotal ⊢
  exact ⟨requests, total, rfl, rfl, htotal, rfl⟩

/-- What the three decisions have in common: the first request with the id is pending and is
replaced. -/
def Decided (s : State) (requestId : Nat) (request request' : RedemptionRequest) (s' : State) :
    Prop :=
  ∃ requests, s.redemptionRequests = some requests ∧
    findRequest requests requestId = some request ∧ request.status = .pending ∧
    s'.redemptionRequests = some (setRequest requestId request' requests) ∧
    s'.redemptionCounter = s.redemptionCounter

/-- The request has left the queue. -/
def Dequeued (env : CallEnv) (s : State) (requestId amount : Nat) (s' : State) : Prop :=
  ∃ queue, s.redemptionQueue = some queue ∧
    s'.redemptionQueue = some (queue.remove requestId amount env.timestamp)

theorem processRedemption_ok (h : processRedemption env s requestId = .ok s') :
    ∃ request, Decided s requestId request
        { request with status := .processed, processedTime := some env.timestamp } s' ∧
      Dequeued env s requestId request.amount s' ∧ s'.redemptionConfig = s.redemptionConfig := by
  simp only [processRedemption, storedRequests, getRequestById, updateRequest, removeFromQueue,
    updateTotalSupply, bind_eq_ok, require_eq_ok, requireRole_eq_ok, exists_unit_and,
    ofOption_eq_ok, pure_eq_ok] at h
  obtain ⟨-, requests, hrequests, request, hfind, hpending, _, -, -, _, -, -, s1,
    ⟨requests', hrequests', rfl⟩, s2, ⟨queue, hqueue, rfl⟩, _, -, hsnapshot⟩ := h
  obtain ⟨snapshot, rfl⟩ := updateSnapshot_ok hsnapshot
  rw [hrequests] at hrequests'
  cases hrequests'
  exact ⟨request, ⟨requests, hrequests, hfind, hpending, rfl, rfl⟩, ⟨queue, hqueue, rfl⟩, rfl⟩

theorem approveRedemption_ok (h : approveRedemption env s requestId = .ok s') :
    ∃ request, Decided s requestId request { request with status := .approved } s' ∧
      s'.redemptionQueue = s.redemptionQueue ∧ s'.redemptionConfig = s.redemptionConfig := by
  simp only [approveRedemption, storedRequests, getRequestById, updateRequest, bind_eq_ok,
    require_eq_ok, requireRole_eq_ok, exists_unit_and, ofOption_eq_ok, pure_eq_ok] at h
  obtain ⟨-, requests, hrequests, request, hfind, hpending, requests', hrequests', rfl⟩ := h
  rw [hrequests] at hrequests'
  cases hrequests'
  exact ⟨request, ⟨requests, hrequests, hfind, hpending, rfl, rfl⟩, rfl, rfl⟩

theorem rejectRedemption_ok {reason : Symbol}
    (h : rejectRedemption env s requestId reason = .ok s') :
    ∃ request, Decided s requestId request { request with status := .rejected } s' ∧
      Dequeued env s requestId request.amount s' ∧ s'.redemptionConfig = s.redemptionConfig := by
  simp only [rejectRedemption, storedRequests, getRequestById, updateRequest, removeFromQueue,
    bind_eq_ok, require_eq_ok, requireRole_eq_ok, exists_unit_and, ofOption_eq_ok, pure_eq_ok] at h
  obtain ⟨-, requests, hrequests, request, hfind, hpending, s1, ⟨requests', hrequests', rfl⟩, queue,
    hqueue, rfl⟩ := h
  rw [hrequests] at hrequests'
  cases hrequests'
  exact ⟨request, ⟨requests, hrequests, hfind, hpending, rfl, rfl⟩, ⟨queue, hqueue, rfl⟩, rfl⟩

end Redemption

section Cases

variable {env : CallEnv} {call : Call} {r : Reply} {s s' : State}

/-- The call is not about redemptions and leaves them alone. -/
structure Quiet (call : Call) (s s' : State) : Prop where
  request : ∀ amount, call ≠ .requestRedemption amount
  process : ∀ id, call ≠ .processRedemption id
  approve : ∀ id, call ≠ .approveRedemption id
  reject : ∀ id reason, call ≠ .rejectRedemption id reason
  requests : s'.redemptionRequests = s.redemptionRequests
  counter : s'.redemptionCounter = s.redemptionCounter
  queue : s'.redemptionQueue = s.redemptionQueue

/-- Every committed call in five cases. -/
theorem exec_cases (h : exec env call s = .ok (r, s')) :
    Quiet call s s' ∨
    (∃ amount id, call = .requestRedemption amount ∧ r = .request id ∧
      requestRedemption env s env.invoker amount = .ok (id, s')) ∨
    (∃ id, call = .processRedemption id ∧ processRedemption env s id = .ok s') ∨
    (∃ id, call = .approveRedemption id ∧ approveRedemption env s id = .ok s') ∨
    (∃ id reason, call = .rejectRedemption id reason ∧
      rejectRedemption env s id reason = .ok s') := by
  cases call with
  | initContract =>
    simp only [exec, pure_eq_ok, Prod.mk.injEq] at h
    obtain ⟨-, rfl⟩ := h
    exact .inl ⟨by simp, by simp, by simp, by simp, rfl, rfl, rfl⟩
  | addReserveAsset assetType amount custodian verificationHash =>
    obtain ⟨snapshot, rfl⟩ := updateSnapshot_ok (guarded_ok h).1
    exact .inl ⟨by simp, by simp, by simp, by simp, rfl, rfl, rfl⟩
  | updateReserveAsset assetIndex newAmount verificationHash =>
    obtain ⟨assets, snapshot, rfl⟩ := updateAsset_ok (guarded_ok h).1
    exact .inl ⟨by simp, by simp, by simp, by simp, rfl, rfl, rfl⟩
  | executeRebalancing =>
    have h := (guarded_ok h).1
    simp only [executeRebalancing, bind_eq_ok, require_eq_ok, exists_unit_and, ofOption_eq_ok] at h
    obtain ⟨_, -, -, _, -, _, -, -, _, -, hsnapshot⟩ := h
    obtain ⟨snapshot, rfl⟩ := updateSnapshot_ok hsnapshot
    exact .inl ⟨by simp, by simp, by simp, by simp, rfl, rfl, rfl⟩
  | requestRedemption amount =>
    simp only [exec, requestOwn, bind_eq_ok, require_eq_ok, exists_unit_and, pure_eq_ok,
      Prod.mk.injEq] at h
    obtain ⟨-, ⟨id, s1⟩, hcall, rfl, rfl⟩ := h
    exact .inr (.inl ⟨amount, id, rfl, rfl, hcall⟩)
  | processRedemption id => exact .inr (.inr (.inl ⟨id, rfl, (guarded_ok h).1⟩))
  | approveRedemption id => exact .inr (.inr (.inr (.inl ⟨id, rfl, (done_ok.mp h).1⟩)))
  | rejectRedemption id reason =>
    exact .inr (.inr (.inr (.inr ⟨id, reason, rfl, (done_ok.mp h).1⟩)))
  | updateRedemptionConfig config =>
    obtain rfl := updateRedemptionConfig_ok (done_ok.mp h).1
    exact .inl ⟨by simp, by simp, by simp, by simp, rfl, rfl, rfl⟩

/-- As long as no list is stored, nothing that needs one succeeds, and none is stored. -/
theorem exec_unlisted (h : exec env call s = .ok (r, s')) (hnone : s.redemptionRequests = none) :
    s'.redemptionRequests = none ∧ ∀ id, call ≠ .processRedemption id := by
  have hmissing : ∀ requests, s.redemptionRequests ≠ some requests := by
    rw [hnone]
    exact nofun
  rcases exec_cases h with hq | ⟨amount, id, -, -, hcall⟩ | ⟨id, -, hcall⟩ | ⟨id, -, hcall⟩ |
    ⟨id, reason, -, hcall⟩
  · exact ⟨hq.requests.trans hnone, hq.process⟩
  · obtain ⟨requests, _, hsome, -⟩ := requestRedemption_ok hcall
    exact absurd hsome (hmissing requests)
  · obtain ⟨_, ⟨requests, hsome, -⟩, -⟩ := processRedemption_ok hcall
    exact absurd hsome (hmissing requests)
  · obtain ⟨_, ⟨requests, hsome, -⟩, -⟩ := approveRedemption_ok hcall
    exact absurd hsome (hmissing requests)
  · obtain ⟨_, ⟨requests, hsome, -⟩, -⟩ := rejectRedemption_ok hcall
    exact absurd hsome (hmissing requests)

end Cases

/-- **No list is ever stored** in a run of the contract: the function that would store the
first one fails without it. -/
theorem unlisted {d : Deployment} {tr : Trace} {s : State} (h : Run (machine d) tr s) :
    s.redemptionRequests = none := by
  refine h.invariant (I := fun s => s.redemptionRequests = none) ?_ ?_
  · rintro s rfl
    rfl
  · intro env call r s s' _ hnone hx
    exact (exec_unlisted hx hnone).1

/-! ## Runs to look at -/

/-- Contract 0; the caller is `invoker` and has every role. -/
def callAt (overflowChecks : Bool) (t : Nat) (invoker : Address) : CallEnv :=
  ⟨⟨⟨0, overflowChecks⟩, t, 0, []⟩, invoker, [.admin, .approver, .executor]⟩

/-- Ten million dollars are put into the reserve. -/
def funded (overflowChecks : Bool) : List (CallEnv × Call) :=
  [(callAt overflowChecks 0 9, .initContract),
    (callAt overflowChecks 0 9, .addReserveAsset .usd 10000000000000 7 "hash")]

end Stellara.Reserve
