import Stellara.Shared.Guards

/-!
# Academy vesting (`contracts/academy/src/vesting.rs`)

The administrator grants amounts that vest over time; the beneficiary claims a grant
once, alone (`claim`) or with others in one call (`batchClaim`); an unclaimed grant can
be revoked.  `batchClaim` first checks every listed grant against the stored schedules
and then pays them one by one.

`ClaimEvent`s are published one for each token transfer, so they are the payments.
-/

namespace Stellara.Vesting

open Outcome

def maxBatchClaims : Nat := 25

structure VestingSchedule where
  beneficiary : Address
  amount : Int
  startTime : Nat
  cliff : Nat
  duration : Nat
  claimed : Bool
  revoked : Bool
  revokeTime : Nat
deriving DecidableEq, Repr

structure ClaimEvent where
  grantId : Nat
  beneficiary : Address
  amount : Int
  claimedAt : Nat
deriving DecidableEq, Repr

inductive VestingError
  | unauthorized
  | notVested
  | alreadyClaimed
  | invalidSchedule
  | insufficientBalance
  | grantNotFound
  | revoked
  | invalidTimelock
  | notEnoughTimeForRevoke
  | batchTooLarge
deriving DecidableEq, Repr

structure State where
  /-- `init` -/
  initialized : Bool := false
  admin : Option Address := none
  token : Option Address := none
  gov : Option Address := none
  /-- `cnt` -/
  cnt : Nat := 0
  /-- `sched`, written by the first grant -/
  sched : Option (Store Nat VestingSchedule) := none
  cb : CircuitBreaker.State := {}
  /-- the token contracts -/
  tokens : Tokens

abbrev Result (α : Type) : Type := Except (Fault VestingError) α

def loadSchedules (s : State) : Result (Store Nat VestingSchedule) :=
  ofOption s.sched (.err .grantNotFound)

/-- Linear between the cliff and the end; the quotient is by the time after the cliff. -/
def calculateVestedAmount (env : Env) (schedule : VestingSchedule) (currentTime : Nat) :
    Result Int :=
  if currentTime < schedule.startTime then .ok 0
  else do
    let cliffEnd ← env.u64 (schedule.startTime + schedule.cliff)
    if currentTime < cliffEnd then pure 0
    else do
      let vestEnd ← env.u64 (schedule.startTime + schedule.duration)
      if vestEnd ≤ currentTime then pure schedule.amount
      else do
        let vestedDuration ← env.u64 (currentTime - cliffEnd)
        let remainingDuration ← env.u64 (schedule.duration - schedule.cliff)
        if remainingDuration = 0 then pure schedule.amount
        else do
          let scaled ← env.u128 (asU128 schedule.amount * vestedDuration)
          pure (asI128 (scaled / remainingDuration : Nat))

def claimableAmount (env : Env) (beneficiary : Address) (schedule : VestingSchedule) :
    Result Int := do
  require (schedule.beneficiary = beneficiary) (.err .unauthorized)
  require (schedule.claimed = false) (.err .alreadyClaimed)
  require (schedule.revoked = false) (.err .revoked)
  let vestedAmount ← calculateVestedAmount env schedule env.timestamp
  require (vestedAmount ≠ 0) (.err .notVested)
  pure vestedAmount

def init (env : Env) (s : State) (admin rewardToken governance : Address)
    (cbConfig : CircuitBreaker.Config) : Result State := do
  require (s.initialized = false) (.err .unauthorized)
  pure { s with initialized := true, admin := some admin, token := some rewardToken
                gov := some governance, cnt := 0, cb := CircuitBreaker.init env s.cb cbConfig }

def grantVesting (env : Env) (s : State) (admin beneficiary : Address) (amount : Int)
    (startTime cliff duration : Nat) : Result (Nat × State) := do
  env.requireAuth admin
  CircuitBreaker.requireNotPaused s.cb "grant"
  let storedAdmin ← ofOption s.admin (.err .unauthorized)
  require (admin = storedAdmin) (.err .unauthorized)
  require (0 < amount) (.err .invalidSchedule)
  require (cliff ≤ duration) (.err .invalidSchedule)
  let nextId := s.cnt + 1
  let schedule : VestingSchedule :=
    ⟨beneficiary, amount, startTime, cliff, duration, false, false, 0⟩
  pure (nextId, { s with sched := some ((s.sched.getD ∅).insert nextId schedule), cnt := nextId })

/-- The stored grant after it was paid. -/
def VestingSchedule.markClaimed (schedule : VestingSchedule) : VestingSchedule :=
  { schedule with claimed := true }

def claim (env : Env) (s : State) (grantId : Nat) (beneficiary : Address) :
    Result (ClaimEvent × State) := do
  env.requireAuth beneficiary
  let schedules ← loadSchedules s
  let schedule ← ofOption (schedules.lookup grantId) (.err .grantNotFound)
  let vestedAmount ← claimableAmount env beneficiary schedule
  let token ← ofOption s.token (.err .unauthorized)
  require (vestedAmount ≤ s.tokens.balance token env.self) (.err .insufficientBalance)
  let tokens ← s.tokens.transfer token env.self beneficiary vestedAmount
  pure (⟨grantId, beneficiary, vestedAmount, env.timestamp⟩,
    { s with sched := some (schedules.insert grantId schedule.markClaimed), tokens })

/-- The first loop of `batch_claim`: every listed grant is looked up in the stored
schedules, which the loop does not change. -/
def checkClaims (env : Env) (schedules : Store Nat VestingSchedule) (beneficiary : Address)
    (totalClaimable : Int) (updated : List (Nat × VestingSchedule × Int)) :
    List Nat → Result (Int × List (Nat × VestingSchedule × Int))
  | [] => .ok (totalClaimable, updated)
  | grantId :: grantIds => do
    let schedule ← ofOption (schedules.lookup grantId) (.err .grantNotFound)
    let claimAmount ← claimableAmount env beneficiary schedule
    let totalClaimable ← env.i128 (totalClaimable + claimAmount)
    checkClaims env schedules beneficiary totalClaimable
      (updated ++ [(grantId, schedule.markClaimed, claimAmount)]) grantIds

/-- The second loop of `batch_claim`: store, pay and publish. -/
def payClaims (env : Env) (token beneficiary : Address) (schedules : Store Nat VestingSchedule)
    (tokens : Tokens) (events : List ClaimEvent) :
    List (Nat × VestingSchedule × Int) →
      Result (Store Nat VestingSchedule × Tokens × List ClaimEvent)
  | [] => .ok (schedules, tokens, events)
  | (grantId, schedule, claimAmount) :: updated => do
    let tokens ← tokens.transfer token env.self beneficiary claimAmount
    payClaims env token beneficiary (schedules.insert grantId schedule) tokens
      (events ++ [⟨grantId, beneficiary, claimAmount, env.timestamp⟩]) updated

/-- Returns the total paid and the published events. -/
def batchClaim (env : Env) (s : State) (grantIds : List Nat) (beneficiary : Address) :
    Result ((Int × List ClaimEvent) × State) := do
  env.requireAuth beneficiary
  if grantIds = [] then pure ((0, []), s)
  else do
    require (grantIds.length ≤ maxBatchClaims) (.err .batchTooLarge)
    let schedules ← loadSchedules s
    let token ← ofOption s.token (.err .unauthorized)
    let (totalClaimable, updated) ← checkClaims env schedules beneficiary 0 [] grantIds
    require (totalClaimable ≤ s.tokens.balance token env.self) (.err .insufficientBalance)
    let (schedules, tokens, events) ←
      payClaims env token beneficiary schedules s.tokens [] updated
    pure ((totalClaimable, events), { s with sched := some schedules, tokens })

def revoke (env : Env) (s : State) (grantId : Nat) (admin : Address) (revokeDelay : Nat) :
    Result State := do
  env.requireAuth admin
  CircuitBreaker.requireNotPaused s.cb "revoke"
  let storedAdmin ← ofOption s.admin (.err .unauthorized)
  require (admin = storedAdmin) (.err .unauthorized)
  let schedules ← loadSchedules s
  let schedule ← ofOption (schedules.lookup grantId) (.err .grantNotFound)
  require (schedule.claimed = false) (.err .alreadyClaimed)
  require (schedule.revoked = false) (.err .revoked)
  require (3600 ≤ revokeDelay) (.err .invalidTimelock)
  let earliest ← env.u64 (schedule.startTime + revokeDelay)
  require (earliest ≤ env.timestamp) (.err .notEnoughTimeForRevoke)
  pure { s with sched := some (schedules.insert grantId
                  { schedule with revoked := true, revokeTime := env.timestamp }) }

def getVesting (s : State) (grantId : Nat) : Result VestingSchedule := do
  ofOption ((← loadSchedules s).lookup grantId) (.err .grantNotFound)

def getVestedAmount (env : Env) (s : State) (grantId : Nat) : Result Int := do
  calculateVestedAmount env (← getVesting s grantId) env.timestamp

/-! ## The contract as a machine -/

inductive Call
  | init (admin rewardToken governance : Address) (cbConfig : CircuitBreaker.Config)
  | grantVesting (admin beneficiary : Address) (amount : Int) (startTime cliff duration : Nat)
  | claim (grantId : Nat) (beneficiary : Address)
  | batchClaim (grantIds : List Nat) (beneficiary : Address)
  | revoke (grantId : Nat) (admin : Address) (revokeDelay : Nat)
  /-- a call of a token contract that does not go through this one -/
  | token (c : TokenCall)
deriving DecidableEq, Repr

inductive Reply
  | done
  | granted (grantId : Nat)
  /-- the amount returned, and the payments made -/
  | claimed (total : Int) (events : List ClaimEvent)
deriving DecidableEq, Repr

def exec (env : Env) : Call → State → Result (Reply × State)
  | .init admin rewardToken governance cbConfig, s => do
    pure (.done, ← init env s admin rewardToken governance cbConfig)
  | .grantVesting admin beneficiary amount startTime cliff duration, s => do
    let (grantId, s) ← grantVesting env s admin beneficiary amount startTime cliff duration
    pure (.granted grantId, s)
  | .claim grantId beneficiary, s => do
    let (event, s) ← claim env s grantId beneficiary
    pure (.claimed event.amount [event], s)
  | .batchClaim grantIds beneficiary, s => do
    let ((total, events), s) ← batchClaim env s grantIds beneficiary
    pure (.claimed total events, s)
  | .revoke grantId admin revokeDelay, s => do
    pure (.done, ← revoke env s grantId admin revokeDelay)
  | .token c, s => do pure (.done, { s with tokens := ← c.exec env s.tokens })

/-- The arguments are values of their Rust types. -/
def Call.Typed : Call → Prop
  | .grantVesting _ _ amount startTime cliff duration =>
    InI128 amount ∧ startTime < 2 ^ 64 ∧ cliff < 2 ^ 64 ∧ duration < 2 ^ 64
  | _ => True

instance : (call : Call) → Decidable call.Typed
  | .grantVesting _ _ amount startTime cliff duration =>
    inferInstanceAs (Decidable
      (InI128 amount ∧ startTime < 2 ^ 64 ∧ cliff < 2 ^ 64 ∧ duration < 2 ^ 64))
  | .init .. | .claim .. | .batchClaim .. | .revoke .. | .token _ =>
    inferInstanceAs (Decidable True)

/-- Runs start before `init`, with any token balances. -/
def machine (d : Deployment) : Machine Env Call Reply (Fault VestingError) State where
  init s := s.initialized = false ∧ s.admin = none ∧ s.token = none ∧ s.cnt = 0 ∧ s.sched = none
  valid env call := env.Of d ∧ call.Typed
  clock env := env.timestamp
  exec env call s := exec env call s

instance (d : Deployment) (env : Env) (call : Call) : Decidable ((machine d).valid env call) :=
  inferInstanceAs (Decidable (_ ∧ _))

end Stellara.Vesting
