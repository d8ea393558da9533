import Stellara.Shared.Guards
import Stellara.Shared.Governance

/-!
# The academy-rewards contract (`contracts/academy-rewards/src/lib.rs`)

A user holds at most one badge, which gives a discount for each transaction it is redeemed
for.  Every redemption is recorded in the user's history under the badge's count of
redemptions so far, and counts as one unit of activity for the circuit breaker.

`initialize` writes the administrator's role into the older `roles` map; the circuit breaker
asks the ACL, which no function of this contract writes.
-/

namespace Stellara.Rewards

open Outcome

inductive ContractError
  | alreadyInitialized
  | notInitialized
  | unauthorized
  | contractPaused
  | invalidDiscount
  | badgeTypeNotFound
  | badgeTypeDisabled
  | userAlreadyHasBadge
  | userHasNoBadge
  | badgeNotActive
  | badgeExpired
  | redemptionLimitReached
  | transactionAlreadyRedeemed
deriving DecidableEq, Repr

structure Badge where
  badgeType : Nat
  discountBps : Nat
  earnedAt : Nat
  redeemedCount : Nat
  /-- 0 stands for no limit -/
  maxRedemptions : Nat
  /-- 0 stands for never -/
  expiry : Nat
  active : Bool
deriving DecidableEq, Repr

structure BadgeMetadata where
  name : String
  discountBps : Nat
  maxRedemptions : Nat
  validityDuration : Nat
  enabled : Bool
deriving DecidableEq, Repr

structure RedemptionRecord where
  badgeType : Nat
  timestamp : Nat
  discountApplied : Nat
  transactionHash : String
deriving DecidableEq, Repr

structure State where
  admin : Option Address := none
  /-- `roles` -/
  roles : Store Address Governance.GovernanceRole := ∅
  acl : Acl.State := {}
  cb : CircuitBreaker.State := {}
  badges : Store Address Badge := ∅
  badgeMetadata : Store Nat BadgeMetadata := ∅
  redemptionHistory : Store (Address × Nat) RedemptionRecord := ∅
  totalBadgesMinted : Store Nat Nat := ∅
  usedTransactionHash : Store String Bool := ∅

abbrev Result (α : Type) : Type := Except (Fault ContractError) α

/-- `initialize`. -/
def initContract (env : Env) (s : State) (admin : Address) (cbConfig : CircuitBreaker.Config) :
    Result State := do
  require (s.admin = none) (.err .alreadyInitialized)
  env.requireAuth admin
  pure { s with admin := some admin
                roles := AList.insert admin .admin ∅
                cb := CircuitBreaker.init env s.cb cbConfig }

def requireAdmin (env : Env) (s : State) (admin : Address) : Result Unit := do
  env.requireAuth admin
  let storedAdmin ← ofOption s.admin (.err .notInitialized)
  require (admin = storedAdmin) (.err .unauthorized)

def createBadgeType (env : Env) (s : State) (admin : Address) (badgeType : Nat) (name : String)
    (discountBps maxRedemptions validityDuration : Nat) : Result State := do
  requireAdmin env s admin
  require (discountBps ≤ 10000) (.err .invalidDiscount)
  pure { s with
    badgeMetadata := s.badgeMetadata.insert badgeType
      ⟨name, discountBps, maxRedemptions, validityDuration, true⟩
    totalBadgesMinted := s.totalBadgesMinted.insert badgeType 0 }

/-- When a badge awarded now expires. -/
def expiryOf (env : Env) (metadata : BadgeMetadata) : Result Nat :=
  if 0 < metadata.validityDuration then env.u64 (env.timestamp + metadata.validityDuration)
  else .ok 0

def mintBadge (env : Env) (s : State) (admin recipient : Address) (badgeType : Nat) :
    Result State := do
  requireAdmin env s admin
  CircuitBreaker.requireNotPaused s.cb "mint_b"
  let metadata ← ofOption (s.badgeMetadata.lookup badgeType) (.err .badgeTypeNotFound)
  require (metadata.enabled = true) (.err .badgeTypeDisabled)
  require (∀ existing, s.badges.lookup recipient = some existing →
    ¬ (existing.badgeType = badgeType ∧ existing.active = true)) (.err .userAlreadyHasBadge)
  let expiry ← expiryOf env metadata
  let badge : Badge :=
    { badgeType, discountBps := metadata.discountBps, earnedAt := env.timestamp, redeemedCount := 0,
      maxRedemptions := metadata.maxRedemptions, expiry, active := true }
  let count := (s.totalBadgesMinted.lookup badgeType).getD 0 + 1
  pure { s with badges := s.badges.insert recipient badge
                totalBadgesMinted := s.totalBadgesMinted.insert badgeType count }

def revokeBadge (env : Env) (s : State) (admin user : Address) : Result State := do
  requireAdmin env s admin
  let badge ← ofOption (s.badges.lookup user) (.err .userHasNoBadge)
  pure { s with badges := s.badges.insert user { badge with active := false } }

/-- The three administrative calls of the circuit breaker; both the contract and the breaker
check the caller. -/
def breakerCall (env : Env) (s : State) (admin : Address)
    (f : CircuitBreaker.State → CircuitBreaker.State) : Result State := do
  requireAdmin env s admin
  env.requireAuth admin
  Governance.requireRole s.acl admin .admin
  pure { s with cb := f s.cb }

def setCbPauseLevel (env : Env) (s : State) (admin : Address) (level : CircuitBreaker.PauseLevel) :
    Result State :=
  breakerCall env s admin fun cb => CircuitBreaker.setPauseLevel cb level

def pauseCbFunction (env : Env) (s : State) (admin : Address) (funcName : Symbol) : Result State :=
  breakerCall env s admin fun cb => CircuitBreaker.pauseFunction cb funcName

def unpauseCbFunction (env : Env) (s : State) (admin : Address) (funcName : Symbol) :
    Result State :=
  breakerCall env s admin fun cb => CircuitBreaker.unpauseFunction cb funcName

/-- Returns the discount. -/
def redeemBadge (env : Env) (s : State) (user : Address) (transactionHash : String) :
    Result (Nat × State) := do
  env.requireAuth user
  CircuitBreaker.requireNotPaused s.cb "redeem_b"
  require (s.usedTransactionHash.lookup transactionHash = none) (.err .transactionAlreadyRedeemed)
  let badge ← ofOption (s.badges.lookup user) (.err .userHasNoBadge)
  require (badge.active = true) (.err .badgeNotActive)
  require (¬ (0 < badge.expiry ∧ badge.expiry < env.timestamp)) (.err .badgeExpired)
  require (¬ (0 < badge.maxRedemptions ∧ badge.maxRedemptions ≤ badge.redeemedCount))
    (.err .redemptionLimitReached)
  let record : RedemptionRecord :=
    ⟨badge.badgeType, env.timestamp, badge.discountBps, transactionHash⟩
  -- the record is stored under the count before it grows
  let redemptionHistory := s.redemptionHistory.insert (user, badge.redeemedCount) record
  let usedTransactionHash := s.usedTransactionHash.insert transactionHash true
  let badges := s.badges.insert user { badge with redeemedCount := badge.redeemedCount + 1 }
  let cb ← CircuitBreaker.trackActivity env s.cb 1
  pure (badge.discountBps, { s with redemptionHistory, usedTransactionHash, badges, cb })

def getRedemptionHistory (s : State) (user : Address) (index : Nat) : Option RedemptionRecord :=
  s.redemptionHistory.lookup (user, index)

/-! ## The contract as a machine -/

inductive Call
  | initContract (admin : Address) (cbConfig : CircuitBreaker.Config)
  | createBadgeType (admin : Address) (badgeType : Nat) (name : String)
      (discountBps maxRedemptions validityDuration : Nat)
  | mintBadge (admin recipient : Address) (badgeType : Nat)
  | revokeBadge (admin user : Address)
  | setCbPauseLevel (admin : Address) (level : CircuitBreaker.PauseLevel)
  | pauseCbFunction (admin : Address) (funcName : Symbol)
  | unpauseCbFunction (admin : Address) (funcName : Symbol)
  | redeemBadge (user : Address) (transactionHash : String)
deriving DecidableEq, Repr

inductive Reply
  | done
  | discount (bps : Nat)
deriving DecidableEq, Repr

/-- The answer of a call that returns nothing. -/
def done (x : Result State) : Result (Reply × State) := do pure (.done, ← x)

def exec (env : Env) : Call → State → Result (Reply × State)
  | .initContract admin cbConfig, s => done (initContract env s admin cbConfig)
  | .createBadgeType admin badgeType name discountBps maxRedemptions validityDuration, s =>
    done (createBadgeType env s admin badgeType name discountBps maxRedemptions validityDuration)
  | .mintBadge admin recipient badgeType, s => done (mintBadge env s admin recipient badgeType)
  | .revokeBadge admin user, s => done (revokeBadge env s admin user)
  | .setCbPauseLevel admin level, s => done (setCbPauseLevel env s admin level)
  | .pauseCbFunction admin funcName, s => done (pauseCbFunction env s admin funcName)
  | .unpauseCbFunction admin funcName, s => done (unpauseCbFunction env s admin funcName)
  | .redeemBadge user transactionHash, s => do
    let (bps, s) ← redeemBadge env s user transactionHash
    pure (.discount bps, s)

/-- Runs start with nothing stored. -/
def machine (d : Deployment) : Machine Env Call Reply (Fault ContractError) State where
  init s := s = {}
  valid env _ := env.Of d
  clock env := env.timestamp
  exec env call s := exec env call s

instance (d : Deployment) (env : Env) (call : Call) : Decidable ((machine d).valid env call) :=
  inferInstanceAs (Decidable (_ ∧ _))

abbrev Trace : Type := List (Event Env Call Reply State)

theorem done_ok {x : Result State} {r : Reply} {s' : State} :
    done x = .ok (r, s') ↔ x = .ok s' ∧ r = .done :=
  answer_eq_ok

theorem discount_ok {x : Result (Nat × State)} {r : Reply} {s' : State} :
    (do let (bps, s) ← x; pure (Reply.discount bps, s) : Result (Reply × State)) = .ok (r, s') ↔
      ∃ bps, x = .ok (bps, s') ∧ r = .discount bps :=
  answerWith_eq_ok

/-! ## What the calls do -/

section Calls

variable {env : Env} {s s' : State} {admin user : Address} {badgeType : Nat}

theorem requireAdmin_ok {u : Unit} (h : requireAdmin env s admin = .ok u) :
    s.admin = some admin := by
  simp only [requireAdmin, bind_eq_ok, ofOption_eq_ok, require_eq_ok, exists_unit_and] at h
  obtain ⟨-, stored, hstored, rfl⟩ := h
  exact hstored

theorem initContract_ok {cbConfig : CircuitBreaker.Config}
    (h : initContract env s admin cbConfig = .ok s') :
    s.admin = none ∧ s' = { s with admin := some admin, roles := AList.insert admin .admin ∅,
                                   cb := CircuitBreaker.init env s.cb cbConfig } := by
  simp only [initContract, bind_eq_ok, require_eq_ok, exists_unit_and, pure_eq_ok] at h
  obtain ⟨hnone, -, rfl⟩ := h
  exact ⟨hnone, rfl⟩

theorem createBadgeType_ok {name : String} {discountBps maxRedemptions validityDuration : Nat}
    (h : createBadgeType env s admin badgeType name discountBps maxRedemptions validityDuration =
      .ok s') :
    ∃ badgeMetadata totalBadgesMinted, s' = { s with badgeMetadata, totalBadgesMinted } := by
  simp only [createBadgeType, bind_eq_ok, require_eq_ok, exists_unit_and, pure_eq_ok] at h
  obtain ⟨-, -, rfl⟩ := h
  exact ⟨_, _, rfl⟩

theorem mintBadge_ok (h : mintBadge env s admin user badgeType = .ok s') :
    ∃ (metadata : BadgeMetadata) (badge : Badge) (totalBadgesMinted : Store Nat Nat),
      s.badgeMetadata.lookup badgeType = some metadata ∧ badge.redeemedCount = 0 ∧
      badge.maxRedemptions = metadata.maxRedemptions ∧
      s' = { s with badges := s.badges.insert user badge, totalBadgesMinted } := by
  simp only [mintBadge, bind_eq_ok, require_eq_ok, exists_unit_and, pure_eq_ok, ofOption_eq_ok] at h
  obtain ⟨-, -, metadata, hmetadata, -, -, expiry, -, rfl⟩ := h
  exact ⟨metadata, _, _, hmetadata, rfl, rfl, rfl⟩

theorem revokeBadge_ok (h : revokeBadge env s admin user = .ok s') :
    ∃ badge : Badge, s.badges.lookup user = some badge ∧
      s' = { s with badges := s.badges.insert user { badge with active := false } } := by
  simp only [revokeBadge, bind_eq_ok, exists_unit_and, pure_eq_ok, ofOption_eq_ok] at h
  obtain ⟨-, badge, hbadge, rfl⟩ := h
  exact ⟨badge, hbadge, rfl⟩

theorem breakerCall_ok {f : CircuitBreaker.State → CircuitBreaker.State}
    (h : breakerCall env s admin f = .ok s') :
    (Governance.requireRole s.acl admin .admin : Result Unit) = .ok () ∧
      s' = { s with cb := f s.cb } := by
  simp only [breakerCall, bind_eq_ok, exists_unit_and, pure_eq_ok] at h
  obtain ⟨-, -, hrole, rfl⟩ := h
  exact ⟨hrole, rfl⟩

theorem redeemBadge_ok {transactionHash : String} {bps : Nat}
    (h : redeemBadge env s user transactionHash = .ok (bps, s')) :
    ∃ (badge : Badge) (record : RedemptionRecord) (cb : CircuitBreaker.State),
      s.usedTransactionHash.lookup transactionHash = none ∧ s.badges.lookup user = some badge ∧
      ¬ (0 < badge.maxRedemptions ∧ badge.maxRedemptions ≤ badge.redeemedCount) ∧
      s' = { s with
        redemptionHistory := s.redemptionHistory.insert (user, badge.redeemedCount) record,
        usedTransactionHash := s.usedTransactionHash.insert transactionHash true,
        badges := s.badges.insert user { badge with redeemedCount := badge.redeemedCount + 1 },
        cb } := by
  simp only [redeemBadge, bind_eq_ok, require_eq_ok, exists_unit_and, pure_eq_ok, ofOption_eq_ok,
    Prod.mk.injEq] at h
  obtain ⟨-, -, hunused, badge, hbadge, -, -, hlimit, cb, -, -, rfl⟩ := h
  exact ⟨badge, _, cb, hunused, hbadge, hlimit, rfl⟩

end Calls

end Stellara.Rewards
