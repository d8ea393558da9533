import Stellara.Host

/-!
# The identity hub (`contracts/identity-hub/src/lib.rs`)

The owner of a DID has a hub with data entries and permissions to read them.  The functions
that change a hub ask for the authorisation of the contract itself (`require_auth!`, a macro
that is not in the repository): here the contract is among the signers of such a call.  Whose
hub it is, is told by the `owner_did` stored with it.

`condition.value.to_u64()` is not in the repository either: `toU64` is the number that a symbol
stands for, if it stands for one.
-/

namespace Stellara.Identity

open Outcome

inductive IdentityHubError
  | hubNotFound
  | unauthorized
  | dataEntryNotFound
  | permissionDenied
  | invalidEncryption
  | expiredData
  | invalidPermission
  | governanceError
deriving DecidableEq, Repr

structure DataEntry where
  id : Symbol
  type : Symbol
  encryptedData : List (Fin 256)
  hash : List (Fin 256)
  createdAt : Nat
  expiresAt : Option Nat
  metadata : List (Symbol × Symbol)
deriving DecidableEq, Repr

inductive PermissionType
  | read
  | write
  | share
  | verify
deriving DecidableEq, Repr

structure Condition where
  type : Symbol
  value : Symbol
  operator : Symbol
deriving DecidableEq, Repr

structure Permission where
  id : Symbol
  granterDid : Symbol
  granteeDid : Symbol
  dataEntryId : Symbol
  permissionType : PermissionType
  conditions : List Condition
  createdAt : Nat
  expiresAt : Option Nat
  active : Bool
deriving DecidableEq, Repr

structure IdentityHub where
  id : Symbol
  ownerDid : Symbol
  dataEntries : List DataEntry
  permissions : List Permission
  createdAt : Nat
  updatedAt : Nat
deriving DecidableEq, Repr

/-- A missing map and a missing entry are the same error, so the maps start empty. -/
structure State where
  hubs : Store Symbol IdentityHub := ∅
  /-- `own_hub` -/
  ownerMap : Store Symbol Symbol := ∅
  /-- `hub_cnt`, 0 where it is missing -/
  hubCount : Nat := 0

abbrev Result (α : Type) : Type := Except (Fault IdentityHubError) α

/-- `unwrap()` on a result. -/
def unwrap {α : Type} (x : Result α) : Result α :=
  x.mapError fun _ => .panic "called unwrap on an Err value"

/-- `initialize`, which anyone may call again: the roles it writes are read by nothing, the
counter starts anew. -/
def initContract (s : State) : State := { s with hubCount := 0 }

def getHub (s : State) (hubId : Symbol) : Result IdentityHub :=
  ofOption (s.hubs.lookup hubId) (.err .hubNotFound)

def getHubByOwner (s : State) (ownerDid : Symbol) : Result Symbol :=
  ofOption (s.ownerMap.lookup ownerDid) (.err .hubNotFound)

def createHub (env : Env) (s : State) (ownerDid : Symbol) : Result (Symbol × State) := do
  env.requireAuth env.self
  let hubId := "hub-" ++ toString (s.hubCount + 1)
  require ((getHubByOwner s ownerDid).toBool = false) (.panic "Hub already exists for this DID")
  let hub : IdentityHub := ⟨hubId, ownerDid, [], [], env.timestamp, env.timestamp⟩
  pure (hubId, { hubs := s.hubs.insert hubId hub
                 ownerMap := s.ownerMap.insert ownerDid hubId
                 hubCount := s.hubCount + 1 })

def addDataEntry (env : Env) (s : State) (hubId dataType : Symbol)
    (encryptedData hash : List (Fin 256)) (expiresAt : Option Nat)
    (metadata : List (Symbol × Symbol)) : Result (Symbol × State) := do
  let hub ← unwrap (getHub s hubId)
  env.requireAuth env.self
  let entryId := "data-" ++ toString (hub.dataEntries.length + 1)
  let dataEntry : DataEntry :=
    ⟨entryId, dataType, encryptedData, hash, env.timestamp, expiresAt, metadata⟩
  let hub := { hub with dataEntries := hub.dataEntries ++ [dataEntry], updatedAt := env.timestamp }
  pure (entryId, { s with hubs := s.hubs.insert hubId hub })

def grantPermission (env : Env) (s : State) (hubId granteeDid dataEntryId : Symbol)
    (permissionType : PermissionType) (conditions : List Condition) (expiresAt : Option Nat) :
    Result (Symbol × State) := do
  let hub ← unwrap (getHub s hubId)
  env.requireAuth env.self
  require (hub.dataEntries.any (fun entry => entry.id = dataEntryId) = true)
    (.panic "Data entry not found")
  let permissionId := "perm-" ++ toString (hub.permissions.length + 1)
  let permission : Permission :=
    { id := permissionId, granterDid := hub.ownerDid, granteeDid, dataEntryId, permissionType,
      conditions, createdAt := env.timestamp, expiresAt, active := true }
  let hub := { hub with permissions := hub.permissions ++ [permission], updatedAt := env.timestamp }
  pure (permissionId, { s with hubs := s.hubs.insert hubId hub })

/-- The loop of the source deactivates the copies that its iterator hands out; the permissions
that are stored again are those that were read. -/
def revokePermission (env : Env) (s : State) (hubId _permissionId : Symbol) : Result State := do
  let hub ← unwrap (getHub s hubId)
  env.requireAuth env.self
  pure { s with hubs := s.hubs.insert hubId { hub with updatedAt := env.timestamp } }

section Reading

variable (toU64 : Symbol → Option Nat)

/-- Only conditions on the time are looked at. -/
def checkConditions (env : Env) : List Condition → Result Bool
  | [] => pure true
  | condition :: rest =>
    if condition.type = "time_lmt" then do
      let limit ← ofOption (toU64 condition.value) (.panic "called unwrap on a None value")
      if limit < env.timestamp then pure false else checkConditions env rest
    else checkConditions env rest

/-- What a permission must be about before its conditions are checked. -/
def Permission.Covers (perm : Permission) (dataEntryId requesterDid : Symbol) : Prop :=
  perm.active = true ∧ perm.granteeDid = requesterDid ∧ perm.dataEntryId = dataEntryId ∧
    perm.permissionType = .read

instance (perm : Permission) (dataEntryId requesterDid : Symbol) :
    Decidable (perm.Covers dataEntryId requesterDid) :=
  inferInstanceAs (Decidable (_ ∧ _ ∧ _ ∧ _))

/-- The `any` of the source; `expires_at` of a permission is not looked at. -/
def hasPermission (env : Env) (dataEntryId requesterDid : Symbol) :
    List Permission → Result Bool
  | [] => pure false
  | perm :: rest =>
    if perm.Covers dataEntryId requesterDid then do
      let holds ← checkConditions toU64 env perm.conditions
      if holds then pure true else hasPermission env dataEntryId requesterDid rest
    else hasPermission env dataEntryId requesterDid rest

/-- The owner needs no permission. -/
def checkAccess (env : Env) (hub : IdentityHub) (dataEntryId requesterDid : Symbol) :
    Result Unit :=
  if hub.ownerDid ≠ requesterDid then do
    let allowed ← hasPermission toU64 env dataEntryId requesterDid hub.permissions
    require (allowed = true) (.panic "Permission denied")
  else pure ()

def getDataEntry (env : Env) (s : State) (hubId dataEntryId requesterDid : Symbol) :
    Result DataEntry := do
  let hub ← unwrap (getHub s hubId)
  let dataEntry ← ofOption (hub.dataEntries.find? fun entry => entry.id = dataEntryId)
    (.panic "called unwrap on an Err value")
  require (∀ expiration, dataEntry.expiresAt = some expiration → env.timestamp ≤ expiration)
    (.panic "Data entry has expired")
  checkAccess toU64 env hub dataEntryId requesterDid
  pure dataEntry

end Reading

/-! ## The contract as a machine -/

inductive Call
  | initContract
  | createHub (ownerDid : Symbol)
  | addDataEntry (hubId dataType : Symbol) (encryptedData hash : List (Fin 256))
      (expiresAt : Option Nat) (metadata : List (Symbol × Symbol))
  | grantPermission (hubId granteeDid dataEntryId : Symbol) (permissionType : PermissionType)
      (conditions : List Condition) (expiresAt : Option Nat)
  | revokePermission (hubId permissionId : Symbol)
  | getDataEntry (hubId dataEntryId requesterDid : Symbol)
deriving DecidableEq, Repr

inductive Reply
  | done
  | id (id : Symbol)
  | entry (dataEntry : DataEntry)
deriving DecidableEq, Repr

/-- The answer of a call that returns a new id. -/
def newId (x : Result (Symbol × State)) : Result (Reply × State) := do
  let (id, s) ← x
  pure (.id id, s)

def exec (toU64 : Symbol → Option Nat) (env : Env) : Call → State → Result (Reply × State)
  | .initContract, s => pure (.done, initContract s)
  | .createHub ownerDid, s => newId (createHub env s ownerDid)
  | .addDataEntry hubId dataType encryptedData hash expiresAt metadata, s =>
    newId (addDataEntry env s hubId dataType encryptedData hash expiresAt metadata)
  | .grantPermission hubId granteeDid dataEntryId permissionType conditions expiresAt, s =>
    newId (grantPermission env s hubId granteeDid dataEntryId permissionType conditions expiresAt)
  | .revokePermission hubId permissionId, s => do
    pure (.done, ← revokePermission env s hubId permissionId)
  | .getDataEntry hubId dataEntryId requesterDid, s => do
    pure (.entry (← getDataEntry toU64 env s hubId dataEntryId requesterDid), s)

/-- The authorisation of the contract may be there or not. -/
def machine (toU64 : Symbol → Option Nat) (d : Deployment) :
    Machine Env Call Reply (Fault IdentityHubError) State where
  init s := s = {}
  valid env _ := env.toDeployment = d
  clock env := env.timestamp
  exec env call s := exec toU64 env call s

instance (toU64 : Symbol → Option Nat) (d : Deployment) (env : Env) (call : Call) :
    Decidable ((machine toU64 d).valid env call) :=
  inferInstanceAs (Decidable (env.toDeployment = d))

abbrev Trace : Type := List (Event Env Call Reply State)

end Stellara.Identity
