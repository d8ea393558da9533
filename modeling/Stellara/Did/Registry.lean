import Stellara.Shared.Governance

/-!
# The DID registry (`contracts/did-registry/src/lib.rs`)

A DID document lists verification methods and, as its authentication, their ids.  Documents are
created by whoever has the role of an administrator in the shared ACL; they are changed by
their owner or by an administrator of the older `roles` map, until they are deactivated.

The registry never writes the ACL, and a run may start with any.  `fromUtf8Lossy` is the text
that `String::from_utf8_lossy` makes of a public key.
-/

namespace Stellara.Did

open Outcome

inductive DIDRegistryError
  | invalidDIDFormat
  | didNotFound
  | unauthorized
  | invalidVerificationMethod
  | duplicateService
  | alreadyDeactivated
  | invalidPublicKey
  | governanceError
deriving DecidableEq, Repr

structure VerificationMethod where
  id : Symbol
  type : Symbol
  controller : Symbol
  publicKey : List (Fin 256)
  createdAt : Nat
deriving DecidableEq, Repr

structure Service where
  id : Symbol
  type : Symbol
  serviceEndpoint : Symbol
  createdAt : Nat
deriving DecidableEq, Repr

structure DIDDocument where
  id : Symbol
  verificationMethods : List VerificationMethod
  authentication : List Symbol
  assertionMethod : List Symbol
  keyAgreement : List Symbol
  service : List Service
  createdAt : Nat
  updatedAt : Nat
  deactivated : Bool
  owner : Address
deriving DecidableEq, Repr

/-- A missing map and a missing entry are the same, so the maps start empty. -/
structure State where
  acl : Acl.State := {}
  /-- `roles` -/
  roles : Store Address Governance.GovernanceRole := ∅
  dids : Store Symbol DIDDocument := ∅
  /-- `did_cnt`, 0 where it is missing -/
  didCount : Nat := 0

abbrev Result (α : Type) : Type := Except (Fault DIDRegistryError) α

/-- `initialize`, which anyone may call again. -/
def initContract (s : State) (admin : Address) (approvers : List Address) (executor : Address) :
    State :=
  let roleMap : Store Address Governance.GovernanceRole := (∅ : Store _ _).insert admin .admin
  let roleMap := approvers.foldl (fun roleMap approver => roleMap.insert approver .approver) roleMap
  { s with roles := roleMap.insert executor .executor, didCount := 0 }

/-- The owner, or an administrator: `Admin` is the least of the roles. -/
def isAuthorized (s : State) (caller : Address) (document : DIDDocument) : Bool :=
  caller = document.owner || s.roles.lookup caller = some .admin

def getDidDocument (s : State) (did : Symbol) : Result DIDDocument :=
  ofOption (s.dids.lookup did) (.err .didNotFound)

/-- `get_did_document(..).unwrap()`. -/
def resolveDid (s : State) (did : Symbol) : Result DIDDocument :=
  (getDidDocument s did).mapError fun _ => .panic "called unwrap on an Err value"

/-- The loop that pushes the id of every method. -/
def authenticationOf (verificationMethods : List VerificationMethod) : List Symbol :=
  verificationMethods.foldl (fun authentication vm => authentication ++ [vm.id]) []

/-! ## Creating documents -/

/-- What both ways to create a document end with. -/
def storeNew (env : Env) (s : State) (didId : Symbol) (owner : Address)
    (verificationMethods : List VerificationMethod) (services : List Service) :
    Result (Symbol × State) := do
  require ((getDidDocument s didId).toBool = false) (.panic "DID already exists")
  let document : DIDDocument :=
    { id := didId, verificationMethods
      authentication := authenticationOf verificationMethods
      assertionMethod := [], keyAgreement := [], service := services
      createdAt := env.timestamp, updatedAt := env.timestamp, deactivated := false, owner }
  pure (didId, { s with dids := s.dids.insert didId document, didCount := s.didCount + 1 })

def createStellarDid (env : Env) (s : State) (caller stellarAddress : Address)
    (verificationMethods : List VerificationMethod) (services : List Service) :
    Result (Symbol × State) := do
  env.requireAuth caller
  Governance.requireRole s.acl caller .admin
  storeNew env s ("did:stellar:" ++ toString stellarAddress) stellarAddress verificationMethods
    services

def createKeyDid (fromUtf8Lossy : List (Fin 256) → String) (env : Env) (s : State)
    (caller : Address) (publicKey : List (Fin 256)) (owner : Address)
    (verificationMethods : List VerificationMethod) (services : List Service) :
    Result (Symbol × State) := do
  env.requireAuth caller
  Governance.requireRole s.acl caller .admin
  require (publicKey ≠ []) (.panic "Invalid public key")
  storeNew env s ("did:key:" ++ fromUtf8Lossy publicKey) owner verificationMethods services

/-! ## Changing documents -/

/-- What every change asks for first: the document that the caller may change, which must not
be deactivated. -/
def openDocument (env : Env) (s : State) (caller : Address) (did : Symbol) (closed : String) :
    Result DIDDocument := do
  env.requireAuth caller
  let document ← resolveDid s did
  require (isAuthorized s caller document = true) (.panic "Unauthorized")
  require (document.deactivated = false) (.panic closed)
  pure document

/-- The document with its methods replaced, if others are given. -/
def DIDDocument.withMethods (document : DIDDocument) :
    Option (List VerificationMethod) → DIDDocument
  | none => document
  | some newVms =>
    { document with verificationMethods := newVms, authentication := authenticationOf newVms }

def updateDidDocument (env : Env) (s : State) (caller : Address) (did : Symbol)
    (verificationMethods : Option (List VerificationMethod)) (services : Option (List Service)) :
    Result State := do
  let document ← openDocument env s caller did "DID is deactivated"
  let document := document.withMethods verificationMethods
  let document := { document with service := services.getD document.service
                                  updatedAt := env.timestamp }
  pure { s with dids := s.dids.insert did document }

def deactivateDid (env : Env) (s : State) (caller : Address) (did : Symbol) : Result State := do
  let document ← openDocument env s caller did "DID already deactivated"
  let document := { document with deactivated := true, updatedAt := env.timestamp }
  pure { s with dids := s.dids.insert did document }

def addVerificationMethod (env : Env) (s : State) (caller : Address) (did : Symbol)
    (verificationMethod : VerificationMethod) : Result State := do
  let document ← openDocument env s caller did "DID is deactivated"
  require (∀ existingVm ∈ document.verificationMethods, existingVm.id ≠ verificationMethod.id)
    (.panic "Verification method already exists")
  let document := { document with
    verificationMethods := document.verificationMethods ++ [verificationMethod]
    authentication := document.authentication ++ [verificationMethod.id]
    updatedAt := env.timestamp }
  pure { s with dids := s.dids.insert did document }

def addService (env : Env) (s : State) (caller : Address) (did : Symbol) (service : Service) :
    Result State := do
  let document ← openDocument env s caller did "DID is deactivated"
  require (∀ existingService ∈ document.service, existingService.id ≠ service.id)
    (.panic "Service already exists")
  let document := { document with service := document.service ++ [service]
                                  updatedAt := env.timestamp }
  pure { s with dids := s.dids.insert did document }

/-! ## The contract as a machine -/

inductive Call
  | initContract (admin : Address) (approvers : List Address) (executor : Address)
  | createStellarDid (caller stellarAddress : Address)
      (verificationMethods : List VerificationMethod) (services : List Service)
  | createKeyDid (caller : Address) (publicKey : List (Fin 256)) (owner : Address)
      (verificationMethods : List VerificationMethod) (services : List Service)
  | resolveDid (did : Symbol)
  | updateDidDocument (caller : Address) (did : Symbol)
      (verificationMethods : Option (List VerificationMethod)) (services : Option (List Service))
  | deactivateDid (caller : Address) (did : Symbol)
  | addVerificationMethod (caller : Address) (did : Symbol)
      (verificationMethod : VerificationMethod)
  | addService (caller : Address) (did : Symbol) (service : Service)
deriving DecidableEq, Repr

inductive Reply
  | done
  | id (did : Symbol)
  | document (document : DIDDocument)
deriving DecidableEq, Repr

/-- The answer of a call that returns the id of a new document. -/
def newId (x : Result (Symbol × State)) : Result (Reply × State) := do
  let (did, s) ← x
  pure (.id did, s)

def done (x : Result State) : Result (Reply × State) := do
  pure (.done, ← x)

def exec (fromUtf8Lossy : List (Fin 256) → String) (env : Env) :
    Call → State → Result (Reply × State)
  | .initContract admin approvers executor, s =>
    pure (.done, initContract s admin approvers executor)
  | .createStellarDid caller stellarAddress verificationMethods services, s =>
    newId (createStellarDid env s caller stellarAddress verificationMethods services)
  | .createKeyDid caller publicKey owner verificationMethods services, s =>
    newId (createKeyDid fromUtf8Lossy env s caller publicKey owner verificationMethods services)
  | .resolveDid did, s => do
    pure (.document (← resolveDid s did), s)
  | .updateDidDocument caller did verificationMethods services, s =>
    done (updateDidDocument env s caller did verificationMethods services)
  | .deactivateDid caller did, s => done (deactivateDid env s caller did)
  | .addVerificationMethod caller did verificationMethod, s =>
    done (addVerificationMethod env s caller did verificationMethod)
  | .addService caller did service, s => done (addService env s caller did service)

/-- The contract as it is deployed, with any ACL. -/
def machine (fromUtf8Lossy : List (Fin 256) → String) (d : Deployment) :
    Machine Env Call Reply (Fault DIDRegistryError) State where
  init s := s = { acl := s.acl }
  valid env _ := env.Of d
  clock env := env.timestamp
  exec env call s := exec fromUtf8Lossy env call s

instance (fromUtf8Lossy : List (Fin 256) → String) (d : Deployment) (env : Env) (call : Call) :
    Decidable ((machine fromUtf8Lossy d).valid env call) :=
  inferInstanceAs (Decidable (env.Of d))

abbrev Trace : Type := List (Event Env Call Reply State)

end Stellara.Did
