import Stellara.Shared.Guards
import Stellara.Shared.Governance

/-!
# The messaging contract (`contracts/messaging/src/lib.rs`)

Plain and encrypted messages are kept in two maps and indexed by four id lists (the inbox
and the sent folder of each kind); the ids, the unread counts and the statistics are
shared by both kinds.  The functions of the two kinds differ in the storage keys and in
the name under which they can be paused, so they are one definition over a `Channel`.

`Mailbox` is the part of the storage that messages live in.  Around it stand rate limits,
pausing, the nonce list, roles and upgrade governance.

A send uses the ledger's sequence number as its nonce, so a deployment sends at most one
message per ledger and no `u32` count of messages can run out before the `u32` sequence.
-/

namespace Stellara.Messaging

open Outcome

def contractVersion : Nat := 1
def maxMessageLength : Nat := 1024

/-- The bytes of a `String` or of `Bytes`. -/
abbrev Payload : Type := List (Fin 256)

inductive MessagingError
  | unauthorized
  | invalidPayload
  | invalidRecipient
  | messageNotFound
  | alreadyRead
  | notInitialized
  | rateLimitExceeded
  | globalRateLimitExceeded
  | invalidRateLimitConfig
deriving DecidableEq, Repr

abbrev Result (α : Type) : Type := Except (Fault MessagingError) α

/-! ## The mailbox -/

/-- The kind of a message: `Message` or `EncryptedMessage`. -/
inductive Channel
  | plain
  | encrypted
deriving DecidableEq, Repr

inductive Folder
  | inbox
  | sent
deriving DecidableEq, Repr

/-- `Message` and `EncryptedMessage`, which have the same fields. -/
structure Message where
  id : Nat
  sender : Address
  recipient : Address
  payload : Payload
  timestamp : Nat
  read : Bool
  processed : Bool
deriving DecidableEq, Repr

structure MessagingStats where
  totalMessages : Nat := 0
  unreadMessages : Nat := 0
  lastMessageId : Nat := 0
deriving DecidableEq, Repr

/-- What messages live in. -/
structure Mailbox where
  /-- `msgs` and `enc_msgs` -/
  messages : Store (Channel × Nat) Message := ∅
  /-- `inbox`, `sent`, `einbox` and `esent` -/
  index : Store (Channel × Folder × Address) (List Nat) := ∅
  /-- `unread` -/
  unread : Store Address Nat := ∅
  stats : MessagingStats := {}

def getMessage (b : Mailbox) (channel : Channel) (id : Nat) : Option Message :=
  b.messages.lookup (channel, id)

def getUserMessageIds (b : Mailbox) (channel : Channel) (folder : Folder) (user : Address) :
    List Nat :=
  (b.index.lookup (channel, folder, user)).getD []

def pushMessageId (b : Mailbox) (channel : Channel) (folder : Folder) (user : Address) (id : Nat) :
    Mailbox :=
  { b with index := b.index.insert (channel, folder, user)
             (getUserMessageIds b channel folder user ++ [id]) }

def unreadCount (b : Mailbox) (user : Address) : Nat := (b.unread.lookup user).getD 0

/-- The second half of `send_message`: the message is stored, indexed and counted. -/
def deliver (env : Env) (b : Mailbox) (channel : Channel) (sender recipient : Address)
    (payload : Payload) : Nat × Mailbox :=
  let messageId := b.stats.lastMessageId + 1
  let message : Message :=
    { id := messageId, sender, recipient, payload, timestamp := env.timestamp, read := false,
      processed := true }
  let b := { b with messages := b.messages.insert (channel, messageId) message }
  let b := pushMessageId b channel .inbox recipient messageId
  let b := pushMessageId b channel .sent sender messageId
  (messageId, { b with
    unread := b.unread.insert recipient (unreadCount b recipient + 1)
    stats := ⟨b.stats.totalMessages + 1, b.stats.unreadMessages + 1, messageId⟩ })

/-- The second half of `mark_as_read`.  Both subtractions are `saturating_sub`. -/
def markRead (b : Mailbox) (channel : Channel) (recipient : Address) (messageId : Nat)
    (message : Message) : Mailbox :=
  { b with
    messages := b.messages.insert (channel, messageId) { message with read := true }
    unread := b.unread.insert recipient (unreadCount b recipient - 1)
    stats := { b.stats with unreadMessages := b.stats.unreadMessages - 1 } }

/-- The messages of a folder, in the order of its index. -/
def folderMessages (b : Mailbox) (channel : Channel) (folder : Folder) (user : Address)
    (unreadOnly : Bool) : List Message :=
  ((getUserMessageIds b channel folder user).filterMap (getMessage b channel)).filter
    fun m => !unreadOnly || !m.read

/-! ## The contract's state -/

structure RateLimitConfig where
  windowSecs : Nat
  userLimit : Nat
  globalLimit : Nat
  premiumUserLimit : Nat
deriving DecidableEq, Repr

structure State where
  /-- `init` -/
  initialized : Bool := false
  /-- `ver` -/
  version : Nat := 0
  /-- `rl_cfg` -/
  rateLimit : Option RateLimitConfig := none
  /-- `prem` -/
  premium : Store Address Bool := ∅
  /-- `rlu`, by sender and window -/
  userUsage : Store (Address × Nat) Nat := ∅
  /-- `rlg`, by window -/
  globalUsage : Store Nat Nat := ∅
  /-- `enc_keys` -/
  encKeys : Store Address Payload := ∅
  cb : CircuitBreaker.State := {}
  gov : Governance.State := {}
  /-- `_status` -/
  active : Bool := false
  nonces : NonceManager.State := {}
  box : Mailbox := {}

/-! ## Guards -/

def requireInitialized (s : State) : Result Unit :=
  require (s.initialized = true) (.err .notInitialized)

def defaultRateLimit : RateLimitConfig := ⟨60, 5, 100, 20⟩

def readRateLimitConfig (s : State) : RateLimitConfig := s.rateLimit.getD defaultRateLimit

def isPremiumUser (s : State) (user : Address) : Bool := (s.premium.lookup user).getD false

def getUserWindowUsage (s : State) (user : Address) (window : Nat) : Nat :=
  (s.userUsage.lookup (user, window)).getD 0

def getGlobalWindowUsage (s : State) (window : Nat) : Nat := (s.globalUsage.lookup window).getD 0

/-- The counts are below their limits before they grow, so `saturating_add` is exact. -/
def checkAndConsumeMessageRateLimit (env : Env) (s : State) (sender : Address) : Result State := do
  let cfg := readRateLimitConfig s
  require (cfg.windowSecs ≠ 0 ∧ cfg.userLimit ≠ 0 ∧ cfg.globalLimit ≠ 0 ∧ cfg.premiumUserLimit ≠ 0)
    (.err .invalidRateLimitConfig)
  let window := env.timestamp / cfg.windowSecs
  let currentUser := getUserWindowUsage s sender window
  let currentGlobal := getGlobalWindowUsage s window
  let allowedUserLimit := if isPremiumUser s sender then cfg.premiumUserLimit else cfg.userLimit
  require (currentUser < allowedUserLimit) (.err .rateLimitExceeded)
  require (currentGlobal < cfg.globalLimit) (.err .globalRateLimitExceeded)
  pure { s with userUsage := s.userUsage.insert (sender, window) (currentUser + 1)
                globalUsage := s.globalUsage.insert window (currentGlobal + 1) }

/-! ## Messages -/

def init (env : Env) (s : State) (admin : Address) (approvers : List Address) (executor : Address)
    (cbConfig : CircuitBreaker.Config) : Result State := do
  require (s.initialized = false) (.err .unauthorized)
  let acl := Governance.initGovernanceRoles s.gov.acl admin approvers executor
  let acl := Acl.assignPermission acl Acl.roleAdmin Acl.permissionSetRate
  let acl := Acl.assignPermission acl Acl.roleAdmin Acl.permissionPremium
  let acl := Acl.assignPermission acl Acl.roleAdmin Acl.permissionPause
  let acl := Acl.assignPermission acl Acl.roleAdmin Acl.permissionUnpause
  let acl := Acl.assignPermission acl Acl.roleAdmin Acl.permissionMgrAcl
  pure { s with
    initialized := true
    version := contractVersion
    rateLimit := some defaultRateLimit
    premium := ∅
    nonces := NonceManager.setChainId s.nonces 0
    cb := CircuitBreaker.init env s.cb cbConfig
    gov := { s.gov with acl }
    box := { s.box with stats := {} } }

/-- The function's name in the circuit breaker. -/
def Channel.funcName : Channel → Symbol
  | .plain => "send_m"
  | .encrypted => "send_em"

/-- The body of `send_message` and of `send_encrypted_message`. -/
def send (channel : Channel) (env : Env) (s : State) (sender recipient : Address)
    (payload : Payload) : Result (Nat × State) := do
  env.requireAuth sender
  requireInitialized s
  let s ← checkAndConsumeMessageRateLimit env s sender
  CircuitBreaker.requireNotPaused s.cb channel.funcName
  let _ ← ReentrancyGuard.enter s.active
  NonceManager.enforceSequentialNonce s.nonces 0 env.sequence
  let nonces ← NonceManager.recordAndVerify s.nonces 0 env.sequence
  let cb ← CircuitBreaker.trackActivity env s.cb 1
  require (sender ≠ recipient) (.err .invalidRecipient)
  require (payload.length ≠ 0 ∧ payload.length ≤ maxMessageLength) (.err .invalidPayload)
  let (messageId, box) := deliver env s.box channel sender recipient payload
  pure (messageId, { s with nonces, cb, box, active := ReentrancyGuard.exit })

def sendMessage : Env → State → Address → Address → Payload → Result (Nat × State) := send .plain

def sendEncryptedMessage : Env → State → Address → Address → Payload → Result (Nat × State) :=
  send .encrypted

/-- The body of `mark_as_read` and of `mark_encrypted_as_read`. -/
def mark (channel : Channel) (env : Env) (s : State) (recipient : Address) (messageId : Nat) :
    Result State := do
  env.requireAuth recipient
  requireInitialized s
  let message ← ofOption (getMessage s.box channel messageId) (.err .messageNotFound)
  require (message.recipient = recipient) (.err .unauthorized)
  require (message.read = false) (.err .alreadyRead)
  let _ ← ReentrancyGuard.enter s.active
  pure { s with box := markRead s.box channel recipient messageId message
                active := ReentrancyGuard.exit }

def markAsRead : Env → State → Address → Nat → Result State := mark .plain

def markEncryptedAsRead : Env → State → Address → Nat → Result State := mark .encrypted

/-- The body of `get_messages` and of `get_encrypted_messages`. -/
def listMessages (channel : Channel) (env : Env) (s : State) (user : Address)
    (includeSent includeReceived unreadOnly : Bool) : Result (List Message) := do
  env.requireAuth user
  requireInitialized s
  let received := if includeReceived then folderMessages s.box channel .inbox user unreadOnly else []
  let sent := if includeSent then folderMessages s.box channel .sent user unreadOnly else []
  pure (received ++ sent)

def getMessages : Env → State → Address → Bool → Bool → Bool → Result (List Message) :=
  listMessages .plain

def getEncryptedMessages : Env → State → Address → Bool → Bool → Bool → Result (List Message) :=
  listMessages .encrypted

def getUnreadCount (env : Env) (s : State) (user : Address) : Result Nat := do
  env.requireAuth user
  requireInitialized s
  pure (unreadCount s.box user)

def registerEncryptionKey (env : Env) (s : State) (user : Address) (key : Payload) :
    Result State := do
  env.requireAuth user
  requireInitialized s
  pure { s with encKeys := s.encKeys.insert user key }

/-! ## Administration -/

/-- A change of the circuit breaker.  The breaker asks for the administrator's role once
more (`GovernanceManager::require_role`), and none of these calls asks for `init`. -/
def breakerCall (env : Env) (s : State) (admin : Address) (permission : Symbol)
    (f : CircuitBreaker.State → CircuitBreaker.State) : Result State := do
  env.requireAuth admin
  Acl.requirePermission s.gov.acl admin permission
  Acl.requirePermission s.gov.acl admin Acl.permissionPropose
  pure { s with cb := f s.cb }

def setCbPauseLevel (env : Env) (s : State) (admin : Address) (level : CircuitBreaker.PauseLevel) :
    Result State :=
  breakerCall env s admin Acl.permissionPause fun cb => CircuitBreaker.setPauseLevel cb level

def pauseCbFunction (env : Env) (s : State) (admin : Address) (funcName : Symbol) : Result State :=
  breakerCall env s admin Acl.permissionPause fun cb => CircuitBreaker.pauseFunction cb funcName

def unpauseCbFunction (env : Env) (s : State) (admin : Address) (funcName : Symbol) :
    Result State :=
  breakerCall env s admin Acl.permissionUnpause fun cb => CircuitBreaker.unpauseFunction cb funcName

/-- The guards of the other administrative functions. -/
def requireAdmin (env : Env) (s : State) (admin : Address) (permission : Symbol) : Result Unit := do
  env.requireAuth admin
  requireInitialized s
  Acl.requirePermission s.gov.acl admin permission

def setRateLimitConfig (env : Env) (s : State) (admin : Address) (cfg : RateLimitConfig) :
    Result State := do
  requireAdmin env s admin Acl.permissionSetRate
  require (cfg.windowSecs ≠ 0 ∧ cfg.userLimit ≠ 0 ∧ cfg.globalLimit ≠ 0 ∧ cfg.premiumUserLimit ≠ 0)
    (.err .invalidRateLimitConfig)
  pure { s with rateLimit := some cfg }

def setPremiumUser (env : Env) (s : State) (admin user : Address) (isPremium : Bool) :
    Result State := do
  requireAdmin env s admin Acl.permissionPremium
  pure { s with premium := s.premium.insert user isPremium }

/-- `create_role`, `assign_role`, `assign_permission`, `assign_permissions_batch` and
`set_role_parent`. -/
def aclCall (env : Env) (s : State) (admin : Address) (c : Acl.Call) : Result State := do
  requireAdmin env s admin Acl.permissionMgrAcl
  let acl ← c.exec s.gov.acl
  pure { s with gov := { s.gov with acl } }

/-! ## Governance -/

def governanceResult {α : Type} (x : Governance.Result α) : Result α :=
  x.mapError (Fault.map fun _ => MessagingError.unauthorized)

def proposeUpgrade (env : Env) (s : State) (admin : Address) (newContractHash description : Symbol)
    (approvers : List Address) (approvalThreshold timelockDelay : Nat) : Result (Nat × State) := do
  env.requireAuth admin
  requireInitialized s
  let (id, gov) ← governanceResult (Governance.proposeUpgrade env s.gov admin newContractHash
    env.self description approvalThreshold approvers timelockDelay)
  pure (id, { s with gov })

/-- An operation on a proposal, signed by its actor. -/
def upgradeCall (env : Env) (s : State) (actor : Address)
    (f : Governance.State → Governance.Result Governance.State) : Result State := do
  env.requireAuth actor
  requireInitialized s
  let gov ← governanceResult (f s.gov)
  pure { s with gov }

def approveUpgrade (env : Env) (s : State) (proposalId : Nat) (approver : Address) : Result State :=
  upgradeCall env s approver fun gov => Governance.approveProposal gov proposalId approver

def executeUpgrade (env : Env) (s : State) (proposalId : Nat) (executor : Address) : Result State :=
  upgradeCall env s executor fun gov => Governance.executeProposal env gov proposalId executor

def rejectUpgrade (env : Env) (s : State) (proposalId : Nat) (rejector : Address) : Result State :=
  upgradeCall env s rejector fun gov => Governance.rejectProposal gov proposalId rejector

def cancelUpgrade (env : Env) (s : State) (proposalId : Nat) (admin : Address) : Result State :=
  upgradeCall env s admin fun gov => Governance.cancelProposal gov proposalId admin

/-! ## The contract as a machine -/

inductive Call
  | init (admin : Address) (approvers : List Address) (executor : Address)
      (cbConfig : CircuitBreaker.Config)
  | sendMessage (sender recipient : Address) (payload : Payload)
  | sendEncryptedMessage (sender recipient : Address) (payload : Payload)
  | markAsRead (recipient : Address) (messageId : Nat)
  | markEncryptedAsRead (recipient : Address) (messageId : Nat)
  | registerEncryptionKey (user : Address) (key : Payload)
  | setCbPauseLevel (admin : Address) (level : CircuitBreaker.PauseLevel)
  | pauseCbFunction (admin : Address) (funcName : Symbol)
  | unpauseCbFunction (admin : Address) (funcName : Symbol)
  | setRateLimitConfig (admin : Address) (cfg : RateLimitConfig)
  | setPremiumUser (admin user : Address) (isPremium : Bool)
  | acl (admin : Address) (c : Acl.Call)
  | proposeUpgrade (admin : Address) (newContractHash description : Symbol)
      (approvers : List Address) (approvalThreshold timelockDelay : Nat)
  | approveUpgrade (proposalId : Nat) (approver : Address)
  | executeUpgrade (proposalId : Nat) (executor : Address)
  | rejectUpgrade (proposalId : Nat) (rejector : Address)
  | cancelUpgrade (proposalId : Nat) (admin : Address)
deriving DecidableEq, Repr

inductive Reply
  | done
  | id (n : Nat)
deriving DecidableEq, Repr

def done (x : Result State) : Result (Reply × State) := do pure (.done, ← x)

def replyId (x : Result (Nat × State)) : Result (Reply × State) := do
  let (n, s) ← x
  pure (.id n, s)

def exec (env : Env) : Call → State → Result (Reply × State)
  | .init admin approvers executor cbConfig, s => done (init env s admin approvers executor cbConfig)
  | .sendMessage sender recipient payload, s => replyId (sendMessage env s sender recipient payload)
  | .sendEncryptedMessage sender recipient payload, s =>
    replyId (sendEncryptedMessage env s sender recipient payload)
  | .markAsRead recipient messageId, s => done (markAsRead env s recipient messageId)
  | .markEncryptedAsRead recipient messageId, s =>
    done (markEncryptedAsRead env s recipient messageId)
  | .registerEncryptionKey user key, s => done (registerEncryptionKey env s user key)
  | .setCbPauseLevel admin level, s => done (setCbPauseLevel env s admin level)
  | .pauseCbFunction admin funcName, s => done (pauseCbFunction env s admin funcName)
  | .unpauseCbFunction admin funcName, s => done (unpauseCbFunction env s admin funcName)
  | .setRateLimitConfig admin cfg, s => done (setRateLimitConfig env s admin cfg)
  | .setPremiumUser admin user isPremium, s => done (setPremiumUser env s admin user isPremium)
  | .acl admin c, s => done (aclCall env s admin c)
  | .proposeUpgrade admin newContractHash description approvers approvalThreshold timelockDelay, s =>
    replyId (proposeUpgrade env s admin newContractHash description approvers approvalThreshold
      timelockDelay)
  | .approveUpgrade proposalId approver, s => done (approveUpgrade env s proposalId approver)
  | .executeUpgrade proposalId executor, s => done (executeUpgrade env s proposalId executor)
  | .rejectUpgrade proposalId rejector, s => done (rejectUpgrade env s proposalId rejector)
  | .cancelUpgrade proposalId admin, s => done (cancelUpgrade env s proposalId admin)

/-- Runs start with empty storage. -/
def machine (d : Deployment) : Machine Env Call Reply (Fault MessagingError) State where
  init s := s = {}
  valid env _ := env.Of d
  clock env := env.timestamp
  exec env call s := exec env call s

/-- The calls of a run, newest first. -/
abbrev Trace : Type := List (Event Env Call Reply State)

instance (d : Deployment) (env : Env) (call : Call) : Decidable ((machine d).valid env call) :=
  inferInstanceAs (Decidable (env.Of d))

/-! ## What a committed call does to the mailbox and the nonces -/

/-- The call that sends over the channel. -/
def sendCall : Channel → Address → Address → Payload → Call
  | .plain => .sendMessage
  | .encrypted => .sendEncryptedMessage

/-- The call that marks a message of the channel. -/
def markCall : Channel → Address → Nat → Call
  | .plain => .markAsRead
  | .encrypted => .markEncryptedAsRead

end Stellara.Messaging
