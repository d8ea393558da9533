import Stellara.Lib.Protocol
import Stellara.Lib.Table

/-!
# Authentication

The wallet part of `AuthController` with its services: `NonceService`, `WalletService` and
`JwtAuthService`.  Every repository call is one request, and so is every read of the clock, every
new UUID, every use of the JWT library and every `AuditService.logAction`; between two requests
of one call any other may run.  Signatures are verified by a library, whose verdict may be any.

Two fields of the world are not in the source: `issued` holds every nonce that was ever stored,
and `history` what happened to refresh tokens.  A row of `refresh_tokens` is inserted with the
token it succeeds, which only the history records.
-/

namespace Stellara.Auth

/-- A random UUID; no two are equal. -/
abbrev Uuid : Type := Nat

/-! ## Tables -/

structure LoginNonce where
  nonce : Uuid
  publicKey : String
  expiresAt : Int
  used : Bool
  deriving DecidableEq

def LoginNonce.use (n : LoginNonce) : LoginNonce := { n with used := true }

structure User where
  id : Uuid
  isActive : Bool
  deriving DecidableEq

structure WalletBinding where
  id : Uuid
  publicKey : String
  userId : Uuid
  isPrimary : Bool
  lastUsed : Option Int
  deriving DecidableEq

def WalletBinding.demote (x : WalletBinding) : WalletBinding := { x with isPrimary := false }

def WalletBinding.promote (x : WalletBinding) : WalletBinding := { x with isPrimary := true }

def WalletBinding.touch (lastUsed : Int) (x : WalletBinding) : WalletBinding :=
  { x with lastUsed := some lastUsed }

structure RefreshToken where
  id : Uuid
  token : Uuid
  userId : Uuid
  expiresAt : Int
  revoked : Bool
  revokedAt : Option Int
  deriving DecidableEq

def RefreshToken.revoke (revokedAt : Int) (t : RefreshToken) : RefreshToken :=
  { t with revoked := true, revokedAt := some revokedAt }

/-- What happened to refresh tokens: one was stored at a login or as the successor of another,
one was marked by its rotation, all of a user were revoked. -/
inductive TokenEvent
  | stored (id userId : Uuid) (successorOf : Option Uuid)
  | rotated (id : Uuid)
  | revokedAll (userId : Uuid)
  deriving DecidableEq

/-- The tables, and the users for whom access tokens were signed. -/
structure World where
  nonces : List LoginNonce
  issued : List LoginNonce
  users : List User
  wallets : List WalletBinding
  tokens : List RefreshToken
  history : List TokenEvent
  signed : List Uuid
  /-- the UUIDs used so far are those below -/
  uuids : Nat

def World.empty : World := ⟨[], [], [], [], [], [], [], 0⟩

def World.setNonces (w : World) (rows : List LoginNonce) : World := { w with nonces := rows }

def World.setWallets (w : World) (rows : List WalletBinding) : World := { w with wallets := rows }

def World.setTokens (w : World) (rows : List RefreshToken) (event : TokenEvent) : World :=
  { w with tokens := rows, history := event :: w.history }

/-! ## Requests and their answers -/

/-- The part of a signed access token that is read. -/
structure AccessToken where
  sub : Uuid
  deriving DecidableEq

/-- The `metadata` of an audit entry. -/
inductive Metadata
  | none
  | wallet (publicKey : String)
  | expiresAt (date : Int)

inductive Request
  | randomUUID
  | now
  | verifySignature (publicKey signature message : String)
  | logAction (action : String) (actorId entityId : Uuid) (metadata : Metadata)
  -- login_nonces
  | saveNonce (row : LoginNonce)
  | findNonce (nonce : Uuid) (publicKey : String)
  | updateNonceUsed (nonce : Uuid)
  | deleteExpiredNonces (now : Int)
  -- users, wallet_bindings and access tokens
  | saveUser
  | findUser (id : Uuid)
  | findWallet (publicKey : String)
  | findWalletOf (publicKey : String) (userId : Uuid)
  | findAnyWallet (userId : Uuid)
  | countWallets (userId : Uuid)
  | unsetPrimary (userId : Uuid)
  | insertWallet (publicKey : String) (userId : Uuid) (isPrimary : Bool) (lastUsed : Int)
  | saveWallet (wallet : WalletBinding)
  | removeWallet (wallet : WalletBinding)
  | touchWallet (publicKey : String) (lastUsed : Int)
  | sign (userId : Uuid)
  | verify (token : AccessToken)
  -- refresh_tokens
  | saveToken (token userId : Uuid) (expiresAt : Int) (successorOf : Option Uuid)
  | findToken (token : Uuid)
  | updateRevoked (id : Uuid) (revokedAt : Int)
  | revokeAll (userId : Uuid) (revokedAt : Int)

def Answer : Request → Type
  | .randomUUID => Uuid
  | .now => Int
  | .verifySignature _ _ _ => Bool
  | .logAction _ _ _ _ => Except String Unit
  | .saveNonce _ => Except String Unit
  | .findNonce _ _ => Except String (Option LoginNonce)
  | .updateNonceUsed _ | .deleteExpiredNonces _ => Except String Unit
  | .saveUser => Except String User
  | .findUser _ => Except String (Option User)
  | .findWallet _ => Except String (Option (WalletBinding × Option User))
  | .findWalletOf _ _ | .findAnyWallet _ => Except String (Option WalletBinding)
  | .countWallets _ => Except String Nat
  | .unsetPrimary _ => Except String Unit
  | .insertWallet _ _ _ _ => Except String WalletBinding
  | .saveWallet _ | .removeWallet _ | .touchWallet _ _ => Except String Unit
  | .sign _ => Except String AccessToken
  | .verify _ => Except String Unit
  | .saveToken _ _ _ _ => Except String RefreshToken
  | .findToken _ => Except String (Option (RefreshToken × Option User))
  | .updateRevoked _ _ | .revokeAll _ _ => Except String Unit

/-- The circumstances of an answer; `pick` is the row that a search without an order returns. -/
structure Outside where
  now : Int
  rejects : Option String
  signature : Bool
  pick : Nat

open Async (attempt)

def World.findUser (w : World) (id : Uuid) : Option User := w.users.find? fun u => u.id = id

theorem World.findUser_id {w : World} {id : Uuid} {user : User} (h : w.findUser id = some user) :
    user.id = id := by
  have hid := List.find?_some h
  exact of_decide_eq_true hid

/-- What fails a condition is rejected with the message. -/
def require (holds : Bool) (message : String) (rejects : Option String) : Option String :=
  if holds then rejects else some message

theorem require_eq_none {holds : Bool} {message : String} {rejects : Option String} :
    require holds message rejects = none ↔ holds = true ∧ rejects = none := by
  cases holds <;> simp [require]

/-- The repositories and libraries answer, or they reject; what breaks a `unique` column is
rejected. -/
def answer (c : Outside) (w : World) : (a : Request) → Option (Answer a × World)
  | .randomUUID => some (w.uuids, { w with uuids := w.uuids + 1 })
  | .now => some (c.now, w)
  | .verifySignature _ _ _ => some (c.signature, w)
  | .logAction _ _ _ _ => some (attempt c.rejects () w w)
  | .saveNonce row =>
    let new := w.nonces.all fun n => n.nonce ≠ row.nonce
    some (attempt (require new "duplicate key" c.rejects) () w
      { w with nonces := w.nonces ++ [row], issued := row :: w.issued })
  | .findNonce nonce publicKey =>
    some (attempt c.rejects
      (w.nonces.find? fun n => n.nonce = nonce ∧ n.publicKey = publicKey) w w)
  | .updateNonceUsed nonce =>
    some (attempt c.rejects () w
      (w.setNonces (updateWhere (·.nonce = nonce) LoginNonce.use w.nonces)))
  | .deleteExpiredNonces now =>
    some (attempt c.rejects () w (w.setNonces (w.nonces.filter fun n => ¬ n.expiresAt < now)))
  | .saveUser =>
    let user : User := ⟨w.uuids, true⟩
    some (attempt c.rejects user w { w with users := user :: w.users, uuids := w.uuids + 1 })
  | .findUser id => some (attempt c.rejects (w.findUser id) w w)
  | .findWallet publicKey =>
    some (attempt c.rejects ((w.wallets.find? fun x => x.publicKey = publicKey).map fun x =>
      (x, w.findUser x.userId)) w w)
  | .findWalletOf publicKey userId =>
    some (attempt c.rejects
      (w.wallets.find? fun x => x.publicKey = publicKey ∧ x.userId = userId) w w)
  | .findAnyWallet userId =>
    let rows := w.wallets.filter fun x => x.userId = userId
    some (attempt c.rejects rows[c.pick % rows.length]? w w)
  | .countWallets userId =>
    some (attempt c.rejects (w.wallets.countP fun x => x.userId = userId) w w)
  | .unsetPrimary userId =>
    some (attempt c.rejects () w
      (w.setWallets (updateWhere (·.userId = userId) WalletBinding.demote w.wallets)))
  | .insertWallet publicKey userId isPrimary lastUsed =>
    let wallet : WalletBinding := ⟨w.uuids, publicKey, userId, isPrimary, some lastUsed⟩
    let new := w.wallets.all fun x => x.publicKey ≠ publicKey
    some (attempt (require new "duplicate key" c.rejects) wallet w
      { w with wallets := w.wallets ++ [wallet], uuids := w.uuids + 1 })
  | .saveWallet wallet =>
    -- a row that is gone is inserted again
    let new := w.wallets.all fun x => x.publicKey = wallet.publicKey → x.id = wallet.id
    some (attempt (require new "duplicate key" c.rejects) () w (w.setWallets
      (if w.wallets.any fun x => x.id = wallet.id then
        updateWhere (·.id = wallet.id) (fun _ => wallet) w.wallets
      else w.wallets ++ [wallet])))
  | .removeWallet wallet =>
    some (attempt c.rejects () w (w.setWallets (w.wallets.filter fun x => x.id ≠ wallet.id)))
  | .touchWallet publicKey lastUsed =>
    some (attempt c.rejects () w
      (w.setWallets (updateWhere (·.publicKey = publicKey) (·.touch lastUsed) w.wallets)))
  | .sign userId => some (attempt c.rejects ⟨userId⟩ w { w with signed := userId :: w.signed })
  | .verify token =>
    some (attempt (require (token.sub ∈ w.signed) "Unauthorized" c.rejects) () w w)
  | .saveToken token userId expiresAt successorOf =>
    let row : RefreshToken := ⟨w.uuids, token, userId, expiresAt, false, none⟩
    let new := w.tokens.all fun t => t.token ≠ token
    some (attempt (require new "duplicate key" c.rejects) row w
      { w.setTokens (w.tokens ++ [row]) (.stored row.id userId successorOf) with
        uuids := w.uuids + 1 })
  | .findToken token =>
    some (attempt c.rejects ((w.tokens.find? fun t => t.token = token).map fun t =>
      (t, w.findUser t.userId)) w w)
  | .updateRevoked id revokedAt =>
    some (attempt c.rejects () w
      (w.setTokens (updateWhere (·.id = id) (·.revoke revokedAt) w.tokens) (.rotated id)))
  | .revokeAll userId revokedAt =>
    some (attempt c.rejects () w
      (w.setTokens (updateWhere (fun t => t.userId = userId ∧ ¬ t.revoked) (·.revoke revokedAt)
        w.tokens) (.revokedAll userId)))

/-! ## Services -/

/-- Arithmetic on the server's local time. -/
structure Zone where
  addMinutes : Int → Int → Int
  addDays : Int → Int → Int

abbrev On (α : Type) : Type := Block Request Answer String Unit α

open Block

/-- `randomUUID()` -/
def uuidv4 : On Uuid := request .randomUUID fun id : Nat => .ok id

/-- `new Date()` -/
def newDate : On Int := request .now fun now : Int => .ok now

/-- `if (!condition) throw new Error(message);` -/
def ensure (condition : Bool) (message : String) : On Unit :=
  if condition then pure () else throw message

/-- `if (condition) await m;` -/
def onlyIf (condition : Bool) (m : On Unit) : On Unit := if condition then m else pure ()

section Rules

variable {σ : Type} {T : Async.Rules Request Answer σ} {Q : Unit → Unit → σ → Prop}
  {E : String → Unit → σ → Prop} {x : Unit} {s : σ} {c : Bool}

theorem wp_ensure {message : String} :
    wp T (ensure c message) Q E x s ↔ if c then Q () x s else E message x s := by
  unfold ensure
  split <;> rfl

theorem wp_onlyIf {m : On Unit} :
    wp T (onlyIf c m) Q E x s ↔ if c then wp T m Q E x s else Q () x s := by
  unfold onlyIf
  split <;> rfl

end Rules

def verifySignature (publicKey signature message : String) : On Bool :=
  request (.verifySignature publicKey signature message) fun isValid : Bool => .ok isValid

def logAction (action : String) (actorId entityId : Uuid) (metadata : Metadata) : On Unit :=
  request (.logAction action actorId entityId metadata) id

def signMessage (nonce : Uuid) : String :=
  s!"Sign this message to authenticate with Stellara: {nonce}"

/-- What a call returns to its client. -/
inductive Reply
  | nonce (nonce : Uuid) (expiresAt : Int) (message : String)
  | login (accessToken : AccessToken) (refreshToken : Uuid) (user : User)
  | tokens (accessToken : AccessToken) (refreshToken : Uuid)
  | wallet (message : String) (wallet : WalletBinding)
  | message (message : String)
  | nothing

namespace NonceService

def NONCE_EXPIRATION_MINUTES : Int := 5

def generateNonce (zone : Zone) (publicKey : String) : On Reply := do
  let nonce ← uuidv4
  let now ← newDate
  let expiresAt := zone.addMinutes now NONCE_EXPIRATION_MINUTES
  request (.saveNonce ⟨nonce, publicKey, expiresAt, false⟩) id
  pure (.nonce nonce expiresAt (signMessage nonce))

def validateNonce (nonce : Uuid) (publicKey : String) : On LoginNonce := do
  let found ← request (.findNonce nonce publicKey) id
  match found with
  | none => throw "Invalid nonce"
  | some loginNonce => do
    ensure (!loginNonce.used) "Nonce already used"
    let now ← newDate
    ensure (now ≤ loginNonce.expiresAt) "Nonce expired"
    pure loginNonce

def markNonceUsed (nonce : Uuid) : On Unit := request (.updateNonceUsed nonce) id

def cleanupExpiredNonces : On Reply := do
  let now ← newDate
  request (.deleteExpiredNonces now) id
  pure .nothing

end NonceService

namespace WalletService

def findUserByWallet (publicKey : String) : On (Option User) := do
  let binding ← request (.findWallet publicKey) id
  pure (binding.bind Prod.snd)

def bindWalletToUser (publicKey : String) (userId : Uuid) (isPrimary : Bool) :
    On WalletBinding := do
  let existingBinding ← request (.findWallet publicKey) id
  ensure existingBinding.isNone "Wallet already bound to an account"
  onlyIf isPrimary (request (.unsetPrimary userId) id)
  let now ← newDate
  request (.insertWallet publicKey userId isPrimary now) id

/-- "If it was primary, make another wallet primary" -/
def promoteAnother (userId : Uuid) : On Unit := do
  let anotherWallet ← request (.findAnyWallet userId) id
  match anotherWallet with
  | none => pure ()
  | some anotherWallet => request (.saveWallet anotherWallet.promote) id

def unbindWallet (publicKey : String) (userId : Uuid) : On Unit := do
  let found ← request (.findWalletOf publicKey userId) id
  match found with
  | none => throw "Wallet not found or not owned by user"
  | some binding => do
    let userWalletCount ← request (.countWallets userId) id
    ensure (userWalletCount ≠ 1)
      "Cannot unbind the only wallet. Account must have at least one wallet."
    request (.removeWallet binding) id
    onlyIf binding.isPrimary (promoteAnother userId)

def updateLastUsed (publicKey : String) : On Unit := do
  let now ← newDate
  request (.touchWallet publicKey now) id

def createUserWithWallet (publicKey : String) : On User := do
  let savedUser ← request .saveUser id
  let _ ← bindWalletToUser publicKey savedUser.id true
  pure savedUser

end WalletService

namespace JwtAuthService

def generateAccessToken (userId : Uuid) : On AccessToken := request (.sign userId) id

/-- The token that it succeeds is recorded only. -/
def generateRefreshToken (zone : Zone) (userId : Uuid) (successorOf : Option Uuid) :
    On RefreshToken := do
  let token ← uuidv4
  let now ← newDate
  let saved ← request (.saveToken token userId (zone.addDays now 7) successorOf) id
  let _ ← request (.findUser userId) id
  logAction "REFRESH_TOKEN_CREATED" userId saved.id (.expiresAt saved.expiresAt)
  pure saved

def revokeRefreshToken (tokenId : Uuid) : On Unit := do
  let now ← newDate
  request (.updateRevoked tokenId now) id
  logAction "REFRESH_TOKEN_REVOKED" tokenId tokenId .none

def revokeAllUserRefreshTokens (userId : Uuid) : On Unit := do
  let now ← newDate
  request (.revokeAll userId now) id

/-- What `refreshAccessToken` does with a token it has accepted. -/
def rotate (zone : Zone) (tokenRecord : RefreshToken) : On Reply := do
  revokeRefreshToken tokenRecord.id
  let accessToken ← generateAccessToken tokenRecord.userId
  let newRefreshToken ← generateRefreshToken zone tokenRecord.userId (some tokenRecord.id)
  logAction "ACCESS_TOKEN_REFRESHED" tokenRecord.userId tokenRecord.id .none
  pure (.tokens accessToken newRefreshToken.token)

def refreshAccessToken (zone : Zone) (refreshToken : Uuid) : On Reply := do
  let found ← request (.findToken refreshToken) id
  match found with
  | none => throw "Invalid refresh token"
  | some (tokenRecord, user) => do
    ensure (!tokenRecord.revoked) "Refresh token has been revoked"
    let now ← newDate
    ensure (now ≤ tokenRecord.expiresAt) "Refresh token expired"
    match user with
    | none => throw "Cannot read properties of null (reading 'isActive')"
    | some user => do
      ensure user.isActive "User account is inactive"
      rotate zone tokenRecord

end JwtAuthService

/-! ## Endpoints -/

/-- The body of a login and of a bind request. -/
structure WalletLoginDto where
  publicKey : String
  signature : String
  nonce : Uuid

open NonceService WalletService JwtAuthService

/-- `JwtAuthGuard` with `JwtStrategy.validate`: the user of the request. -/
def jwtAuthGuard (token : AccessToken) : On User := do
  request (.verify token) id
  let user ← request (.findUser token.sub) id
  match user with
  | none => throw "User not found"
  | some user => do
    ensure user.isActive "User account is inactive"
    pure user

/-- What a login and a bind request do with the nonce. -/
def consumeNonce (dto : WalletLoginDto) : On Unit := do
  let _ ← validateNonce dto.nonce dto.publicKey
  let isValid ← verifySignature dto.publicKey dto.signature (signMessage dto.nonce)
  ensure isValid "Invalid signature"
  markNonceUsed dto.nonce

/-- "Find or create user" -/
def findOrCreateUser (publicKey : String) : On User := do
  let user ← findUserByWallet publicKey
  match user with
  | some user => pure user
  | none => do
    let user ← createUserWithWallet publicKey
    logAction "USER_CREATED" user.id user.id (.wallet publicKey)
    pure user

/-- What a login does once its nonce is used. -/
def signIn (zone : Zone) (publicKey : String) : On Reply := do
  let user ← findOrCreateUser publicKey
  updateLastUsed publicKey
  let accessToken ← generateAccessToken user.id
  let refreshTokenData ← generateRefreshToken zone user.id none
  pure (.login accessToken refreshTokenData.token user)

def walletLogin (zone : Zone) (dto : WalletLoginDto) : On Reply := do
  consumeNonce dto
  signIn zone dto.publicKey

def bindWallet (token : AccessToken) (dto : WalletLoginDto) : On Reply := do
  let user ← jwtAuthGuard token
  consumeNonce dto
  let binding ← bindWalletToUser dto.publicKey user.id false
  pure (.wallet "Wallet bound successfully" binding)

def unbindWallet (token : AccessToken) (publicKey : String) : On Reply := do
  let user ← jwtAuthGuard token
  WalletService.unbindWallet publicKey user.id
  pure (.message "Wallet unbound successfully")

def logout (token : AccessToken) : On Reply := do
  let user ← jwtAuthGuard token
  revokeAllUserRefreshTokens user.id
  pure (.message "Logged out successfully")

/-- The calls; the last two are made by the server itself. -/
inductive Operation
  | requestNonce (publicKey : String)
  | walletLogin (dto : WalletLoginDto)
  | refreshToken (token : Uuid)
  | logout (token : AccessToken)
  | bindWallet (token : AccessToken) (dto : WalletLoginDto)
  | unbindWallet (token : AccessToken) (publicKey : String)
  | cleanupExpiredNonces
  | revokeAllUserRefreshTokens (userId : Uuid)

def Operation.block (zone : Zone) : Operation → On Reply
  | .requestNonce publicKey => generateNonce zone publicKey
  | .walletLogin dto => Auth.walletLogin zone dto
  | .refreshToken token => refreshAccessToken zone token
  | .logout token => Auth.logout token
  | .bindWallet token dto => Auth.bindWallet token dto
  | .unbindWallet token publicKey => Auth.unbindWallet token publicKey
  | .cleanupExpiredNonces => NonceService.cleanupExpiredNonces
  | .revokeAllUserRefreshTokens userId => do
    JwtAuthService.revokeAllUserRefreshTokens userId
    pure .nothing

/-- A call that has ended says which one it was. -/
def Operation.program (zone : Zone) :
    Operation → Async Request Answer (Operation × Except String Reply) :=
  Async.labelled fun op => (op.block zone).program

/-- Any number of calls, interleaved, from empty tables on. -/
abbrev machine (zone : Zone) :=
  Async.interleave (Operation.program zone) (fun _ => True) answer (· = World.empty)

abbrev System : Type := Async.System Request Answer (Operation × Except String Reply) World

abbrev Trace : Type := List (Event Outside (Async.Move Operation) Unit System)

/-! ## Circumstances of concrete runs -/

def utc : Zone := ⟨fun t minutes => t + minutes * 60000, fun t days => t + days * 86400000⟩

/-- Every request is accepted, and every signature. -/
def undisturbed : Outside := { now := 0, rejects := none, signature := true, pick := 0 }

/-- Task `i` gets its next answers. -/
def resumes (i answers : Nat) : List (Outside × Async.Move Operation) :=
  List.replicate answers (undisturbed, .resume i)

/-- A nonce is requested. -/
def nonceRequested : List (Outside × Async.Move Operation) :=
  (undisturbed, .start (.requestNonce "G")) :: resumes 0 3

def sampleLogin (nonce : Uuid) : Outside × Async.Move Operation :=
  (undisturbed, .start (.walletLogin ⟨"G", "signature", nonce⟩))

end Stellara.Auth
