import Stellara.Auth.Model

/-!
# What a call touches

Nonces, accounts (users, wallets and access tokens) and refresh tokens are three groups of
tables.  A call that touches only some of them is neutral for the protocols about the others
(`Touches.obeys`).
-/

namespace Stellara.Auth

open Block
open Async (Rules keeping obeying)

inductive Table
  | nonces
  | accounts
  | tokens
  deriving DecidableEq

/-- The tables that a request reads or writes; reading a user by its id does not count. -/
def Request.table : Request → Option Table
  | .randomUUID | .now | .verifySignature _ _ _ | .logAction _ _ _ _ | .findUser _ => none
  | .saveNonce _ | .findNonce _ _ | .updateNonceUsed _ | .deleteExpiredNonces _ => some .nonces
  | .saveToken _ _ _ _ | .findToken _ | .updateRevoked _ _ | .revokeAll _ _ => some .tokens
  | .saveUser | .findWallet _ | .findWalletOf _ _ | .findAnyWallet _ | .countWallets _
  | .unsetPrimary _ | .insertWallet _ _ _ _ | .saveWallet _ | .removeWallet _ | .touchWallet _ _
  | .sign _ | .verify _ => some .accounts

/-- The request is about one of the tables, or about none. -/
def Request.Within (ts : List Table) (a : Request) : Prop := ∀ t, a.table = some t → t ∈ ts

/-- Every request of the block is within the tables. -/
def Touches {α : Type} (ts : List Table) (m : On α) : Prop :=
  wp (keeping (Request.Within ts) fun _ _ => True) m (fun _ _ _ => True) (fun _ _ _ => True) () ()

namespace Touches

variable {α β : Type} {ts : List Table} {m : On α}

theorem pure {x : α} : Touches ts (Pure.pure x : On α) := trivial

theorem throw {e : String} : Touches ts (Block.throw e : On α) := trivial

theorem request {a : Request} {f : Answer a → Except String α} (h : a.Within ts) :
    Touches ts (Block.request a f) := by
  refine ⟨h, fun r _ => ?_⟩
  show Ends _ _ (f r, ()) ()
  cases f r <;> trivial

theorem bind {f : α → On β} (hm : Touches ts m) (hf : ∀ x, Touches ts (f x)) :
    Touches ts (m >>= f) := by
  unfold Touches
  rw [wp_bind]
  exact wp_mono (fun x _ _ _ => hf x) (fun _ _ _ h => h) hm

theorem ensure {c : Bool} {e : String} : Touches ts (ensure c e) := by
  unfold Auth.ensure
  split <;> trivial

theorem onlyIf {c : Bool} {m : On Unit} (h : Touches ts m) : Touches ts (onlyIf c m) := by
  unfold Auth.onlyIf
  split
  · exact h
  · trivial

/-- What a call does to other tables leaves it where it is. -/
theorem obeys {γ : Type} {P : Protocol Request Answer γ} {g : γ} (h : Touches ts m)
    (hneutral : P.Neutral (Request.Within ts) g) :
    wp (obeying P) m (fun _ _ g' => g' = g) (fun _ _ g' => g' = g) () g := by
  have hends : Async.wp (keeping (Request.Within ts) fun _ _ => True) (m ()) (fun _ _ => True) () :=
    Async.wp_mono (fun _ _ _ => trivial) h
  refine Async.wp_mono ?_ (Async.wp_obeying_of_keeping (Q := fun _ => True) hneutral hends)
  rintro ⟨e | x, y⟩ g' ⟨-, hg⟩ <;> exact hg

end Touches

theorem Request.Within.ne {ts : List Table} {a : Request} {t : Table} (h : a.Within ts)
    (ht : t ∉ ts) : a.table ≠ some t := fun heq => ht (h t heq)

variable {zone : Zone} {ts : List Table}

open NonceService WalletService JwtAuthService

theorem newDate_touches : Touches ts newDate := .request nofun

theorem logAction_touches {action : String} {actorId entityId : Uuid} {metadata : Metadata} :
    Touches ts (logAction action actorId entityId metadata) := .request nofun

section Nonces

variable (h : Table.nonces ∈ ts)
include h

theorem validateNonce_touches {nonce : Uuid} {publicKey : String} :
    Touches ts (validateNonce nonce publicKey) := by
  refine .bind (.request ?_) fun found => ?_
  · rintro t ⟨⟩
    exact h
  · cases found with
    | none => exact .throw
    | some loginNonce =>
      exact .bind .ensure fun _ => .bind newDate_touches fun _ => .bind .ensure fun _ => .pure

theorem consumeNonce_touches {dto : WalletLoginDto} : Touches ts (consumeNonce dto) := by
  refine .bind (validateNonce_touches h) fun _ => .bind (.request nofun) fun _ =>
    .bind .ensure fun _ => .request ?_
  rintro t ⟨⟩
  exact h

theorem generateNonce_touches {publicKey : String} : Touches ts (generateNonce zone publicKey) := by
  refine .bind (.request nofun) fun _ => .bind newDate_touches fun _ =>
    .bind (.request ?_) fun _ => .pure
  rintro t ⟨⟩
  exact h

theorem cleanupExpiredNonces_touches : Touches ts cleanupExpiredNonces := by
  refine .bind newDate_touches fun _ => .bind (.request ?_) fun _ => .pure
  rintro t ⟨⟩
  exact h

end Nonces

section Accounts

variable (h : Table.accounts ∈ ts)
include h

theorem account_within {a : Request} (ha : a.table = some .accounts) : a.Within ts := by
  intro t ht
  cases ha.symm.trans ht
  exact h

theorem jwtAuthGuard_touches {token : AccessToken} : Touches ts (jwtAuthGuard token) := by
  refine .bind (.request (account_within h rfl)) fun _ => .bind (.request nofun) fun user => ?_
  cases user with
  | none => exact .throw
  | some user => exact .bind .ensure fun _ => .pure

theorem bindWalletToUser_touches {publicKey : String} {userId : Uuid} {isPrimary : Bool} :
    Touches ts (bindWalletToUser publicKey userId isPrimary) := by
  exact .bind (.request (account_within h rfl)) fun _ => .bind .ensure fun _ =>
    .bind (.onlyIf (.request (account_within h rfl))) fun _ =>
      .bind newDate_touches fun _ => .request (account_within h rfl)

theorem findOrCreateUser_touches {publicKey : String} :
    Touches ts (findOrCreateUser publicKey) := by
  refine .bind (.bind (.request (account_within h rfl)) fun _ => .pure) fun user => ?_
  cases user with
  | some user => exact .pure
  | none =>
    exact .bind (.bind (.request (account_within h rfl)) fun _ =>
      .bind (bindWalletToUser_touches h) fun _ => .pure) fun _ =>
        .bind logAction_touches fun _ => .pure

theorem updateLastUsed_touches {publicKey : String} : Touches ts (updateLastUsed publicKey) :=
  .bind newDate_touches fun _ => .request (account_within h rfl)

theorem generateAccessToken_touches {userId : Uuid} : Touches ts (generateAccessToken userId) :=
  .request (account_within h rfl)

theorem unbindWallet_touches {publicKey : String} {userId : Uuid} :
    Touches ts (WalletService.unbindWallet publicKey userId) := by
  refine .bind (.request (account_within h rfl)) fun found => ?_
  cases found with
  | none => exact .throw
  | some binding =>
    refine .bind (.request (account_within h rfl)) fun _ => .bind .ensure fun _ =>
      .bind (.request (account_within h rfl)) fun _ =>
        .onlyIf (.bind (.request (account_within h rfl)) fun another => ?_)
    cases another with
    | none => exact .pure
    | some another => exact .request (account_within h rfl)

end Accounts

section Tokens

variable (h : Table.tokens ∈ ts)
include h

theorem token_within {a : Request} (ha : a.table = some .tokens) : a.Within ts := by
  intro t ht
  cases ha.symm.trans ht
  exact h

theorem generateRefreshToken_touches {userId : Uuid} {successorOf : Option Uuid} :
    Touches ts (generateRefreshToken zone userId successorOf) :=
  .bind (.request nofun) fun _ => .bind newDate_touches fun _ =>
    .bind (.request (token_within h rfl)) fun _ => .bind (.request nofun) fun _ =>
      .bind logAction_touches fun _ => .pure

theorem revokeAllUserRefreshTokens_touches {userId : Uuid} :
    Touches ts (revokeAllUserRefreshTokens userId) :=
  .bind newDate_touches fun _ => .request (token_within h rfl)

theorem refreshAccessToken_touches (h' : Table.accounts ∈ ts) {token : Uuid} :
    Touches ts (refreshAccessToken zone token) := by
  refine .bind (.request (token_within h rfl)) fun found => ?_
  cases found with
  | none => exact .throw
  | some found =>
    obtain ⟨tokenRecord, user⟩ := found
    refine .bind .ensure fun _ => .bind newDate_touches fun _ => .bind .ensure fun _ => ?_
    cases user with
    | none => exact .throw
    | some user =>
      refine .bind .ensure fun _ => .bind ?_ fun _ =>
        .bind (generateAccessToken_touches h') fun _ =>
          .bind (generateRefreshToken_touches h) fun _ => .bind logAction_touches fun _ => .pure
      exact .bind newDate_touches fun _ => .bind (.request (token_within h rfl)) fun _ =>
        logAction_touches

theorem signIn_touches (h' : Table.accounts ∈ ts) {publicKey : String} :
    Touches ts (signIn zone publicKey) :=
  .bind (findOrCreateUser_touches h') fun _ => .bind (updateLastUsed_touches h') fun _ =>
    .bind (generateAccessToken_touches h') fun _ =>
      .bind (generateRefreshToken_touches h) fun _ => .pure

end Tokens

/-! ## What an answer leaves alone -/

/-- What changes with no request about nonces. -/
structure SameNonces (w w' : World) : Prop where
  nonces : w'.nonces = w.nonces
  issued : w'.issued = w.issued
  uuids : w.uuids ≤ w'.uuids

structure SameAccounts (w w' : World) : Prop where
  wallets : w'.wallets = w.wallets
  users : w'.users = w.users
  signed : w'.signed = w.signed
  uuids : w.uuids ≤ w'.uuids

structure SameTokens (w w' : World) : Prop where
  tokens : w'.tokens = w.tokens
  history : w'.history = w.history
  uuids : w.uuids ≤ w'.uuids

/-- Rows are revoked. -/
theorem exists_of_mem_revoke {p : RefreshToken → Bool} {now : Int} {rows : List RefreshToken}
    {row : RefreshToken} (h : row ∈ updateWhere p (·.revoke now) rows) :
    ∃ row' ∈ rows, row.id = row'.id ∧ row.userId = row'.userId ∧
      (row.revoked = false → row'.revoked = false ∧ p row' = false) := by
  obtain ⟨row', hrow', rfl⟩ := List.mem_map.mp h
  refine ⟨row', hrow', ?_⟩
  split
  · exact ⟨rfl, rfl, nofun⟩
  · next hp => exact ⟨rfl, rfl, fun hunrevoked => ⟨hunrevoked, eq_false_of_ne_true hp⟩⟩

/-- Only a UUID that was made can name a row, and only one. -/
def room (w : World) (id : Nat) : Nat := if id < w.uuids then 1 else 0

theorem room_mono {w w' : World} {id : Nat} (h : w.uuids ≤ w'.uuids) : room w id ≤ room w' id := by
  unfold room
  split <;> split <;> omega

section Frames

variable {c : Outside} {w w' : World} {a : Request} {r : Answer a}

/-- A relation between worlds that holds if the request is rejected, and if it is accepted. -/
theorem of_attempt {rel : World → World → Prop} {α : Type} {rejects : Option String} {x : α}
    {v : World} {r : Except String α} (h : some (Async.attempt rejects x w v) = some (r, w'))
    (hrefl : rel w w) (hv : rel w v) : rel w w' := by
  rcases Async.attempt_cases h with ⟨e, -, -, rfl⟩ | ⟨-, -, rfl⟩
  · exact hrefl
  · exact hv

theorem answer_nonces (ha : a.table ≠ some .nonces) (h : answer c w a = some (r, w')) :
    SameNonces w w' := by
  have hrefl : SameNonces w w := ⟨rfl, rfl, Nat.le_refl _⟩
  cases a with
  | saveNonce _ | findNonce _ _ | updateNonceUsed _ | deleteExpiredNonces _ => cases ha rfl
  | randomUUID => cases h; exact ⟨rfl, rfl, Nat.le_succ _⟩
  | now | verifySignature _ _ _ => cases h; exact hrefl
  | saveUser | insertWallet _ _ _ _ | saveToken _ _ _ _ =>
    exact of_attempt h hrefl ⟨rfl, rfl, Nat.le_succ _⟩
  | _ => exact of_attempt h hrefl ⟨rfl, rfl, Nat.le_refl _⟩

theorem answer_accounts (ha : a.table ≠ some .accounts) (h : answer c w a = some (r, w')) :
    SameAccounts w w' := by
  have hrefl : SameAccounts w w := ⟨rfl, rfl, rfl, Nat.le_refl _⟩
  cases a with
  | saveUser | findWallet _ | findWalletOf _ _ | findAnyWallet _ | countWallets _
  | unsetPrimary _ | insertWallet _ _ _ _ | saveWallet _ | removeWallet _ | touchWallet _ _
  | sign _ | verify _ => cases ha rfl
  | randomUUID => cases h; exact ⟨rfl, rfl, rfl, Nat.le_succ _⟩
  | now | verifySignature _ _ _ => cases h; exact hrefl
  | saveToken _ _ _ _ => exact of_attempt h hrefl ⟨rfl, rfl, rfl, Nat.le_succ _⟩
  | _ => exact of_attempt h hrefl ⟨rfl, rfl, rfl, Nat.le_refl _⟩

theorem answer_tokens (ha : a.table ≠ some .tokens) (h : answer c w a = some (r, w')) :
    SameTokens w w' := by
  have hrefl : SameTokens w w := ⟨rfl, rfl, Nat.le_refl _⟩
  cases a with
  | saveToken _ _ _ _ | findToken _ | updateRevoked _ _ | revokeAll _ _ => cases ha rfl
  | randomUUID => cases h; exact ⟨rfl, rfl, Nat.le_succ _⟩
  | now | verifySignature _ _ _ => cases h; exact hrefl
  | saveUser | insertWallet _ _ _ _ => exact of_attempt h hrefl ⟨rfl, rfl, Nat.le_succ _⟩
  | _ => exact of_attempt h hrefl ⟨rfl, rfl, Nat.le_refl _⟩

end Frames

end Stellara.Auth
