import Stellara.Auth.Footprints
import Mathlib.Algebra.Order.BigOperators.Group.List
import Mathlib.Algebra.Order.Group.Nat

/-!
# Wallet bindings

`unbindWallet` counts the wallets of the user, removes one, and if it was the primary one makes
another primary:

    unbind A (primary):   count 2   remove A   find B    save B as primary
    unbind B:                count 2                  remove B

If each removal finds its wallet as it was read and another one of the user, and each promotion
goes through and finds its wallet still stored, then at every rest each wallet has one owner and
each user that logged in has wallets, one of them primary (`wallets_sound`).
-/

namespace Stellara.Auth

/-- The user has logged in. -/
def LoggedIn (t : System) (userId : Uuid) : Prop :=
  ∃ dto accessToken refreshToken user,
    .done (.walletLogin dto, .ok (.login accessToken refreshToken user)) ∈ t.tasks ∧
      user.id = userId

structure WalletsSound (t : System) : Prop where
  owner : ∀ x ∈ t.world.wallets, ∀ y ∈ t.world.wallets, x.publicKey = y.publicKey →
    x.userId = y.userId
  bound : ∀ userId, LoggedIn t userId → ∃ x ∈ t.world.wallets, x.userId = userId
  primary : ∀ userId, LoggedIn t userId →
    (t.world.wallets.countP fun x => x.userId = userId ∧ x.isPrimary) = 1

/-- An accepted removal finds its wallet with the `isPrimary` that was read, and another wallet of
the user; a promotion is not rejected and finds its wallet stored. -/
def UnbindsAlone (w : World) (rejects : Option String) : Request → Prop
  | .removeWallet wallet => rejects = none →
      (∃ x ∈ w.wallets, x.id = wallet.id ∧ x.isPrimary = wallet.isPrimary) ∧
        ∃ x ∈ w.wallets, x.userId = wallet.userId ∧ x.id ≠ wallet.id
  | .findAnyWallet _ => rejects = none
  | .saveWallet wallet => rejects = none ∧ ∃ x ∈ w.wallets, x.id = wallet.id
  | _ => True

instance (w : World) (rejects : Option String) : DecidablePred (UnbindsAlone w rejects) :=
  fun a => by induction a using Request.casesOn <;> unfold UnbindsAlone <;> infer_instance

abbrev StepUnbindsAlone (e : Event Outside (Async.Move Operation) Unit System) : Prop :=
  Async.Meets (fun c w => UnbindsAlone w c.rejects) e

namespace Wallets

open Block
open Async (obeying attempt_cases sum_map_set sum_map_append_singleton)

/-! ## The way of a call -/

inductive Point
  | idle
  | signingIn
  | creating (userId : Uuid)
  | user (userId : Uuid)
  | removing (wallet : WalletBinding)
  | promoting (userId : Uuid)
  | saving (wallet : WalletBinding)

/-- The call has removed the primary wallet of the user, and made no other primary yet. -/
def Point.pending (userId : Uuid) : Point → Nat
  | .promoting u => if u = userId then 1 else 0
  | .saving wallet => if wallet.userId = userId then 1 else 0
  | _ => 0

/-- Or it is about to bind the user's first wallet. -/
def Point.holds (userId : Uuid) : Point → Nat
  | .creating u => if u = userId then 1 else 0
  | g => g.pending userId

/-- Only the user of a call changes its own wallets, and gets tokens. -/
def asks : Point → Request → Prop
  | .idle, .verify _ | .idle, .findToken _ | .idle, .revokeAll _ _ => True
  | .signingIn, .findWallet _ | .signingIn, .saveUser => True
  | .creating _, .now | .creating _, .findWallet _ => True
  | .creating u, .unsetPrimary userId => userId = u
  | .creating u, .insertWallet _ userId isPrimary _ => userId = u ∧ isPrimary = true
  | .user _, .findWallet _ | .user _, .touchWallet _ _ => True
  | .user _, .updateRevoked _ _ | .user _, .revokeAll _ _ => True
  | .user u, .findWalletOf _ userId | .user u, .sign userId => userId = u
  | .user u, .saveToken _ userId _ _ => userId = u
  | .user u, .insertWallet _ userId isPrimary _ => userId = u ∧ isPrimary = false
  | .removing wallet, .countWallets userId => userId = wallet.userId
  | .removing wallet, .removeWallet x => x = wallet
  | .promoting u, .findAnyWallet userId => userId = u
  | .saving wallet, .saveWallet x => x = wallet.promote
  | .idle, a | .signingIn, a | .user _, a => a.Within [.nonces]
  | _, _ => False

def told : Point → (a : Request) → Answer a → Prop
  | .user _, .findUser id, .ok (some user) => user.id = id
  | .user userId, .findWalletOf _ _, .ok (some wallet) => wallet.userId = userId
  | .promoting userId, .findAnyWallet _, r =>
    ∃ wallet : WalletBinding, r = .ok (some wallet) ∧ wallet.userId = userId
  | .saving _, .saveWallet _, r => r = .ok ()
  | _, _, _ => True

def next : Point → (a : Request) → Answer a → Point
  | .idle, .verify token, .ok _ => .user token.sub
  | .idle, .findToken _, .ok (some (row, _)) => .user row.userId
  | .signingIn, .findWallet _, .ok (some (_, some user)) => .user user.id
  | .signingIn, .saveUser, .ok user => .creating user.id
  | .creating userId, .insertWallet _ _ _ _, .ok _ => .user userId
  | .creating _, .insertWallet _ _ _ _, .error _ => .idle
  | .user _, .findWalletOf _ _, .ok (some wallet) => .removing wallet
  | .removing wallet, .removeWallet _, .ok _ =>
    if wallet.isPrimary then .promoting wallet.userId else .user wallet.userId
  | .promoting _, .findAnyWallet _, .ok (some wallet) => .saving wallet
  | .saving wallet, .saveWallet _, _ => .user wallet.userId
  | g, _, _ => g

abbrev protocol : Protocol Request Answer Point := ⟨asks, told, next⟩

def begin : Operation → Point
  | .walletLogin _ => .signingIn
  | _ => .idle

/-- At the end nothing is pending, and a login has its user. -/
def End (x : Operation × Except String Reply) (g : Point) : Prop :=
  (∀ userId, g.pending userId = 0) ∧
    ∀ dto accessToken refreshToken user, x = (.walletLogin dto,
      .ok (.login accessToken refreshToken user)) → g = .user user.id

/-- Nothing is pending. -/
def Calm (g : Point) : Prop := ∀ userId, g.pending userId = 0

variable {zone : Zone}

theorem neutral {g : Point} (hg : g = .idle ∨ g = .signingIn ∨ ∃ u, g = .user u) :
    protocol.Neutral (Request.Within [.nonces]) g := by
  intro a h
  have haccounts : a.table ≠ some .accounts := h.ne (by decide)
  have htokens : a.table ≠ some .tokens := h.ne (by decide)
  rcases hg with rfl | rfl | ⟨u, rfl⟩ <;> cases a <;>
    first
    | exact absurd rfl haccounts
    | exact absurd rfl htokens
    | exact ⟨h, fun _ => rfl⟩

theorem idle_neutral : protocol.Neutral (Request.Within [.nonces]) .idle := neutral (.inl rfl)

theorem signingIn_neutral : protocol.Neutral (Request.Within [.nonces]) .signingIn :=
  neutral (.inr (.inl rfl))

theorem user_neutral {userId : Uuid} : protocol.Neutral (Request.Within [.nonces]) (.user userId) :=
  neutral (.inr (.inr ⟨userId, rfl⟩))

/-- A block of a user's call that changes neither the user nor what is pending. -/
def Stays {α : Type} (userId : Uuid) (m : On α) : Prop :=
  wp (obeying protocol) m (fun _ _ g => g = .user userId) (fun _ _ g => Calm g) () (.user userId)

namespace Stays

variable {α β : Type} {userId : Uuid} {m : On α}

theorem pure {x : α} : Stays userId (Pure.pure x : On α) := rfl

theorem throw {e : String} : Stays userId (Block.throw e : On α) := fun _ => rfl

theorem of_touches (h : Touches [.nonces] m) : Stays userId m := by
  refine wp_mono (fun _ _ _ h => h) ?_ (h.obeys user_neutral)
  rintro _ _ g rfl
  exact fun _ => rfl

theorem request {a : Request} {f : Answer a → Except String α} (hasks : asks (.user userId) a)
    (hnext : ∀ r, next (.user userId) a r = .user userId) : Stays userId (Block.request a f) := by
  refine ⟨hasks, fun r _ => ?_⟩
  show Ends _ _ (f r, ()) (next (.user userId) a r)
  rw [hnext r]
  cases f r with
  | error e => exact fun _ => rfl
  | ok x => rfl

/-- First a block that stays. -/
theorem before {f : α → On β} {Q : β → Unit → Point → Prop} (hm : Stays userId m)
    (hf : ∀ x, wp (obeying protocol) (f x) Q (fun _ _ g => Calm g) () (.user userId)) :
    wp (obeying protocol) (m >>= f) Q (fun _ _ g => Calm g) () (.user userId) := by
  rw [wp_bind]
  refine wp_mono ?_ (fun _ _ _ h => h) hm
  rintro x _ g rfl
  exact hf x

theorem bind {f : α → On β} (hm : Stays userId m) (hf : ∀ x, Stays userId (f x)) :
    Stays userId (m >>= f) := before hm hf

theorem ensure {c : Bool} {e : String} : Stays userId (ensure c e) := by
  unfold Stays
  rw [wp_ensure]
  split
  · rfl
  · exact fun _ => rfl

/-- It ends with nothing pending. -/
theorem calm (h : Stays userId m) :
    wp (obeying protocol) m (fun _ _ g => Calm g) (fun _ _ g => Calm g) () (.user userId) := by
  refine wp_mono ?_ (fun _ _ _ h => h) h
  rintro _ _ g rfl
  exact fun _ => rfl

end Stays

/-- The user of a request has an access token. -/
theorem jwtAuthGuard_obeys {token : AccessToken} :
    wp (obeying protocol) (jwtAuthGuard token) (fun user _ g => g = .user user.id)
      (fun _ _ g => Calm g) () .idle := by
  simp only [jwtAuthGuard]
  rw [wp_bind]
  refine ⟨trivial, fun r _ => ?_⟩
  cases r with
  | error e => exact fun _ => rfl
  | ok _ =>
    show wp (obeying protocol) (request _ _ >>= _) _ _ () (.user token.sub)
    rw [wp_bind]
    refine ⟨nofun, fun r hr => ?_⟩
    cases r with
    | error e => exact fun _ => rfl
    | ok user =>
      cases user with
      | none => exact fun _ => rfl
      | some user =>
        have hid : user.id = token.sub := hr
        show wp (obeying protocol) (ensure _ _ >>= _) _ _ () (.user token.sub)
        rw [wp_bind, wp_ensure]
        split
        · show Point.user token.sub = .user user.id
          rw [hid]
        · exact fun _ => rfl

/-- The first wallet of a user is the primary one. -/
theorem bindFirst_obeys {publicKey : String} {userId : Uuid} :
    wp (obeying protocol) (WalletService.bindWalletToUser publicKey userId true)
      (fun _ _ g => g = .user userId) (fun _ _ g => Calm g) () (.creating userId) := by
  simp only [WalletService.bindWalletToUser]
  rw [wp_bind]
  refine ⟨trivial, fun r _ => ?_⟩
  cases r with
  | error e => exact fun _ => rfl
  | ok existingBinding =>
    show wp (obeying protocol) (ensure _ _ >>= _) _ _ () (.creating userId)
    rw [wp_bind, wp_ensure]
    split
    · rw [wp_bind]
      refine ⟨rfl, fun r _ => ?_⟩
      cases r with
      | error e => exact fun _ => rfl
      | ok _ =>
        show wp (obeying protocol) (newDate >>= _) _ _ () (.creating userId)
        rw [wp_bind]
        refine ⟨trivial, fun now _ => ?_⟩
        refine ⟨⟨rfl, rfl⟩, fun r _ => ?_⟩
        cases r with
        | error e => exact fun _ => rfl
        | ok _ => rfl
    · exact fun _ => rfl

/-- Another one is not. -/
theorem bindAnother_stays {publicKey : String} {userId : Uuid} :
    Stays userId (WalletService.bindWalletToUser publicKey userId false) :=
  .bind (.request trivial fun _ => rfl) fun _ => .bind .ensure fun _ => .bind .pure fun _ =>
    .bind (.of_touches newDate_touches) fun _ => .request ⟨rfl, rfl⟩ fun _ => rfl

theorem generateRefreshToken_stays {userId : Uuid} {successorOf : Option Uuid} :
    Stays userId (JwtAuthService.generateRefreshToken zone userId successorOf) :=
  .bind (.of_touches (.request nofun)) fun _ => .bind (.of_touches newDate_touches) fun _ =>
    .bind (.request rfl fun _ => rfl) fun _ => .bind (.of_touches (.request nofun)) fun _ =>
      .bind (.of_touches logAction_touches) fun _ => .pure

theorem rotate_stays {row : RefreshToken} : Stays row.userId (JwtAuthService.rotate zone row) :=
  .bind (.bind (.of_touches newDate_touches) fun _ => .bind (.request trivial fun _ => rfl) fun _ =>
      .of_touches logAction_touches) fun _ =>
    .bind (.request rfl fun _ => rfl) fun _ => .bind generateRefreshToken_stays fun _ =>
      .bind (.of_touches logAction_touches) fun _ => .pure

theorem findOrCreateUser_obeys {publicKey : String} :
    wp (obeying protocol) (findOrCreateUser publicKey) (fun user _ g => g = .user user.id)
      (fun _ _ g => Calm g) () .signingIn := by
  simp only [findOrCreateUser, WalletService.findUserByWallet]
  rw [wp_bind, wp_bind]
  refine ⟨trivial, fun r _ => ?_⟩
  have hcreate : wp (obeying protocol) (WalletService.createUserWithWallet publicKey >>= fun user =>
      (logAction "USER_CREATED" user.id user.id (.wallet publicKey) >>= fun _ => pure user))
      (fun user _ g => g = .user user.id) (fun _ _ g => Calm g) () .signingIn := by
    simp only [WalletService.createUserWithWallet]
    rw [wp_bind, wp_bind]
    refine ⟨trivial, fun r _ => ?_⟩
    cases r with
    | error e => exact fun _ => rfl
    | ok savedUser =>
      show wp (obeying protocol) (WalletService.bindWalletToUser publicKey savedUser.id true >>= _)
        _ _ () (.creating savedUser.id)
      rw [wp_bind]
      refine wp_mono ?_ (fun _ _ _ h => h) bindFirst_obeys
      rintro _ _ g rfl
      rw [wp_pure, wp_bind]
      refine wp_mono ?_ ?_ (logAction_touches.obeys user_neutral)
      · rintro _ _ g rfl
        rfl
      · rintro _ _ g rfl
        exact fun _ => rfl
  cases r with
  | error e => exact fun _ => rfl
  | ok found =>
    cases found with
    | none => exact hcreate
    | some found =>
      obtain ⟨binding, user⟩ := found
      cases user with
      | none => exact hcreate
      | some user => rfl

theorem signIn_obeys {publicKey : String} :
    wp (obeying protocol) (signIn zone publicKey)
      (fun reply _ g => Calm g ∧ ∀ accessToken refreshToken user,
        reply = .login accessToken refreshToken user → g = .user user.id)
      (fun _ _ g => Calm g) () .signingIn := by
  simp only [signIn]
  rw [wp_bind]
  refine wp_mono ?_ (fun _ _ _ h => h) findOrCreateUser_obeys
  rintro user _ g rfl
  have htouch : Stays user.id (WalletService.updateLastUsed publicKey) :=
    .bind (.of_touches newDate_touches) fun _ => .request trivial fun _ => rfl
  have hsign : Stays user.id (JwtAuthService.generateAccessToken user.id) :=
    .request rfl fun _ => rfl
  refine htouch.before fun _ => hsign.before fun _ => generateRefreshToken_stays.before fun _ => ?_
  refine ⟨fun _ => rfl, ?_⟩
  rintro _ _ _ ⟨⟩
  rfl

/-- **The primary wallet is replaced.** -/
theorem promoteAnother_obeys {userId : Uuid} {E : String → Unit → Point → Prop} :
    wp (obeying protocol) (WalletService.promoteAnother userId) (fun _ _ g => Calm g) E ()
      (.promoting userId) := by
  simp only [WalletService.promoteAnother]
  rw [wp_bind]
  refine ⟨rfl, fun r hr => ?_⟩
  obtain ⟨wallet, rfl, -⟩ := hr
  refine ⟨rfl, fun r hr => ?_⟩
  obtain rfl := hr
  exact fun _ => rfl

theorem unbindWallet_obeys {publicKey : String} {userId : Uuid} :
    wp (obeying protocol) (WalletService.unbindWallet publicKey userId) (fun _ _ g => Calm g)
      (fun _ _ g => Calm g) () (.user userId) := by
  simp only [WalletService.unbindWallet]
  rw [wp_bind]
  refine ⟨rfl, fun r hr => ?_⟩
  cases r with
  | error e => exact fun _ => rfl
  | ok found =>
    cases found with
    | none => exact fun _ => rfl
    | some binding =>
      obtain rfl : binding.userId = userId := hr
      show wp (obeying protocol) (request _ _ >>= _) _ _ () (.removing binding)
      rw [wp_bind]
      refine ⟨rfl, fun r _ => ?_⟩
      cases r with
      | error e => exact fun _ => rfl
      | ok userWalletCount =>
        show wp (obeying protocol) (ensure _ _ >>= _) _ _ () (.removing binding)
        rw [wp_bind, wp_ensure]
        split
        · rw [wp_bind]
          refine ⟨rfl, fun r _ => ?_⟩
          cases r with
          | error e => exact fun _ => rfl
          | ok _ =>
            show wp (obeying protocol) (onlyIf _ _) _ _ ()
              (if binding.isPrimary then .promoting binding.userId else .user binding.userId)
            rw [wp_onlyIf]
            split
            · exact promoteAnother_obeys
            · exact fun _ => rfl
        · exact fun _ => rfl

theorem refreshAccessToken_obeys {token : Uuid} :
    wp (obeying protocol) (JwtAuthService.refreshAccessToken zone token) (fun _ _ g => Calm g)
      (fun _ _ g => Calm g) () .idle := by
  simp only [JwtAuthService.refreshAccessToken]
  rw [wp_bind]
  refine ⟨trivial, fun r _ => ?_⟩
  cases r with
  | error e => exact fun _ => rfl
  | ok found =>
    cases found with
    | none => exact fun _ => rfl
    | some found =>
      obtain ⟨row, user⟩ := found
      suffices h : Stays row.userId _ from h.calm
      refine .bind .ensure fun _ => .bind (.of_touches newDate_touches) fun _ =>
        .bind .ensure fun _ => ?_
      cases user with
      | none => exact .throw
      | some user => exact .bind .ensure fun _ => rotate_stays

theorem program_obeys (zone : Zone) (op : Operation) :
    Async.wp (obeying protocol) (op.program zone) End (begin op) := by
  refine Async.wp_labelled.mpr (wp_program.mpr ?_)
  have hmem : Table.nonces ∈ [Table.nonces] := List.mem_singleton_self _
  have herror : ∀ e g, Calm g → End (op, .error e) g := fun e g hg => ⟨hg, nofun⟩
  -- a call that is no login only has to end with nothing pending
  have hother : (∀ dto, op ≠ .walletLogin dto) →
      wp (obeying protocol) (op.block zone) (fun _ _ g => Calm g) (fun _ _ g => Calm g) () .idle →
      wp (obeying protocol) (op.block zone) (fun x _ => End (op, .ok x))
        (fun e _ => End (op, .error e)) () .idle := fun hne h =>
    wp_mono (fun x _ g hg => ⟨hg, fun dto _ _ _ heq => absurd (congrArg Prod.fst heq) (hne dto)⟩)
      (fun e _ g hg => herror e g hg) h
  have hidle : ∀ {m : On Reply}, Touches [.nonces] m →
      wp (obeying protocol) m (fun _ _ g => Calm g) (fun _ _ g => Calm g) () .idle := fun h => by
    refine wp_mono ?_ ?_ (h.obeys idle_neutral) <;> rintro _ _ g rfl <;> exact fun _ => rfl
  have hguard : ∀ {token} {f : User → On Reply}, (∀ user : User, wp (obeying protocol) (f user)
      (fun _ _ g => Calm g) (fun _ _ g => Calm g) () (.user user.id)) →
      wp (obeying protocol) (jwtAuthGuard token >>= f) (fun _ _ g => Calm g) (fun _ _ g => Calm g) ()
        .idle := fun hf => by
    rw [wp_bind]
    refine wp_mono ?_ (fun _ _ _ h => h) jwtAuthGuard_obeys
    rintro user _ g rfl
    exact hf user
  cases op with
  | requestNonce publicKey => exact hother nofun (hidle (generateNonce_touches hmem))
  | cleanupExpiredNonces => exact hother nofun (hidle (cleanupExpiredNonces_touches hmem))
  | walletLogin dto =>
    show wp (obeying protocol) (consumeNonce dto >>= fun _ => signIn zone dto.publicKey) _ _ ()
      .signingIn
    rw [wp_bind]
    refine wp_mono ?_ ?_ ((consumeNonce_touches hmem).obeys signingIn_neutral)
    · rintro _ _ g rfl
      refine wp_mono ?_ (fun e _ g hg => herror e g hg) signIn_obeys
      rintro reply _ g ⟨hcalm, huser⟩
      refine ⟨hcalm, fun dto' accessToken refreshToken user heq => ?_⟩
      exact huser accessToken refreshToken user (Except.ok.inj (congrArg Prod.snd heq))
    · rintro e _ g rfl
      exact herror e _ fun _ => rfl
  | refreshToken token => exact hother nofun refreshAccessToken_obeys
  | logout token =>
    refine hother nofun (hguard fun user => Stays.calm ?_)
    exact .bind (.bind (.of_touches newDate_touches) fun _ => .request trivial fun _ => rfl)
      fun _ => .pure
  | bindWallet token dto =>
    refine hother nofun (hguard fun user => Stays.calm ?_)
    exact .bind (.of_touches (consumeNonce_touches hmem)) fun _ => .bind bindAnother_stays fun _ =>
      .pure
  | unbindWallet token publicKey =>
    refine hother nofun (hguard fun user => ?_)
    rw [wp_bind]
    exact wp_mono (fun _ _ _ h => h) (fun _ _ _ h => h) unbindWallet_obeys
  | revokeAllUserRefreshTokens userId =>
    refine hother nofun ?_
    show wp (obeying protocol) (JwtAuthService.revokeAllUserRefreshTokens userId >>= _) _ _ () .idle
    simp only [JwtAuthService.revokeAllUserRefreshTokens]
    rw [wp_bind, wp_bind]
    refine ⟨nofun, fun now _ => ?_⟩
    refine ⟨trivial, fun r _ => ?_⟩
    cases r with
    | error e => exact fun _ => rfl
    | ok _ => exact fun _ => rfl

/-! ## What the calls keep -/

def primaries (w : World) (userId : Uuid) : Nat :=
  w.wallets.countP fun x => x.userId = userId ∧ x.isPrimary

/-- The user has a primary wallet, or one is being made. -/
def Settled (w : World) (gs : List Point) (userId : Uuid) : Prop :=
  1 ≤ (gs.map (Point.pending userId)).sum + primaries w userId

/-- What never changes in a row. -/
def identity (x : WalletBinding) : Uuid × String × Uuid := (x.id, x.publicKey, x.userId)

/-- The row that was copied, if it is still stored, is that of the same wallet. -/
def Copied (w : World) (x : WalletBinding) : Prop :=
  x.id < w.uuids ∧ ∀ row ∈ w.wallets, row.id = x.id → identity row = identity x

def Point.Known (w : World) (gs : List Point) : Point → Prop
  | .user userId => Settled w gs userId
  | .removing wallet => Settled w gs wallet.userId ∧ Copied w wallet
  | .saving wallet => Copied w wallet
  | _ => True

/-- The rows of the table have distinct ids and distinct public keys. -/
structure Distinct (w : World) : Prop where
  ids : (w.wallets.map WalletBinding.id).Nodup
  keys : (w.wallets.map WalletBinding.publicKey).Nodup
  fresh : ∀ x ∈ w.wallets, x.id < w.uuids

structure Books (w : World) (gs : List Point) : Prop where
  distinct : Distinct w
  single : ∀ userId, (gs.map (Point.holds userId)).sum + primaries w userId ≤ room w userId
  owned : ∀ x ∈ w.wallets, Settled w gs x.userId
  kept : ∀ userId, 1 ≤ (gs.map (Point.pending userId)).sum →
    ∃ x ∈ w.wallets, x.userId = userId
  signed : ∀ userId ∈ w.signed, Settled w gs userId
  tokens : ∀ row ∈ w.tokens, Settled w gs row.userId
  known : ∀ g ∈ gs, g.Known w gs

theorem Point.pending_le_holds (g : Point) (userId : Uuid) : g.pending userId ≤ g.holds userId := by
  cases g <;> simp [Point.holds, Point.pending]

section Step

variable {w w' : World} {gs : List Point} {g k : Point} {i : Nat}

/-- What a step does to every user: none is unsettled, and no copy becomes wrong. -/
structure Keeps (w w' : World) (g k : Point) : Prop where
  settled : ∀ userId,
    g.pending userId + primaries w userId ≤ k.pending userId + primaries w' userId
  copied : ∀ x, Copied w x → Copied w' x

theorem Keeps.settle (h : Keeps w w' g k) (hg : gs[i]? = some g) {userId : Uuid}
    (hu : Settled w gs userId) : Settled w' (gs.set i k) userId := by
  have hsum := sum_map_set (f := Point.pending userId) (k := k) hg
  have := h.settled userId
  unfold Settled at hu ⊢
  omega

theorem Keeps.known (h : Keeps w w' g k) (hg : gs[i]? = some g) {x : Point} (hx : x.Known w gs) :
    x.Known w' (gs.set i k) := by
  cases x with
  | user userId => exact h.settle hg hx
  | removing wallet => exact ⟨h.settle hg hx.1, h.copied _ hx.2⟩
  | saving wallet => exact h.copied _ hx
  | _ => trivial

/-- **What an answer has to keep.** -/
theorem Books.move (h : Books w gs) (hg : gs[i]? = some g) (hkeeps : Keeps w w' g k)
    (hdistinct : Distinct w')
    (hroom : ∀ userId, k.holds userId + primaries w' userId + room w userId ≤
      g.holds userId + primaries w userId + room w' userId)
    (howned : ∀ x ∈ w'.wallets, (∃ y ∈ w.wallets, y.userId = x.userId) ∨
      Settled w' (gs.set i k) x.userId)
    (hkept : ∀ userId, 1 ≤ ((gs.set i k).map (Point.pending userId)).sum →
      ∃ x ∈ w'.wallets, x.userId = userId)
    (hsigned : ∀ userId ∈ w'.signed, userId ∈ w.signed ∨ Settled w' (gs.set i k) userId)
    (htokens : ∀ row ∈ w'.tokens, (∃ row' ∈ w.tokens, row'.userId = row.userId) ∨
      Settled w' (gs.set i k) row.userId)
    (hknown : k.Known w' (gs.set i k)) : Books w' (gs.set i k) := by
  refine ⟨hdistinct, fun userId => ?_, fun x hx => ?_, hkept, fun userId hu => ?_,
    fun row hrow => ?_, fun x hx => ?_⟩
  · have hsum := sum_map_set (f := Point.holds userId) (k := k) hg
    have := h.single userId
    have := hroom userId
    omega
  · rcases howned x hx with ⟨y, hy, heq⟩ | hx
    · exact heq ▸ hkeeps.settle hg (h.owned y hy)
    · exact hx
  · exact (hsigned userId hu).elim (fun hu => hkeeps.settle hg (h.signed userId hu)) id
  · rcases htokens row hrow with ⟨row', hrow', heq⟩ | hrow
    · exact heq ▸ hkeeps.settle hg (h.tokens row' hrow')
    · exact hrow
  · rcases List.mem_or_eq_of_mem_set hx with hx | rfl
    · exact hkeeps.known hg (h.known x hx)
    · exact hknown

theorem Books.start (h : Books w gs) (op : Operation) : Books w (gs ++ [begin op]) := by
  have hpending : ∀ userId, ((gs ++ [begin op]).map (Point.pending userId)).sum =
      (gs.map (Point.pending userId)).sum := fun userId => by
    rw [sum_map_append_singleton]
    cases op <;> rfl
  have hholds : ∀ userId, ((gs ++ [begin op]).map (Point.holds userId)).sum =
      (gs.map (Point.holds userId)).sum := fun userId => by
    rw [sum_map_append_singleton]
    cases op <;> rfl
  have hsettled : ∀ userId, Settled w (gs ++ [begin op]) userId ↔ Settled w gs userId :=
    fun userId => by unfold Settled; rw [hpending]
  refine ⟨h.distinct, fun userId => by rw [hholds]; exact h.single userId,
    fun x hx => (hsettled _).mpr (h.owned x hx),
    fun userId hu => h.kept userId (hpending userId ▸ hu),
    fun userId hu => (hsettled _).mpr (h.signed userId hu),
    fun row hrow => (hsettled _).mpr (h.tokens row hrow), fun g hg => ?_⟩
  rcases List.mem_append.mp hg with hg | hg
  · have hknown := h.known g hg
    cases g with
    | user userId => exact (hsettled _).mpr hknown
    | removing wallet => exact ⟨(hsettled _).mpr hknown.1, hknown.2⟩
    | _ => exact hknown
  · obtain rfl := List.mem_singleton.mp hg
    cases op <;> trivial

/-! ### Rows that keep their identity -/

theorem exists_of_identity {v : World} (hid : v.wallets.map identity = w.wallets.map identity)
    {x : WalletBinding} (hx : x ∈ v.wallets) : ∃ y ∈ w.wallets, identity y = identity x :=
  List.mem_map.mp (hid ▸ List.mem_map_of_mem hx)

theorem Distinct.of_identity (h : Distinct w)
    (hid : w'.wallets.map identity = w.wallets.map identity) (huuids : w.uuids ≤ w'.uuids) :
    Distinct w' := by
  have hids : ∀ rows : List WalletBinding, rows.map WalletBinding.id =
      (rows.map identity).map Prod.fst := fun rows => by rw [List.map_map]; rfl
  have hkeys : ∀ rows : List WalletBinding, rows.map WalletBinding.publicKey =
      (rows.map identity).map fun x => x.2.1 := fun rows => by rw [List.map_map]; rfl
  refine ⟨?_, ?_, fun x hx => ?_⟩
  · rw [hids, hid, ← hids]
    exact h.ids
  · rw [hkeys, hid, ← hkeys]
    exact h.keys
  · obtain ⟨y, hy, heq⟩ := exists_of_identity hid hx
    have hyid : y.id = x.id := congrArg Prod.fst heq
    exact hyid ▸ lt_of_lt_of_le (h.fresh y hy) huuids

theorem Copied.of_identity {x : WalletBinding} (h : Copied w x)
    (hid : w'.wallets.map identity = w.wallets.map identity) (huuids : w.uuids ≤ w'.uuids) :
    Copied w' x := by
  refine ⟨lt_of_lt_of_le h.1 huuids, fun row hrow hrowid => ?_⟩
  obtain ⟨y, hy, heq⟩ := exists_of_identity hid hrow
  have hyid : y.id = row.id := congrArg Prod.fst heq
  rw [← heq]
  exact h.2 y hy (hyid.trans hrowid)

/-- No wallet is bound or unbound. -/
theorem Books.same (h : Books w gs) (hg : gs[i]? = some g)
    (hid : w'.wallets.map identity = w.wallets.map identity) (huuids : w.uuids ≤ w'.uuids)
    (hsettled : ∀ userId, g.pending userId + primaries w userId ≤
      k.pending userId + primaries w' userId)
    (hroom : ∀ userId, k.holds userId + primaries w' userId + room w userId ≤
      g.holds userId + primaries w userId + room w' userId)
    (hpending : ∀ userId, k.pending userId ≤ g.pending userId)
    (hsigned : ∀ userId ∈ w'.signed, userId ∈ w.signed ∨ Settled w' (gs.set i k) userId)
    (htokens : ∀ row ∈ w'.tokens, (∃ row' ∈ w.tokens, row'.userId = row.userId) ∨
      Settled w' (gs.set i k) row.userId)
    (hknown : k.Known w' (gs.set i k)) : Books w' (gs.set i k) := by
  refine h.move hg ⟨hsettled, fun x hx => hx.of_identity hid huuids⟩
    (h.distinct.of_identity hid huuids) hroom (fun x hx => ?_) (fun userId hu => ?_) hsigned htokens
    hknown
  · obtain ⟨y, hy, heq⟩ := exists_of_identity hid hx
    exact .inl ⟨y, hy, congrArg (fun x => x.2.2) heq⟩
  · have hsum := sum_map_set (f := Point.pending userId) (k := k) hg
    have := hpending userId
    obtain ⟨x, hx, rfl⟩ := h.kept userId (by omega)
    obtain ⟨y, hy, heq⟩ := exists_of_identity (w := w') (v := w) hid.symm hx
    exact ⟨y, hy, congrArg (fun x => x.2.2) heq⟩

/-- Nothing happens to accounts, and tokens are at most revoked. -/
theorem Books.neutral (h : Books w gs) (hg : gs[i]? = some g) (hsame : SameAccounts w w')
    (htokens : ∀ row ∈ w'.tokens, ∃ row' ∈ w.tokens, row'.userId = row.userId)
    (hpending : ∀ userId, k.pending userId = g.pending userId)
    (hholds : ∀ userId, k.holds userId ≤ g.holds userId)
    (hknown : k.Known w' (gs.set i k)) : Books w' (gs.set i k) := by
  have hprimaries : ∀ userId, primaries w' userId = primaries w userId := fun userId => by
    unfold primaries
    rw [hsame.wallets]
  refine h.same hg (by rw [hsame.wallets]) hsame.uuids (fun userId => ?_) (fun userId => ?_)
    (fun userId => (hpending userId).le) (fun userId hu => .inl (hsame.signed ▸ hu))
    (fun row hrow => .inl (htokens row hrow)) hknown
  · rw [hpending, hprimaries]
  · have hroom : room w userId ≤ room w' userId := room_mono hsame.uuids
    have := hholds userId
    rw [hprimaries]
    omega

/-- A user is stored, without a wallet. -/
theorem Books.create (h : Books w gs) (hg : gs[i]? = some .signingIn) :
    Books { w with users := ⟨w.uuids, true⟩ :: w.users, uuids := w.uuids + 1 }
      (gs.set i (.creating w.uuids)) := by
  refine h.same hg rfl (Nat.le_succ _) (fun _ => Nat.le_refl _) (fun userId => ?_)
    (fun _ => Nat.le_refl _) (fun _ hu => .inl hu) (fun row hrow => .inl ⟨row, hrow, rfl⟩) trivial
  show (if w.uuids = userId then 1 else 0) + primaries w userId +
    (if (userId : Nat) < w.uuids then 1 else 0) ≤
      0 + primaries w userId + if (userId : Nat) < w.uuids + 1 then 1 else 0
  grind

/-- A user that is being created has no wallet. -/
theorem Books.creating_unbound (h : Books w gs) {userId : Uuid}
    (hg : gs[i]? = some (.creating userId)) : ∀ x ∈ w.wallets, x.userId ≠ userId := by
  rintro x hx rfl
  have howned := h.owned x hx
  have hsingle := h.single x.userId
  -- to bind the first wallet and to have a primary one excludes the other
  have hboth : 1 + (gs.map (Point.pending x.userId)).sum ≤ (gs.map (Point.holds x.userId)).sum := by
    have hset := sum_map_set (f := Point.holds x.userId) (k := .idle) hg
    have hset' := sum_map_set (f := Point.pending x.userId) (k := .idle) hg
    have hle : ((gs.set i .idle).map (Point.pending x.userId)).sum ≤
        ((gs.set i .idle).map (Point.holds x.userId)).sum :=
      List.sum_le_sum fun g _ => g.pending_le_holds _
    have hholds : Point.holds x.userId (.creating x.userId) = 1 := if_pos rfl
    have hidle : Point.holds x.userId .idle = 0 := rfl
    have hpending : Point.pending x.userId (.creating x.userId) = 0 := rfl
    have hpending' : Point.pending x.userId .idle = 0 := rfl
    omega
  unfold Settled at howned
  unfold room at hsingle
  split at hsingle <;> omega

theorem Books.unset (h : Books w gs) {userId : Uuid} (hg : gs[i]? = some (.creating userId)) :
    Books (w.setWallets (updateWhere (·.userId = userId) WalletBinding.demote w.wallets))
      (gs.set i (.creating userId)) := by
  rw [updateWhere_of_none fun x hx => decide_eq_false (h.creating_unbound hg x hx)]
  exact h.neutral hg ⟨rfl, rfl, rfl, Nat.le_refl _⟩ (fun row hrow => ⟨row, hrow, rfl⟩)
    (fun _ => rfl) (fun _ => Nat.le_refl _) trivial

/-- **A wallet is bound**, the first one as the primary one. -/
theorem Books.bind (h : Books w gs) (hg : gs[i]? = some g) {publicKey : String} {userId : Uuid}
    {isPrimary : Bool} {lastUsed : Int}
    (hcall : g = .creating userId ∧ isPrimary = true ∨ g = .user userId ∧ isPrimary = false)
    (hnew : ∀ x ∈ w.wallets, x.publicKey ≠ publicKey) :
    Books { w with
        wallets := w.wallets ++ [⟨w.uuids, publicKey, userId, isPrimary, some lastUsed⟩]
        uuids := w.uuids + 1 } (gs.set i (.user userId)) := by
  set x : WalletBinding := ⟨w.uuids, publicKey, userId, isPrimary, some lastUsed⟩
  set w' : World := { w with wallets := w.wallets ++ [x], uuids := w.uuids + 1 }
  have hprimaries : ∀ u, primaries w' u = primaries w u +
      if userId = u ∧ isPrimary = true then 1 else 0 := fun u => by
    unfold primaries
    rw [List.countP_append, List.countP_singleton]
    simp [x]
  have hkeeps : Keeps w w' g (.user userId) := by
    refine ⟨fun u => ?_, fun y hy => ⟨Nat.lt_succ_of_lt hy.1, fun row hrow hid => ?_⟩⟩
    · have hpending : g.pending u = 0 := by
        rcases hcall with ⟨rfl, -⟩ | ⟨rfl, -⟩ <;> rfl
      rw [hpending, hprimaries]
      show 0 + _ ≤ 0 + _
      omega
    · rcases List.mem_append.mp hrow with hrow | hrow
      · exact hy.2 row hrow hid
      · obtain rfl := List.mem_singleton.mp hrow
        exact absurd hid hy.1.ne'
  have hsettled : Settled w' (gs.set i (.user userId)) userId := by
    rcases hcall with ⟨-, rfl⟩ | ⟨rfl, -⟩
    · unfold Settled
      rw [hprimaries, if_pos ⟨rfl, rfl⟩]
      omega
    · exact hkeeps.settle hg (h.known _ (List.mem_of_getElem? hg))
  refine h.move hg hkeeps ⟨?_, ?_, fun y hy => ?_⟩ (fun u => ?_) (fun y hy => ?_) (fun u hu => ?_)
    (fun _ hu => .inl hu) (fun row hrow => .inl ⟨row, hrow, rfl⟩) hsettled
  · show ((w.wallets ++ [x]).map WalletBinding.id).Nodup
    rw [List.map_append, List.nodup_append]
    refine ⟨h.distinct.ids, List.nodup_singleton _, fun id hid id' hid' => ?_⟩
    obtain ⟨y, hy, rfl⟩ := List.mem_map.mp hid
    rw [List.mem_singleton.mp hid']
    exact (h.distinct.fresh y hy).ne
  · show ((w.wallets ++ [x]).map WalletBinding.publicKey).Nodup
    rw [List.map_append, List.nodup_append]
    refine ⟨h.distinct.keys, List.nodup_singleton _, fun key hkey key' hkey' => ?_⟩
    obtain ⟨y, hy, rfl⟩ := List.mem_map.mp hkey
    rw [List.mem_singleton.mp hkey']
    exact hnew y hy
  · rcases List.mem_append.mp hy with hy | hy
    · exact Nat.lt_succ_of_lt (h.distinct.fresh y hy)
    · obtain rfl := List.mem_singleton.mp hy
      exact Nat.lt_succ_self _
  · rw [hprimaries]
    have hroom : room w u ≤ room w' u := room_mono (Nat.le_succ _)
    have hholds : (if userId = u ∧ isPrimary = true then 1 else 0) ≤ g.holds u := by
      rcases hcall with ⟨rfl, rfl⟩ | ⟨rfl, rfl⟩
      · simp [Point.holds]
      · simp
    show 0 + _ + _ ≤ _
    omega
  · rcases List.mem_append.mp hy with hy | hy
    · exact .inl ⟨y, hy, rfl⟩
    · obtain rfl := List.mem_singleton.mp hy
      exact .inr hsettled
  · have hsum := sum_map_set (f := Point.pending u) (k := .user userId) hg
    have hpending : g.pending u = 0 := by rcases hcall with ⟨rfl, -⟩ | ⟨rfl, -⟩ <;> rfl
    have hpending' : Point.pending u (.user userId) = 0 := rfl
    obtain ⟨y, hy, heq⟩ := h.kept u (by omega)
    exact ⟨y, List.mem_append_left _ hy, heq⟩

/-- **A wallet is removed** that is stored as it was read, beside another one of the user. -/
theorem Books.remove (h : Books w gs) {wallet : WalletBinding}
    (hg : gs[i]? = some (.removing wallet))
    (hread : ∃ x ∈ w.wallets, x.id = wallet.id ∧ x.isPrimary = wallet.isPrimary)
    (hother : ∃ x ∈ w.wallets, x.userId = wallet.userId ∧ x.id ≠ wallet.id) :
    Books (w.setWallets (w.wallets.filter fun x => x.id ≠ wallet.id)) (gs.set i
      (if wallet.isPrimary then .promoting wallet.userId else .user wallet.userId)) := by
  obtain ⟨row, hrow, hid, hprimary⟩ := hread
  obtain ⟨hsettled, hcopied⟩ := h.known _ (List.mem_of_getElem? hg)
  have huser : row.userId = wallet.userId := congrArg (fun x => x.2.2) (hcopied.2 row hrow hid)
  set k : Point :=
    if wallet.isPrimary then .promoting wallet.userId else .user wallet.userId with hg'
  set w' : World := w.setWallets (w.wallets.filter fun x => x.id ≠ wallet.id)
  have hmem : ∀ x ∈ w'.wallets, x ∈ w.wallets := fun x hx => List.mem_of_mem_filter hx
  -- what is no longer primary is pending
  have hpending : ∀ u, k.pending u =
      if wallet.userId = u ∧ wallet.isPrimary = true then 1 else 0 := fun u => by
    rw [hg']
    split
    · next hp => simp [Point.pending, hp]
    · next hp => simp [Point.pending, hp]
  have hprimaries : ∀ u, primaries w' u +
      (if wallet.userId = u ∧ wallet.isPrimary = true then 1 else 0) = primaries w u := fun u => by
    have hremove := countP_remove h.distinct.ids hrow
      fun x => decide (x.userId = u ∧ x.isPrimary = true)
    simp only [decide_eq_true_eq, hid, huser, hprimary] at hremove
    exact hremove
  have hholds : ∀ u, k.holds u = k.pending u := fun u => by
    rw [hg']
    split <;> rfl
  have hkeeps : Keeps w w' (.removing wallet) k := by
    refine ⟨fun u => ?_, fun x hx => ⟨hx.1, fun row hrow => hx.2 row (hmem row hrow)⟩⟩
    have := hprimaries u
    rw [hpending]
    show 0 + _ ≤ _
    omega
  refine h.move hg hkeeps ⟨?_, ?_, fun x hx => h.distinct.fresh x (hmem x hx)⟩ (fun u => ?_)
    (fun x hx => .inl ⟨x, hmem x hx, rfl⟩) (fun u hu => ?_) (fun _ hu => .inl hu)
    (fun row hrow => .inl ⟨row, hrow, rfl⟩) ?_
  · exact h.distinct.ids.sublist (List.filter_sublist.map _)
  · exact h.distinct.keys.sublist (List.filter_sublist.map _)
  · have := hprimaries u
    rw [hholds, hpending]
    show _ + _ + room w u ≤ 0 + primaries w u + room w u
    omega
  · by_cases heq : wallet.userId = u
    · subst heq
      obtain ⟨x, hx, hxuser, hne⟩ := hother
      exact ⟨x, List.mem_filter.mpr ⟨hx, decide_eq_true hne⟩, hxuser⟩
    · have hsum := sum_map_set (f := Point.pending u) (k := k) hg
      rw [hpending, if_neg fun hboth => heq hboth.1] at hsum
      have hbefore : Point.pending u (.removing wallet) = 0 := rfl
      obtain ⟨x, hx, rfl⟩ := h.kept u (by omega)
      refine ⟨x, List.mem_filter.mpr ⟨hx, decide_eq_true fun hxid => heq ?_⟩, rfl⟩
      exact (congrArg (fun x => x.2.2) (hcopied.2 x hx hxid)).symm
  · have hstill := hkeeps.settle hg hsettled
    by_cases hp : wallet.isPrimary
    · have hpromoting : k = .promoting wallet.userId := if_pos hp
      rw [hpromoting]
      trivial
    · have huser : k = .user wallet.userId := if_neg hp
      rw [huser] at hstill ⊢
      exact hstill

/-- A wallet to promote is found. -/
theorem Books.find (h : Books w gs) {userId : Uuid} (hg : gs[i]? = some (.promoting userId))
    {x : WalletBinding} (hx : x ∈ w.wallets) (huser : x.userId = userId) :
    Books w (gs.set i (.saving x)) := by
  subst huser
  refine h.neutral hg ⟨rfl, rfl, rfl, Nat.le_refl _⟩ (fun row hrow => ⟨row, hrow, rfl⟩)
    (fun _ => rfl) (fun _ => Nat.le_refl _) ⟨h.distinct.fresh x hx, fun row hrow hid => ?_⟩
  rw [List.inj_on_of_nodup_map h.distinct.ids hrow hx hid]

/-- **It is promoted.** -/
theorem Books.promote (h : Books w gs) {x row : WalletBinding} (hg : gs[i]? = some (.saving x))
    (hrow : row ∈ w.wallets) (hid : row.id = x.id) :
    Books (w.setWallets (updateWhere (·.id = x.id) (fun _ => x.promote) w.wallets))
      (gs.set i (.user x.userId)) := by
  have hcopied : Copied w x := h.known _ (List.mem_of_getElem? hg)
  have huser : row.userId = x.userId := congrArg (fun x => x.2.2) (hcopied.2 row hrow hid)
  set w' : World := w.setWallets (updateWhere (·.id = x.id) (fun _ => x.promote) w.wallets)
  -- while a promotion is pending, no wallet of the user is primary
  have hnone : primaries w x.userId = 0 := by
    have hset := sum_map_set (f := Point.holds x.userId) (k := .idle) hg
    have hsaving : Point.holds x.userId (.saving x) = 1 := if_pos rfl
    have hidle : Point.holds x.userId .idle = 0 := rfl
    have hsingle := h.single x.userId
    unfold room at hsingle
    split at hsingle <;> omega
  have hnot : row.isPrimary = false := by
    have hrowp := List.countP_eq_zero.mp hnone row hrow
    simpa [huser] using hrowp
  have hprimaries : ∀ u, primaries w' u = primaries w u + if x.userId = u then 1 else 0 := fun u => by
    have hreplace := countP_replace h.distinct.ids hrow x.promote
      fun y => decide (y.userId = u ∧ y.isPrimary = true)
    have hq : (x.promote.userId = u ∧ x.promote.isPrimary = true) ↔ x.userId = u :=
      ⟨And.left, fun heq => ⟨heq, rfl⟩⟩
    simp only [decide_eq_true_eq, hid, hnot, hq, Bool.false_eq_true, and_false, if_false,
      Nat.add_zero] at hreplace
    exact hreplace
  have hidentity : w'.wallets.map identity = w.wallets.map identity :=
    map_updateWhere fun y hy hyid => (hcopied.2 y hy (of_decide_eq_true hyid)).symm
  have hpending : ∀ u, Point.pending u (.saving x) = if x.userId = u then 1 else 0 := fun u => rfl
  refine h.same hg hidentity (Nat.le_refl _) (fun u => ?_) (fun u => ?_) (fun u => Nat.zero_le _)
    (fun _ hu => .inl hu) (fun row hrow => .inl ⟨row, hrow, rfl⟩) ?_
  · rw [hpending, hprimaries]
    show _ ≤ 0 + _
    omega
  · rw [hprimaries]
    show 0 + _ + room w u ≤ (if x.userId = u then 1 else 0) + primaries w u + room w u
    omega
  · show Settled w' _ _
    unfold Settled
    rw [hprimaries, if_pos rfl]
    omega

/-- The wallet of a login is touched. -/
theorem Books.touch (h : Books w gs) {userId : Uuid} {publicKey : String} {lastUsed : Int}
    (hg : gs[i]? = some (.user userId)) :
    Books (w.setWallets (updateWhere (·.publicKey = publicKey) (·.touch lastUsed) w.wallets))
      (gs.set i (.user userId)) := by
  set w' : World := w.setWallets
    (updateWhere (·.publicKey = publicKey) (·.touch lastUsed) w.wallets)
  have hidentity : w'.wallets.map identity = w.wallets.map identity :=
    map_updateWhere fun _ _ _ => rfl
  have hprimaries : ∀ u, primaries w' u = primaries w u := fun u => by
    unfold primaries
    show (updateWhere _ _ w.wallets).countP _ = _
    rw [countP_updateWhere]
    refine List.countP_congr fun y _ => ?_
    split <;> rfl
  have hknown : Settled w gs userId := h.known _ (List.mem_of_getElem? hg)
  refine h.same hg hidentity (Nat.le_refl _) (fun u => by rw [hprimaries])
    (fun u => by rw [hprimaries]; exact Nat.le_refl _) (fun u => Nat.le_refl _)
    (fun _ hu => .inl hu) (fun row hrow => .inl ⟨row, hrow, rfl⟩) ?_
  exact Keeps.settle ⟨fun u => by rw [hprimaries], fun _ hx => hx.of_identity hidentity
    (Nat.le_refl _)⟩ hg hknown

/-- Nothing happens at all. -/
theorem Books.stay (h : Books w gs) (hg : gs[i]? = some g)
    (hpending : ∀ userId, k.pending userId = g.pending userId)
    (hholds : ∀ userId, k.holds userId ≤ g.holds userId) (hknown : k.Known w (gs.set i k)) :
    Books w (gs.set i k) :=
  h.neutral hg ⟨rfl, rfl, rfl, Nat.le_refl _⟩ (fun row hrow => ⟨row, hrow, rfl⟩) hpending hholds
    hknown

/-- Where a call stays, nothing it knows changes. -/
theorem Books.known_same (h : Books w gs) (hg : gs[i]? = some g) (hsame : SameAccounts w w') :
    g.Known w' (gs.set i g) := by
  have hprimaries : ∀ u, primaries w' u = primaries w u := fun u => by
    unfold primaries
    rw [hsame.wallets]
  refine Keeps.known ⟨fun u => by rw [hprimaries], fun x hx => hx.of_identity ?_ hsame.uuids⟩ hg
    (h.known g (List.mem_of_getElem? hg))
  rw [hsame.wallets]

/-- A user that is settled stays so where nothing happens. -/
theorem Settled.set {userId : Uuid} (h : Settled w gs userId) (hg : gs[i]? = some g)
    (hpending : ∀ userId, k.pending userId = g.pending userId) :
    Settled w (gs.set i k) userId :=
  Keeps.settle ⟨fun u => by rw [hpending], fun _ hx => hx⟩ hg h

/-- A request about nonces, or about nothing. -/
theorem Books.outside {c : Outside} {a : Request} {r : Answer a} (h : Books w gs)
    (hg : gs[i]? = some g) (ha : a.Within [.nonces]) (hx : answer c w a = some (r, w')) :
    Books w' (gs.set i g) := by
  have haccounts := answer_accounts (ha.ne (by decide)) hx
  have htokens := answer_tokens (ha.ne (by decide)) hx
  exact h.neutral hg haccounts (fun row hrow => ⟨row, htokens.tokens ▸ hrow, rfl⟩) (fun _ => rfl)
    (fun _ => Nat.le_refl _) (h.known_same hg haccounts)

/-- Tokens are revoked. -/
theorem Books.revoke (h : Books w gs) (hg : gs[i]? = some g) {p : RefreshToken → Bool} {now : Int}
    {event : TokenEvent} :
    Books (w.setTokens (updateWhere p (·.revoke now) w.tokens) event) (gs.set i g) := by
  have hsame : SameAccounts w (w.setTokens (updateWhere p (·.revoke now) w.tokens) event) :=
    ⟨rfl, rfl, rfl, Nat.le_refl _⟩
  refine h.neutral hg hsame (fun row hrow => ?_) (fun _ => rfl) (fun _ => Nat.le_refl _)
    (h.known_same hg hsame)
  obtain ⟨row', hrow', -, huser, -⟩ := exists_of_mem_revoke hrow
  exact ⟨row', hrow', huser.symm⟩

/-- A token is stored for the user of the call. -/
theorem Books.store (h : Books w gs) {token userId : Uuid} {expiresAt : Int} {p : Option Uuid}
    (hg : gs[i]? = some (.user userId)) :
    Books { w.setTokens (w.tokens ++ [⟨w.uuids, token, userId, expiresAt, false, none⟩])
      (.stored w.uuids userId p) with uuids := w.uuids + 1 } (gs.set i (.user userId)) := by
  set w' : World := { w.setTokens (w.tokens ++ [⟨w.uuids, token, userId, expiresAt, false, none⟩])
    (.stored w.uuids userId p) with uuids := w.uuids + 1 }
  have hsame : SameAccounts w w' := ⟨rfl, rfl, rfl, Nat.le_succ _⟩
  have hknown := h.known_same hg hsame
  refine h.same hg rfl (Nat.le_succ _) (fun _ => Nat.le_refl _) (fun userId => ?_)
    (fun _ => Nat.le_refl _) (fun _ hu => .inl hu) (fun row hrow => ?_) hknown
  · exact Nat.add_le_add_left (room_mono (Nat.le_succ _)) _
  · rcases List.mem_append.mp hrow with hrow | hrow
    · exact .inl ⟨row, hrow, rfl⟩
    · obtain rfl := List.mem_singleton.mp hrow
      exact .inr hknown

/-- An access token is signed for the user of the call. -/
theorem Books.sign (h : Books w gs) {userId : Uuid} (hg : gs[i]? = some (.user userId)) :
    Books { w with signed := userId :: w.signed } (gs.set i (.user userId)) := by
  have hknown : Settled { w with signed := userId :: w.signed } (gs.set i (.user userId)) userId :=
    (h.known _ (List.mem_of_getElem? hg) : Settled w gs userId).set hg fun _ => rfl
  refine h.same hg rfl (Nat.le_refl _) (fun _ => Nat.le_refl _) (fun _ => Nat.le_refl _)
    (fun _ => Nat.le_refl _) (fun u hu => ?_) (fun row hrow => .inl ⟨row, hrow, rfl⟩) hknown
  rcases List.mem_cons.mp hu with rfl | hu
  · exact .inr hknown
  · exact .inl hu

/-! ### One answer -/

section Answer

variable {c : Outside} {a : Request} {r : Answer a}

theorem Books.answered_idle (h : Books w gs) (hg : gs[i]? = some .idle) (hasks : asks .idle a)
    (hx : answer c w a = some (r, w')) :
    told .idle a r ∧ Books w' (gs.set i (next .idle a r)) := by
  have hidle : Books w (gs.set i .idle) :=
    h.stay hg (fun _ => rfl) (fun _ => Nat.le_refl _) trivial
  cases a with
  | verify token =>
    refine ⟨trivial, ?_⟩
    rcases attempt_cases hx with ⟨-, -, rfl, rfl⟩ | ⟨hrej, rfl, rfl⟩
    · exact hidle
    · have hsigned := of_decide_eq_true (require_eq_none.mp hrej).1
      refine h.stay (k := .user token.sub) hg (fun _ => rfl) (fun _ => Nat.le_refl _) ?_
      exact (h.signed _ hsigned).set hg fun _ => rfl
  | findToken token =>
    refine ⟨trivial, ?_⟩
    rcases attempt_cases hx with ⟨-, -, rfl, rfl⟩ | ⟨-, rfl, rfl⟩
    · exact hidle
    · cases hfind : w'.tokens.find? fun t => t.token = token with
      | none => exact hidle
      | some row =>
        refine h.stay (k := .user row.userId) hg (fun _ => rfl) (fun _ => Nat.le_refl _) ?_
        exact (h.tokens _ (List.mem_of_find?_eq_some hfind)).set hg fun _ => rfl
  | revokeAll userId now =>
    refine ⟨trivial, ?_⟩
    rcases attempt_cases hx with ⟨-, -, rfl, rfl⟩ | ⟨-, rfl, rfl⟩
    · exact hidle
    · exact h.revoke hg
  | _ => exact ⟨trivial, h.outside hg hasks hx⟩

theorem Books.answered_signingIn (h : Books w gs) (hg : gs[i]? = some .signingIn)
    (hasks : asks .signingIn a) (hx : answer c w a = some (r, w')) :
    told .signingIn a r ∧ Books w' (gs.set i (next .signingIn a r)) := by
  have hstay : Books w (gs.set i .signingIn) :=
    h.stay hg (fun _ => rfl) (fun _ => Nat.le_refl _) trivial
  cases a with
  | findWallet publicKey =>
    refine ⟨trivial, ?_⟩
    rcases attempt_cases hx with ⟨-, -, rfl, rfl⟩ | ⟨-, rfl, rfl⟩
    · exact hstay
    · cases hfind : w'.wallets.find? fun x => x.publicKey = publicKey with
      | none => exact hstay
      | some x =>
        cases huser : w'.findUser x.userId with
        | none =>
          show Books w' (gs.set i (next .signingIn (.findWallet publicKey)
            (.ok (some (x, w'.findUser x.userId)))))
          rw [huser]
          exact hstay
        | some user =>
          have hid : user.id = x.userId := w'.findUser_id huser
          show Books w' (gs.set i (next .signingIn (.findWallet publicKey)
            (.ok (some (x, w'.findUser x.userId)))))
          rw [huser]
          refine h.stay (k := .user user.id) hg (fun _ => rfl) (fun _ => Nat.le_refl _) ?_
          rw [hid]
          exact (h.owned _ (List.mem_of_find?_eq_some hfind)).set hg fun _ => rfl
  | saveUser =>
    refine ⟨trivial, ?_⟩
    rcases attempt_cases hx with ⟨-, -, rfl, rfl⟩ | ⟨-, rfl, rfl⟩
    · exact hstay
    · exact h.create hg
  | _ => exact ⟨trivial, h.outside hg hasks hx⟩

theorem Books.answered_creating (h : Books w gs) {userId : Uuid}
    (hg : gs[i]? = some (.creating userId)) (hasks : asks (.creating userId) a)
    (hx : answer c w a = some (r, w')) :
    told (.creating userId) a r ∧ Books w' (gs.set i (next (.creating userId) a r)) := by
  have hstay : Books w (gs.set i (.creating userId)) :=
    h.stay hg (fun _ => rfl) (fun _ => Nat.le_refl _) trivial
  cases a with
  | now => cases hx; exact ⟨trivial, hstay⟩
  | findWallet publicKey =>
    refine ⟨trivial, ?_⟩
    rcases attempt_cases hx with ⟨-, -, rfl, rfl⟩ | ⟨-, rfl, rfl⟩ <;> exact hstay
  | unsetPrimary u =>
    obtain rfl := hasks
    refine ⟨trivial, ?_⟩
    rcases attempt_cases hx with ⟨-, -, rfl, rfl⟩ | ⟨-, rfl, rfl⟩
    · exact hstay
    · exact h.unset hg
  | insertWallet publicKey u isPrimary lastUsed =>
    obtain ⟨rfl, rfl⟩ := hasks
    refine ⟨trivial, ?_⟩
    rcases attempt_cases hx with ⟨-, -, rfl, rfl⟩ | ⟨hrej, rfl, rfl⟩
    · exact h.stay hg (fun _ => rfl) (fun _ => Nat.zero_le _) trivial
    · have hnew := List.all_eq_true.mp (require_eq_none.mp hrej).1
      exact h.bind hg (.inl ⟨rfl, rfl⟩) fun x hx => of_decide_eq_true (hnew x hx)
  | _ => cases hasks

theorem Books.answered_user (h : Books w gs) {userId : Uuid} (hg : gs[i]? = some (.user userId))
    (hasks : asks (.user userId) a) (hx : answer c w a = some (r, w')) :
    told (.user userId) a r ∧ Books w' (gs.set i (next (.user userId) a r)) := by
  have hsettled : Settled w gs userId := h.known _ (List.mem_of_getElem? hg)
  have hstay : Books w (gs.set i (.user userId)) :=
    h.stay hg (fun _ => rfl) (fun _ => Nat.le_refl _) (hsettled.set hg fun _ => rfl)
  cases a with
  | findUser id =>
    refine ⟨?_, h.outside hg hasks hx⟩
    rcases attempt_cases hx with ⟨-, -, rfl, rfl⟩ | ⟨-, rfl, rfl⟩
    · trivial
    · cases hfind : w'.findUser id with
      | none => trivial
      | some user => exact w'.findUser_id hfind
  | findWallet publicKey =>
    refine ⟨trivial, ?_⟩
    rcases attempt_cases hx with ⟨-, -, rfl, rfl⟩ | ⟨-, rfl, rfl⟩ <;> exact hstay
  | findWalletOf publicKey u =>
    obtain rfl := hasks
    rcases attempt_cases hx with ⟨-, -, rfl, rfl⟩ | ⟨-, rfl, rfl⟩
    · exact ⟨trivial, hstay⟩
    · cases hfind : w'.wallets.find? fun x => x.publicKey = publicKey ∧ x.userId = u with
      | none => exact ⟨trivial, hstay⟩
      | some x =>
        have hrow := List.find?_some hfind
        obtain ⟨-, huser⟩ := of_decide_eq_true hrow
        have hx := List.mem_of_find?_eq_some hfind
        refine ⟨huser, h.stay (k := .removing x) hg (fun _ => rfl) (fun _ => Nat.le_refl _)
          ⟨?_, ?_⟩⟩
        · rw [huser]
          exact hsettled.set hg fun _ => rfl
        · refine ⟨h.distinct.fresh x hx, fun row hrow hid => ?_⟩
          rw [List.inj_on_of_nodup_map h.distinct.ids hrow hx hid]
  | touchWallet publicKey lastUsed =>
    refine ⟨trivial, ?_⟩
    rcases attempt_cases hx with ⟨-, -, rfl, rfl⟩ | ⟨-, rfl, rfl⟩
    · exact hstay
    · exact h.touch hg
  | updateRevoked id now =>
    refine ⟨trivial, ?_⟩
    rcases attempt_cases hx with ⟨-, -, rfl, rfl⟩ | ⟨-, rfl, rfl⟩
    · exact hstay
    · exact h.revoke hg
  | revokeAll u now =>
    refine ⟨trivial, ?_⟩
    rcases attempt_cases hx with ⟨-, -, rfl, rfl⟩ | ⟨-, rfl, rfl⟩
    · exact hstay
    · exact h.revoke hg
  | sign u =>
    obtain rfl := hasks
    refine ⟨trivial, ?_⟩
    rcases attempt_cases hx with ⟨-, -, rfl, rfl⟩ | ⟨-, rfl, rfl⟩
    · exact hstay
    · exact h.sign hg
  | saveToken token u expiresAt p =>
    obtain rfl := hasks
    refine ⟨trivial, ?_⟩
    rcases attempt_cases hx with ⟨-, -, rfl, rfl⟩ | ⟨-, rfl, rfl⟩
    · exact hstay
    · exact h.store hg
  | insertWallet publicKey u isPrimary lastUsed =>
    obtain ⟨rfl, rfl⟩ := hasks
    refine ⟨trivial, ?_⟩
    rcases attempt_cases hx with ⟨-, -, rfl, rfl⟩ | ⟨hrej, rfl, rfl⟩
    · exact hstay
    · have hnew := List.all_eq_true.mp (require_eq_none.mp hrej).1
      exact h.bind hg (.inr ⟨rfl, rfl⟩) fun x hx => of_decide_eq_true (hnew x hx)
  | _ => exact ⟨trivial, h.outside hg hasks hx⟩

/-- **One answer.** -/
theorem Books.answered (h : Books w gs) (hg : gs[i]? = some g) (hasks : asks g a)
    (hgood : UnbindsAlone w c.rejects a) (hx : answer c w a = some (r, w')) :
    told g a r ∧ Books w' (gs.set i (next g a r)) := by
  cases g with
  | idle => exact h.answered_idle hg hasks hx
  | signingIn => exact h.answered_signingIn hg hasks hx
  | creating userId => exact h.answered_creating hg hasks hx
  | user userId => exact h.answered_user hg hasks hx
  | removing wallet =>
    have hstay : Books w (gs.set i (.removing wallet)) :=
      h.stay hg (fun _ => rfl) (fun _ => Nat.le_refl _)
        (h.known_same hg ⟨rfl, rfl, rfl, Nat.le_refl _⟩)
    cases a with
    | countWallets u =>
      refine ⟨trivial, ?_⟩
      rcases attempt_cases hx with ⟨-, -, rfl, rfl⟩ | ⟨-, rfl, rfl⟩ <;> exact hstay
    | removeWallet x =>
      obtain rfl := hasks
      refine ⟨trivial, ?_⟩
      rcases attempt_cases hx with ⟨-, -, rfl, rfl⟩ | ⟨hrej, rfl, rfl⟩
      · exact hstay
      · exact h.remove hg (hgood hrej).1 (hgood hrej).2
    | _ => cases hasks
  | promoting userId =>
    cases a with
    | findAnyWallet u =>
      obtain rfl := hasks
      rcases attempt_cases hx with ⟨e, hrej, -, -⟩ | ⟨-, rfl, rfl⟩
      · cases hrej.symm.trans hgood
      · -- the user still has a wallet
        have hpos : 0 < (w'.wallets.filter fun x => x.userId = u).length := by
          have hset := sum_map_set (f := Point.pending u) (k := .idle) hg
          have hpromoting : Point.pending u (.promoting u) = 1 := if_pos rfl
          have hidle : Point.pending u .idle = 0 := rfl
          obtain ⟨x, hx, huser⟩ := h.kept u (by omega)
          exact List.length_pos_of_mem (List.mem_filter.mpr ⟨hx, decide_eq_true huser⟩)
        have hlt := Nat.mod_lt c.pick hpos
        set rows := w'.wallets.filter fun x => x.userId = u
        have hsome : rows[c.pick % rows.length]? = some rows[c.pick % rows.length] :=
          List.getElem?_eq_getElem hlt
        have hmem := List.mem_filter.mp (List.getElem_mem hlt)
        have huser := of_decide_eq_true hmem.2
        rw [hsome]
        exact ⟨⟨_, rfl, huser⟩, h.find hg hmem.1 huser⟩
    | _ => cases hasks
  | saving x =>
    cases a with
    | saveWallet y =>
      obtain rfl := hasks
      obtain ⟨hnone, row, hrow, hid⟩ := hgood
      have hcopied : Copied w x := h.known _ (List.mem_of_getElem? hg)
      have hnew : (w.wallets.all fun y => y.publicKey = x.promote.publicKey → y.id = x.promote.id) =
          true := by
        refine List.all_eq_true.mpr fun y hy => decide_eq_true fun hkey => ?_
        have hrowkey : row.publicKey = x.publicKey :=
          congrArg (fun x => x.2.1) (hcopied.2 row hrow hid)
        rw [List.inj_on_of_nodup_map h.distinct.keys hy hrow (hkey.trans hrowkey.symm)]
        exact hid
      have hany : (w.wallets.any fun y => y.id = x.promote.id) = true :=
        List.any_eq_true.mpr ⟨row, hrow, decide_eq_true hid⟩
      rcases attempt_cases hx with ⟨e, hrej, -, -⟩ | ⟨-, rfl, rfl⟩
      · rw [require_eq_none.mpr ⟨hnew, hnone⟩] at hrej
        cases hrej
      · rw [if_pos hany]
        have hpromote := h.promote hg hrow hid
        exact ⟨rfl, hpromote⟩
    | _ => cases hasks

end Answer

end Step

end Wallets

open Wallets in
/-- **Wallet bindings** once no call is under way, in every interleaving of calls in which every
accepted removal finds its wallet as it was read and another one of the user, and every promotion
goes through and finds its wallet stored: each wallet has one owner, and each user that logged in
has wallets, exactly one of them primary. -/
theorem wallets_sound {zone : Zone} {tr : Trace} {t : System} (h : Run (machine zone) tr t)
    (halone : ∀ e ∈ tr, StepUnbindsAlone e) (hquiet : t.Quiet) : WalletsSound t := by
  obtain ⟨gs, hbooks, hat⟩ := Async.interleave_obeys (P := protocol) (b := begin) (E := End)
    (J := fun _ w gs => Books w gs) (fun op _ => program_obeys zone op)
    (fun w hw => by
      subst hw
      exact ⟨⟨List.nodup_nil, List.nodup_nil, nofun⟩, fun _ => Nat.zero_le _, nofun, nofun, nofun,
        nofun, nofun⟩)
    (fun _ _ _ op _ _ _ hbooks => hbooks.start op)
    (fun _ e gs i a r g hgood hans _ hg hasks hbooks =>
      hbooks.answered hg hasks (hans.meets hgood) hans.answer) h halone
  have hended := Async.ends_of_quiet hat hquiet
  have hcalm : ∀ userId, (gs.map (Point.pending userId)).sum = 0 := fun userId => by
    refine List.sum_eq_zero fun n hn => ?_
    obtain ⟨g, hg, rfl⟩ := List.mem_map.mp hn
    obtain ⟨x, hx, -⟩ := hended g hg
    exact hx userId
  -- a user that logged in is known to the login
  have hone : ∀ userId, LoggedIn t userId → primaries t.world userId = 1 := by
    rintro userId ⟨dto, accessToken, refreshToken, user, hdone, rfl⟩
    obtain ⟨i, hi⟩ := List.mem_iff_getElem?.mp hdone
    obtain ⟨g, hg, hend⟩ := Async.exists_of_getElem? hat hi
    obtain rfl := hend.2 dto accessToken refreshToken user rfl
    have hsettled : Settled t.world gs user.id := hbooks.known _ (List.mem_of_getElem? hg)
    have hsingle := hbooks.single user.id
    unfold Settled at hsettled
    rw [hcalm] at hsettled
    unfold room at hsingle
    split at hsingle <;> omega
  refine ⟨fun x hx y hy hkey => ?_, fun userId hu => ?_, hone⟩
  · rw [List.inj_on_of_nodup_map hbooks.distinct.keys hx hy hkey]
  · have hpos : 0 < primaries t.world userId := by
      rw [hone userId hu]
      exact Nat.zero_lt_one
    obtain ⟨x, hx, huser⟩ := List.countP_pos_iff.mp hpos
    exact ⟨x, hx, (of_decide_eq_true huser).1⟩

/-! ### A user with two wallets -/

/-- The user 1 logs in with `G`, and binds `H` with the nonce 5. -/
def twoWallets : List (Outside × Async.Move Operation) :=
  nonceRequested ++ sampleLogin 0 :: resumes 1 19 ++
    (undisturbed, .start (.requestNonce "H")) :: resumes 2 3 ++
    (undisturbed, .start (.bindWallet ⟨1⟩ ⟨"H", "signature", 5⟩)) :: resumes 3 9

def sampleUnbind (publicKey : String) : Outside × Async.Move Operation :=
  (undisturbed, .start (.unbindWallet ⟨1⟩ publicKey))

theorem wallets_sound_sample :
    ∃ (tr : Trace) (t : System), Run (machine utc) tr t ∧
      t.world.wallets.map WalletBinding.publicKey = ["H"] ∧ WalletsSound t := by
  obtain ⟨tr, t, hrun, hok⟩ := Machine.exists_run_of_replay (m := machine utc)
    (s := ⟨World.empty, []⟩) ⟨rfl, rfl⟩ (twoWallets ++ sampleUnbind "G" :: resumes 4 7)
    (fun tr t => decide ((∀ e ∈ tr, StepUnbindsAlone e) ∧ t.Quiet ∧
      t.world.wallets.map WalletBinding.publicKey = ["H"]))
    (fun c _ => c.2.starts_of_true) (by decide) (by decide)
  obtain ⟨halone, hquiet, hkeys⟩ := of_decide_eq_true hok
  exact ⟨tr, t, hrun, hkeys, wallets_sound hrun halone hquiet⟩

/-- The task ended with a login of the user. -/
def endsLogin (userId : Uuid) : Async Request Answer (Operation × Except String Reply) → Bool
  | .done (.walletLogin _, .ok (.login _ _ user)) => user.id = userId
  | _ => false

theorem loggedIn_of_any {t : System} {userId : Uuid} (h : t.tasks.any (endsLogin userId) = true) :
    LoggedIn t userId := by
  obtain ⟨p, hp, hlogin⟩ := List.any_eq_true.mp h
  unfold endsLogin at hlogin
  split at hlogin
  · exact ⟨_, _, _, _, hp, of_decide_eq_true hlogin⟩
  · cases hlogin

/-- Both wallets are unbound after each call has counted two. -/
theorem wallets_all_unbound :
    ¬ ∀ (zone : Zone) (tr : Trace) (t : System), Run (machine zone) tr t → t.Quiet →
      WalletsSound t := by
  intro hall
  obtain ⟨tr, t, hrun, hok⟩ := Machine.exists_run_of_replay (m := machine utc)
    (s := ⟨World.empty, []⟩) ⟨rfl, rfl⟩
    (twoWallets ++ sampleUnbind "G" :: sampleUnbind "H" :: resumes 4 4 ++ resumes 5 5 ++
      resumes 4 2)
    (fun _ t => decide (t.Quiet ∧ t.world.wallets = []) && t.tasks.any (endsLogin 1))
    (fun c _ => c.2.starts_of_true) (by decide) (by decide)
  obtain ⟨hleft, hlogin⟩ := Bool.and_eq_true_iff.mp hok
  obtain ⟨hquiet, hnone⟩ := of_decide_eq_true hleft
  obtain ⟨x, hx, -⟩ := (hall utc tr t hrun hquiet).bound 1 (loggedIn_of_any hlogin)
  rw [hnone] at hx
  cases hx

end Stellara.Auth
