import Stellara.Auth.Footprints
import Mathlib.Data.List.Pairwise

/-!
# Refresh tokens

A rotation finds its token unrevoked, marks it, and then stores the successor.  Two rotations may
find the same token before either marks it, and a `revokeAllUserRefreshTokens` may come between
the mark and the successor, which it then misses:

    rotation:     find   mark                store the successor        (not revoked)
    revokeAll:                 revoke all

If every accepted mark finds its token unrevoked, and no successor is stored after its user's
tokens were all revoked since the mark, a token is exchanged once, and none that goes back to a
login before a `revokeAll` is exchanged after it (`rotation_closed`).
-/

namespace Stellara.Auth

/-- A successor of the token is stored. -/
def TokenEvent.Exchanges (id : Uuid) : TokenEvent → Bool
  | .stored _ _ (some parent) => parent = id
  | _ => false

/-- The token `id` goes back to the token `root` of a login. -/
inductive Derived (history : List TokenEvent) (root : Uuid) : Uuid → Prop
  | login {userId : Uuid} (h : .stored root userId none ∈ history) : Derived history root root
  | rotation {id id' userId : Uuid} (h : Derived history root id)
      (h' : .stored id' userId (some id) ∈ history) : Derived history root id'

/-- Every token is exchanged once at most; after all tokens of a user were revoked, none is that
goes back to a login of the user before. -/
structure RotationClosed (history : List TokenEvent) : Prop where
  once : ∀ id, history.countP (TokenEvent.Exchanges id) ≤ 1
  revoked : ∀ later userId earlier, history = later ++ .revokedAll userId :: earlier →
    ∀ root id, .stored root userId none ∈ earlier → Derived history root id →
      ∀ event ∈ later, ¬ event.Exchanges id

/-- What happened since all tokens of the user were revoked. -/
def since (userId : Uuid) (history : List TokenEvent) : List TokenEvent :=
  history.takeWhile fun event => event ≠ .revokedAll userId

/-- An accepted mark finds its token unrevoked, and a successor is stored only if the tokens of
the user were not all revoked since its mark. -/
def RotatesFresh (w : World) (rejects : Option String) : Request → Prop
  | .updateRevoked id _ =>
    rejects = none → ∃ row ∈ w.tokens, row.id = id ∧ row.revoked = false
  | .saveToken _ userId _ (some parent) =>
    rejects = none → .rotated parent ∈ since userId w.history
  | _ => True

instance (w : World) (rejects : Option String) : DecidablePred (RotatesFresh w rejects) :=
  fun a => by
    induction a using Request.casesOn with
    | saveToken _ _ _ successorOf =>
      induction successorOf using Option.casesOn <;> unfold RotatesFresh <;> infer_instance
    | _ => unfold RotatesFresh; infer_instance

abbrev StepRotatesFresh (e : Event Outside (Async.Move Operation) Unit System) : Prop :=
  Async.Meets (fun c w => RotatesFresh w c.rejects) e

namespace Rotation

open Block
open Async (obeying interleave_obeys attempt_cases sum_map_set sum_map_append_singleton)

/-! ## The way of a call -/

inductive Point
  | idle
  | accepted (id userId : Uuid)
  | rotating (id userId : Uuid)

def Point.holds (id : Uuid) : Point → Nat
  | .rotating id' _ => if id' = id then 1 else 0
  | _ => 0

/-- A request that is no part of a rotation. -/
def asks : Point → Request → Prop
  | .idle, a => a.Within [.nonces, .accounts] ∨ (∃ token, a = .findToken token) ∨
      (∃ userId now, a = .revokeAll userId now) ∨
      ∃ token userId expiresAt, a = .saveToken token userId expiresAt none
  | .accepted id _, a => a = .now ∨ ∃ now, a = .updateRevoked id now
  | .rotating id userId, a => a.Within [.nonces, .accounts] ∨
      ∃ token expiresAt, a = .saveToken token userId expiresAt (some id)

def next : Point → (a : Request) → Answer a → Point
  | .idle, .findToken _, .ok (some (row, _)) => .accepted row.id row.userId
  | .accepted id userId, .updateRevoked _ _, .ok _ => .rotating id userId
  | .accepted _ _, .updateRevoked _ _, .error _ => .idle
  | .rotating _ _, .saveToken _ _ _ _, _ => .idle
  | g, _, _ => g

abbrev protocol : Protocol Request Answer Point := ⟨asks, fun _ _ _ => True, next⟩

variable {zone : Zone}

theorem idle_neutral : protocol.Neutral (Request.Within [.nonces, .accounts]) .idle := by
  refine fun a h => ⟨.inl h, fun r => ?_⟩
  cases a with
  | findToken _ => cases h.ne (by decide) rfl
  | _ => rfl

theorem rotating_neutral {id userId : Uuid} :
    protocol.Neutral (Request.Within [.nonces, .accounts]) (.rotating id userId) := by
  refine fun a h => ⟨.inl h, fun r => ?_⟩
  cases a with
  | saveToken _ _ _ _ => cases h.ne (by decide) rfl
  | _ => rfl

/-- What is left of a call that has nothing more to do with a rotation. -/
theorem idle_obeys {α : Type} {m : On α} (h : Touches [.nonces, .accounts] m) :
    wp (obeying protocol) m (fun _ _ g => g = .idle) (fun _ _ _ => True) () .idle :=
  wp_mono (fun _ _ _ h => h) (fun _ _ _ _ => trivial) (h.obeys idle_neutral)

/-- **A token is stored** at a login, or as a successor. -/
theorem generateRefreshToken_obeys {userId : Uuid} {successorOf : Option Uuid} {g : Point}
    (hneutral : protocol.Neutral (Request.Within [.nonces, .accounts]) g)
    (hsave : ∀ token expiresAt, asks g (.saveToken token userId expiresAt successorOf) ∧
      ∀ r, next g (.saveToken token userId expiresAt successorOf) r = .idle) :
    wp (obeying protocol) (JwtAuthService.generateRefreshToken zone userId successorOf)
      (fun _ _ g => g = .idle) (fun _ _ _ => True) () g := by
  simp only [JwtAuthService.generateRefreshToken]
  rw [wp_bind]
  have huuid : Touches [.nonces, .accounts] uuidv4 := .request nofun
  refine wp_mono ?_ (fun _ _ _ _ => trivial) (huuid.obeys hneutral)
  rintro token _ g rfl
  rw [wp_bind]
  refine wp_mono ?_ (fun _ _ _ _ => trivial) (newDate_touches.obeys hneutral)
  rintro now _ g rfl
  rw [wp_bind]
  obtain ⟨hasks, hnext⟩ := hsave token (zone.addDays now 7)
  refine ⟨hasks, fun r _ => ?_⟩
  show Ends _ _ (r, ()) (next g _ r)
  rw [hnext r]
  cases r with
  | error e => trivial
  | ok saved =>
    exact idle_obeys (.bind (.request nofun) fun _ => .bind logAction_touches fun _ => .pure)

theorem rotate_obeys {row : RefreshToken} :
    wp (obeying protocol) (JwtAuthService.rotate zone row) (fun _ _ _ => True) (fun _ _ _ => True)
      () (.accepted row.id row.userId) := by
  simp only [JwtAuthService.rotate, JwtAuthService.revokeRefreshToken]
  rw [wp_bind, wp_bind]
  refine ⟨.inl rfl, fun now _ => ?_⟩
  show wp (obeying protocol) (request _ _ >>= _) _ _ () (.accepted row.id row.userId)
  rw [wp_bind]
  refine ⟨.inr ⟨_, rfl⟩, fun r _ => ?_⟩
  cases r with
  | error e => trivial
  | ok _ =>
    refine wp_mono ?_ (fun _ _ _ _ => trivial) (logAction_touches.obeys rotating_neutral)
    rintro _ _ g rfl
    rw [wp_bind]
    refine wp_mono ?_ (fun _ _ _ _ => trivial)
      ((generateAccessToken_touches (by decide)).obeys rotating_neutral)
    rintro accessToken _ g rfl
    rw [wp_bind]
    refine wp_mono ?_ (fun _ _ _ _ => trivial) (generateRefreshToken_obeys rotating_neutral
      fun token expiresAt => ⟨.inr ⟨token, expiresAt, rfl⟩, fun _ => rfl⟩)
    rintro newRefreshToken _ g rfl
    exact wp_mono (fun _ _ _ _ => trivial) (fun _ _ _ _ => trivial)
      (idle_obeys (.bind logAction_touches fun _ => .pure))

/-- The call obeys the protocol, wherever it ends. -/
def Obeys {α : Type} (m : On α) : Prop :=
  wp (obeying protocol) m (fun _ _ _ => True) (fun _ _ _ => True) () .idle

theorem Obeys.of_touches {α : Type} {m : On α} (h : Touches [.nonces, .accounts] m) : Obeys m :=
  wp_mono (fun _ _ _ _ => trivial) (fun _ _ _ _ => trivial) (h.obeys idle_neutral)

/-- First something that is no part of a rotation. -/
theorem Obeys.after {α β : Type} {m : On α} {f : α → On β} (h : Touches [.nonces, .accounts] m)
    (hf : ∀ x, Obeys (f x)) : Obeys (m >>= f) := by
  unfold Obeys
  rw [wp_bind]
  refine wp_mono ?_ (fun _ _ _ _ => trivial) (h.obeys idle_neutral)
  rintro x _ g rfl
  exact hf x

theorem refreshAccessToken_obeys {token : Uuid} :
    Obeys (JwtAuthService.refreshAccessToken zone token) := by
  simp only [Obeys, JwtAuthService.refreshAccessToken]
  rw [wp_bind]
  refine ⟨.inr (.inl ⟨token, rfl⟩), fun r _ => ?_⟩
  cases r with
  | error e => trivial
  | ok found =>
    cases found with
    | none => trivial
    | some found =>
      obtain ⟨row, user⟩ := found
      show wp (obeying protocol) (ensure _ _ >>= _) _ _ () (.accepted row.id row.userId)
      rw [wp_bind, wp_ensure]
      split
      · rw [wp_bind]
        refine ⟨.inl rfl, fun (now : Int) _ => ?_⟩
        show wp (obeying protocol) (ensure (decide (now ≤ row.expiresAt)) _ >>= _) _ _ ()
          (.accepted row.id row.userId)
        rw [wp_bind, wp_ensure]
        split
        · cases user with
          | none => trivial
          | some user =>
            show wp (obeying protocol) (ensure _ _ >>= _) _ _ () (.accepted row.id row.userId)
            rw [wp_bind, wp_ensure]
            split
            · exact rotate_obeys
            · trivial
        · trivial
      · trivial

theorem revokeAllUserRefreshTokens_obeys {userId : Uuid} {reply : Reply} :
    Obeys (JwtAuthService.revokeAllUserRefreshTokens userId >>= fun _ => pure reply) := by
  simp only [JwtAuthService.revokeAllUserRefreshTokens, Obeys]
  rw [wp_bind, wp_bind]
  refine wp_mono ?_ (fun _ _ _ _ => trivial) (newDate_touches.obeys idle_neutral)
  rintro now _ g rfl
  refine ⟨.inr (.inr (.inl ⟨userId, now, rfl⟩)), fun r _ => ?_⟩
  show Ends _ _ (r, ()) _
  cases r <;> trivial

theorem signIn_obeys {publicKey : String} : Obeys (signIn zone publicKey) := by
  have haccounts : Table.accounts ∈ [Table.nonces, .accounts] := by decide
  refine .after (findOrCreateUser_touches haccounts) fun user =>
    .after (updateLastUsed_touches haccounts) fun _ =>
      .after (generateAccessToken_touches haccounts) fun accessToken => ?_
  unfold Obeys
  rw [wp_bind]
  refine wp_mono (fun _ _ _ _ => trivial) (fun _ _ _ _ => trivial)
    (generateRefreshToken_obeys idle_neutral fun token expiresAt =>
      ⟨.inr (.inr (.inr ⟨token, user.id, expiresAt, rfl⟩)), fun _ => rfl⟩)

theorem program_obeys (zone : Zone) (op : Operation) :
    Async.wp (obeying protocol) (op.program zone) (fun _ _ => True) .idle := by
  refine Async.wp_labelled.mpr (wp_program.mpr ?_)
  show Obeys (op.block zone)
  have hnonces : Table.nonces ∈ [Table.nonces, .accounts] := by decide
  have haccounts : Table.accounts ∈ [Table.nonces, .accounts] := by decide
  cases op with
  | requestNonce publicKey => exact .of_touches (generateNonce_touches hnonces)
  | bindWallet token dto =>
    exact .of_touches (.bind (jwtAuthGuard_touches haccounts) fun _ =>
      .bind (consumeNonce_touches hnonces) fun _ =>
        .bind (bindWalletToUser_touches haccounts) fun _ => .pure)
  | unbindWallet token publicKey =>
    exact .of_touches (.bind (jwtAuthGuard_touches haccounts) fun _ =>
      .bind (unbindWallet_touches haccounts) fun _ => .pure)
  | cleanupExpiredNonces => exact .of_touches (cleanupExpiredNonces_touches hnonces)
  | walletLogin dto => exact .after (consumeNonce_touches hnonces) fun _ => signIn_obeys
  | refreshToken token => exact refreshAccessToken_obeys
  | logout token =>
    exact .after (jwtAuthGuard_touches haccounts) fun _ => revokeAllUserRefreshTokens_obeys
  | revokeAllUserRefreshTokens userId => exact revokeAllUserRefreshTokens_obeys

/-! ## What happened to tokens -/

def storedId : TokenEvent → Option Uuid
  | .stored id _ _ => some id
  | _ => none

/-- A token is stored once. -/
theorem eq_of_storedId {history : List TokenEvent} (hn : (history.filterMap storedId).Nodup)
    {x y : TokenEvent} {id : Uuid} (hx : x ∈ history) (hy : y ∈ history)
    (hxid : storedId x = some id) (hyid : storedId y = some id) : x = y := by
  by_contra hne
  have : Std.Symm fun a b : TokenEvent =>
      ∀ i, storedId a = some i → ∀ j, storedId b = some j → i ≠ j :=
    ⟨fun a b h i hi j hj heq => h j hj i hi heq.symm⟩
  exact (List.pairwise_filterMap.mp hn).forall hx hy hne id hxid id hyid rfl

theorem since_cons {userId : Uuid} {event : TokenEvent} {history : List TokenEvent}
    (h : event ≠ .revokedAll userId) :
    since userId (event :: history) = event :: since userId history :=
  List.takeWhile_cons_of_pos (decide_eq_true h)

theorem since_revokedAll {userId : Uuid} {history : List TokenEvent} :
    since userId (.revokedAll userId :: history) = [] :=
  List.takeWhile_cons_of_neg (by simp)

theorem mem_of_mem_since {userId : Uuid} {event : TokenEvent} {history : List TokenEvent}
    (h : event ∈ since userId history) : event ∈ history :=
  (List.takeWhile_sublist _).mem h

/-- What happened since is newer than a `revokedAll`. -/
theorem mem_later_of_mem_since {userId : Uuid} {event : TokenEvent}
    {later earlier : List TokenEvent}
    (h : event ∈ since userId (later ++ .revokedAll userId :: earlier)) : event ∈ later := by
  induction later with
  | nil =>
    rw [List.nil_append, since_revokedAll] at h
    cases h
  | cons x later ih =>
    by_cases hx : x = .revokedAll userId
    · subst hx
      rw [List.cons_append, since_revokedAll] at h
      cases h
    · rw [List.cons_append, since_cons hx] at h
      rcases List.mem_cons.mp h with rfl | h
      · exact List.mem_cons_self
      · exact List.mem_cons_of_mem _ (ih h)

/-- What the table and the history of tokens say of each other. -/
structure Ledger (w : World) : Prop where
  stored : ∀ row ∈ w.tokens, ∃ p, .stored row.id row.userId p ∈ w.history
  fresh : ∀ id userId p, .stored id userId p ∈ w.history → id < w.uuids
  nodup : (w.history.filterMap storedId).Nodup
  /-- an unrevoked token was stored since the last `revokedAll` of its user -/
  unrevoked : ∀ row ∈ w.tokens, row.revoked = false →
    ∃ p, .stored row.id row.userId p ∈ since row.userId w.history
  /-- and so was one that was marked since -/
  rotated : ∀ row ∈ w.tokens, .rotated row.id ∈ since row.userId w.history →
    ∃ p, .stored row.id row.userId p ∈ since row.userId w.history
  heirs : ∀ id' userId id, .stored id' userId (some id) ∈ w.history →
    ∃ p, .stored id userId p ∈ w.history
  /-- what is exchanged after a `revokedAll` was stored after it -/
  closed : ∀ later userId earlier, w.history = later ++ .revokedAll userId :: earlier →
    ∀ id' id, .stored id' userId (some id) ∈ later → ∃ p, .stored id userId p ∈ later

section Ledger

variable {w w' : World}

theorem Ledger.same_user (h : Ledger w) {id u u' : Uuid} {p p' : Option Uuid}
    (hx : .stored id u p ∈ w.history) (hy : .stored id u' p' ∈ w.history) : u = u' := by
  cases eq_of_storedId h.nodup hx hy rfl rfl
  rfl

/-- What was stored before is not stored after. -/
theorem Ledger.not_later (h : Ledger w) {later earlier : List TokenEvent} {event : TokenEvent}
    (hsplit : w.history = later ++ event :: earlier) {id u u' : Uuid} {p p' : Option Uuid}
    (hp : .stored id u p ∈ earlier) : .stored id u' p' ∉ later := by
  intro hp'
  have hnodup := h.nodup
  rw [hsplit, List.filterMap_append, List.nodup_append] at hnodup
  exact hnodup.2.2 id (List.mem_filterMap.mpr ⟨_, hp', rfl⟩) id
    (List.mem_filterMap.mpr ⟨_, List.mem_cons_of_mem _ hp, rfl⟩) rfl

theorem Ledger.same (h : Ledger w) (hsame : SameTokens w w') : Ledger w' := by
  obtain ⟨htokens, hhistory, huuids⟩ := hsame
  refine ⟨?_, ?_, ?_, ?_, ?_, ?_, ?_⟩
  · rw [htokens, hhistory]; exact h.stored
  · rw [hhistory]; exact fun id u p hin => lt_of_lt_of_le (h.fresh id u p hin) huuids
  · rw [hhistory]; exact h.nodup
  · rw [htokens, hhistory]; exact h.unrevoked
  · rw [htokens, hhistory]; exact h.rotated
  · rw [hhistory]; exact h.heirs
  · rw [hhistory]; exact h.closed

/-- The newest event keeps `closed`. -/
theorem closed_cons {event : TokenEvent} {history : List TokenEvent}
    (h : ∀ later userId earlier, history = later ++ .revokedAll userId :: earlier →
      ∀ id' id, .stored id' userId (some id) ∈ later → ∃ p, .stored id userId p ∈ later)
    (hevent : ∀ id' userId id, event = .stored id' userId (some id) →
      ∃ p, .stored id userId p ∈ since userId history) :
    ∀ later userId earlier, event :: history = later ++ .revokedAll userId :: earlier →
      ∀ id' id, .stored id' userId (some id) ∈ later → ∃ p, .stored id userId p ∈ later := by
  intro later userId earlier heq id' id hin
  cases later with
  | nil => cases hin
  | cons x later =>
    obtain ⟨rfl, rfl⟩ := List.cons.inj heq
    rcases List.mem_cons.mp hin with hnew | hin
    · obtain ⟨p, hp⟩ := hevent id' userId id hnew.symm
      exact ⟨p, List.mem_cons_of_mem _ (mem_later_of_mem_since hp)⟩
    · obtain ⟨p, hp⟩ := h later userId earlier rfl id' id hin
      exact ⟨p, List.mem_cons_of_mem _ hp⟩

/-- A token is stored at a login, or as the successor of one that was stored since. -/
theorem Ledger.store (h : Ledger w) {token userId : Uuid} {expiresAt : Int} {p : Option Uuid}
    (hp : ∀ id, p = some id → ∃ q, .stored id userId q ∈ since userId w.history) :
    Ledger { w.setTokens (w.tokens ++ [⟨w.uuids, token, userId, expiresAt, false, none⟩])
      (.stored w.uuids userId p) with uuids := w.uuids + 1 } := by
  have hsince : ∀ u, since u (.stored w.uuids userId p :: w.history) =
      .stored w.uuids userId p :: since u w.history := fun u => since_cons nofun
  refine ⟨fun row hrow => ?_, fun id u q hin => ?_, ?_, fun row hrow hunrevoked => ?_,
    fun row hrow hrotated => ?_, fun id' u id hin => ?_, ?_⟩
  · rcases List.mem_append.mp hrow with hrow | hrow
    · obtain ⟨q, hq⟩ := h.stored row hrow
      exact ⟨q, List.mem_cons_of_mem _ hq⟩
    · obtain rfl := List.mem_singleton.mp hrow
      exact ⟨p, List.mem_cons_self⟩
  · rcases List.mem_cons.mp hin with heq | hin
    · cases heq
      exact Nat.lt_succ_self _
    · exact Nat.lt_succ_of_lt (h.fresh id u q hin)
  · refine List.nodup_cons.mpr ⟨fun hin => ?_, h.nodup⟩
    obtain ⟨event, hevent, hid⟩ := List.mem_filterMap.mp hin
    cases event with
    | stored id u q =>
      cases hid
      exact Nat.lt_irrefl _ (h.fresh _ u q hevent)
    | rotated _ | revokedAll _ => cases hid
  · show ∃ q, _ ∈ since row.userId (.stored w.uuids userId p :: w.history)
    rw [hsince]
    rcases List.mem_append.mp hrow with hrow | hrow
    · obtain ⟨q, hq⟩ := h.unrevoked row hrow hunrevoked
      exact ⟨q, List.mem_cons_of_mem _ hq⟩
    · obtain rfl := List.mem_singleton.mp hrow
      exact ⟨p, List.mem_cons_self⟩
  · change _ ∈ since row.userId (.stored w.uuids userId p :: w.history) at hrotated
    show ∃ q, _ ∈ since row.userId (.stored w.uuids userId p :: w.history)
    rw [hsince] at hrotated ⊢
    rcases List.mem_append.mp hrow with hrow | hrow
    · obtain ⟨q, hq⟩ := h.rotated row hrow ((List.mem_cons.mp hrotated).resolve_left nofun)
      exact ⟨q, List.mem_cons_of_mem _ hq⟩
    · obtain rfl := List.mem_singleton.mp hrow
      exact ⟨p, List.mem_cons_self⟩
  · rcases List.mem_cons.mp hin with heq | hin
    · cases heq
      obtain ⟨q, hq⟩ := hp id rfl
      exact ⟨q, List.mem_cons_of_mem _ (mem_of_mem_since hq)⟩
    · obtain ⟨q, hq⟩ := h.heirs id' u id hin
      exact ⟨q, List.mem_cons_of_mem _ hq⟩
  · refine closed_cons h.closed fun id' u id heq => ?_
    cases heq
    exact hp id rfl

/-- Rows are revoked and nothing is stored: what is left to show is about what happened since. -/
theorem Ledger.revoking (h : Ledger w) {which : RefreshToken → Bool} {now : Int} {event : TokenEvent}
    (hnone : storedId event = none)
    (hunrevoked : ∀ row ∈ w.tokens, row.revoked = false → which row = false →
      ∃ p, .stored row.id row.userId p ∈ since row.userId (event :: w.history))
    (hrotated : ∀ row ∈ w.tokens, .rotated row.id ∈ since row.userId (event :: w.history) →
      ∃ p, .stored row.id row.userId p ∈ since row.userId (event :: w.history)) :
    Ledger (w.setTokens (updateWhere which (·.revoke now) w.tokens) event) := by
  have hstored : ∀ id u p, .stored id u p ∈ event :: w.history → .stored id u p ∈ w.history := by
    intro id u p hin
    refine (List.mem_cons.mp hin).resolve_left ?_
    rintro rfl
    cases hnone
  refine ⟨fun row hrow => ?_, fun id u q hin => h.fresh id u q (hstored id u q hin), ?_,
    fun row hrow hlive => ?_, fun row hrow hin => ?_, fun id' u id hin => ?_,
    closed_cons h.closed ?_⟩
  · obtain ⟨row', hrow', hrowid, huser, -⟩ := exists_of_mem_revoke hrow
    obtain ⟨q, hq⟩ := h.stored row' hrow'
    rw [hrowid, huser]
    exact ⟨q, List.mem_cons_of_mem _ hq⟩
  · show ((event :: w.history).filterMap storedId).Nodup
    rw [List.filterMap_cons_none hnone]
    exact h.nodup
  · obtain ⟨row', hrow', hrowid, huser, himp⟩ := exists_of_mem_revoke hrow
    rw [hrowid, huser]
    exact hunrevoked row' hrow' (himp hlive).1 (himp hlive).2
  · obtain ⟨row', hrow', hrowid, huser, -⟩ := exists_of_mem_revoke hrow
    rw [hrowid, huser] at hin ⊢
    exact hrotated row' hrow' hin
  · obtain ⟨q, hq⟩ := h.heirs id' u id (hstored id' u _ hin)
    exact ⟨q, List.mem_cons_of_mem _ hq⟩
  · rintro id' u id rfl
    cases hnone

theorem Ledger.mark (h : Ledger w) {id : Uuid} {now : Int}
    (hid : ∃ row ∈ w.tokens, row.id = id ∧ row.revoked = false) :
    Ledger (w.setTokens (updateWhere (·.id = id) (·.revoke now) w.tokens) (.rotated id)) := by
  have hsince : ∀ u, since u (.rotated id :: w.history) = .rotated id :: since u w.history :=
    fun u => since_cons nofun
  refine h.revoking rfl ?_ ?_
  · intro row hrow hlive _
    obtain ⟨q, hq⟩ := h.unrevoked row hrow hlive
    rw [hsince]
    exact ⟨q, List.mem_cons_of_mem _ hq⟩
  · intro row hrow hrotated
    rw [hsince] at hrotated ⊢
    rcases List.mem_cons.mp hrotated with heq | hrotated
    · -- the marked token is unrevoked
      obtain ⟨marked, hmarked, rfl, hunrevoked⟩ := hid
      obtain ⟨q, hq⟩ := h.unrevoked marked hmarked hunrevoked
      obtain ⟨q', hq'⟩ := h.stored row hrow
      have hids : row.id = marked.id := TokenEvent.rotated.inj heq
      rw [hids] at hq' ⊢
      rw [h.same_user hq' (mem_of_mem_since hq)]
      exact ⟨q, List.mem_cons_of_mem _ hq⟩
    · obtain ⟨q, hq⟩ := h.rotated row hrow hrotated
      exact ⟨q, List.mem_cons_of_mem _ hq⟩

theorem Ledger.revokeAll (h : Ledger w) {userId : Uuid} {now : Int} :
    Ledger (w.setTokens (updateWhere (fun t => t.userId = userId ∧ ¬ t.revoked) (·.revoke now)
      w.tokens) (.revokedAll userId)) := by
  have hsince : ∀ u, u ≠ userId →
      since u (.revokedAll userId :: w.history) = .revokedAll userId :: since u w.history :=
    fun u hu => since_cons fun heq => hu (TokenEvent.revokedAll.inj heq).symm
  refine h.revoking rfl ?_ ?_
  · intro row hrow hlive hother
    obtain ⟨q, hq⟩ := h.unrevoked row hrow hlive
    have hne : row.userId ≠ userId := fun heq =>
      of_decide_eq_false hother ⟨heq, by simp [hlive]⟩
    rw [hsince _ hne]
    exact ⟨q, List.mem_cons_of_mem _ hq⟩
  · intro row hrow hrotated
    by_cases hu : row.userId = userId
    · rw [hu, since_revokedAll] at hrotated
      cases hrotated
    · rw [hsince _ hu] at hrotated ⊢
      obtain ⟨q, hq⟩ := h.rotated row hrow ((List.mem_cons.mp hrotated).resolve_left nofun)
      exact ⟨q, List.mem_cons_of_mem _ hq⟩

/-- **A `revokeAll` closes the family** of every login before it. -/
theorem Ledger.family (h : Ledger w) {later earlier : List TokenEvent} {userId root id : Uuid}
    (hsplit : w.history = later ++ .revokedAll userId :: earlier)
    (hroot : .stored root userId none ∈ earlier) (hid : Derived w.history root id) :
    ∃ p, .stored id userId p ∈ earlier := by
  have hin : ∀ event ∈ earlier, event ∈ w.history := fun event he => by
    rw [hsplit]
    exact List.mem_append_right _ (List.mem_cons_of_mem _ he)
  induction hid with
  | login _ => exact ⟨none, hroot⟩
  | @rotation id id' userId' _ h' ih =>
    obtain ⟨p, hp⟩ := ih
    obtain ⟨q, hq⟩ := h.heirs id' userId' id h'
    obtain rfl := h.same_user (hin _ hp) hq
    rw [hsplit] at h'
    rcases List.mem_append.mp h' with hlater | h'
    · obtain ⟨q', hq'⟩ := h.closed later _ earlier hsplit id' id hlater
      exact absurd hq' (h.not_later hsplit hp)
    · exact ⟨some id, (List.mem_cons.mp h').resolve_left nofun⟩

end Ledger

/-! ## What the calls keep -/

/-- The rows of the token that are not revoked. -/
def unrevoked (w : World) (id : Uuid) : Nat :=
  w.tokens.countP fun row => row.id = id ∧ row.revoked = false

/-- The token of a rotation is stored. -/
def Point.Known (w : World) : Point → Prop
  | .idle => True
  | .accepted id userId | .rotating id userId => ∃ row ∈ w.tokens, row.id = id ∧ row.userId = userId

structure Books (w : World) (gs : List Point) : Prop where
  ledger : Ledger w
  single : ∀ id, (gs.map (Point.holds id)).sum + w.history.countP (TokenEvent.Exchanges id) +
    unrevoked w id ≤ room w id
  known : ∀ g ∈ gs, g.Known w

section Step

variable {w w' : World} {gs : List Point} {g k : Point} {i : Nat}

theorem Books.start (h : Books w gs) : Books w (gs ++ [.idle]) := by
  refine ⟨h.ledger, fun id => ?_, fun g hg => ?_⟩
  · rw [sum_map_append_singleton]
    exact h.single id
  · rcases List.mem_append.mp hg with hg | hg
    · exact h.known g hg
    · obtain rfl := List.mem_singleton.mp hg
      trivial

/-- Every row is still there, for the same user. -/
def Keeps (w w' : World) : Prop :=
  ∀ row ∈ w.tokens, ∃ row' ∈ w'.tokens, row'.id = row.id ∧ row'.userId = row.userId

theorem Point.Known.mono (hg : g.Known w) (h : Keeps w w') : g.Known w' := by
  cases g with
  | idle => trivial
  | accepted id userId | rotating id userId =>
    obtain ⟨row, hrow, rfl, rfl⟩ := hg
    exact h row hrow

/-- **What an answer has to keep.** -/
theorem Books.move (h : Books w gs) (hg : gs[i]? = some g) (hledger : Ledger w')
    (hkeeps : Keeps w w')
    (hsingle : ∀ id, k.holds id + w'.history.countP (TokenEvent.Exchanges id) + unrevoked w' id +
      room w id ≤
        g.holds id + w.history.countP (TokenEvent.Exchanges id) + unrevoked w id + room w' id)
    (hknown : k.Known w') : Books w' (gs.set i k) := by
  refine ⟨hledger, fun id => ?_, fun x hx => ?_⟩
  · have hsum := sum_map_set (f := Point.holds id) (k := k) hg
    have := h.single id
    have := hsingle id
    omega
  · rcases List.mem_or_eq_of_mem_set hx with hx | rfl
    · exact (h.known x hx).mono hkeeps
    · exact hknown

theorem Books.neutral (h : Books w gs) (hg : gs[i]? = some g) (hsame : SameTokens w w')
    (hholds : ∀ id, k.holds id ≤ g.holds id) (hknown : k.Known w) : Books w' (gs.set i k) := by
  have hkeeps : Keeps w w' := fun row hrow => ⟨row, hsame.tokens.symm ▸ hrow, rfl, rfl⟩
  refine h.move hg (h.ledger.same hsame) hkeeps (fun id => ?_) (hknown.mono hkeeps)
  have hunrevoked : unrevoked w' id = unrevoked w id := by unfold unrevoked; rw [hsame.tokens]
  have hroom : room w id ≤ room w' id := room_mono hsame.uuids
  have := hholds id
  rw [hunrevoked, hsame.history]
  omega

theorem keeps_revoke {p : RefreshToken → Bool} {now : Int} {event : TokenEvent} :
    Keeps w (w.setTokens (updateWhere p (·.revoke now) w.tokens) event) := by
  intro row hrow
  refine ⟨_, List.mem_map_of_mem hrow, ?_⟩
  split <;> exact ⟨rfl, rfl⟩

/-- Revoking makes no row unrevoked, and none that is revoked. -/
theorem unrevoked_revoke {p : RefreshToken → Bool} {now : Int} {event : TokenEvent} {id : Uuid} :
    unrevoked (w.setTokens (updateWhere p (·.revoke now) w.tokens) event) id =
      w.tokens.countP fun row => (row.id = id ∧ row.revoked = false) ∧ ¬ p row := by
  unfold unrevoked World.setTokens
  rw [countP_updateWhere]
  refine List.countP_congr fun row _ => ?_
  cases p row <;> simp [RefreshToken.revoke]

theorem Books.store (h : Books w gs) (hg : gs[i]? = some g) {token userId : Uuid}
    {expiresAt : Int} {p : Option Uuid}
    (hp : ∀ id, p = some id → ∃ q, .stored id userId q ∈ since userId w.history)
    (hholds : ∀ id, p = some id → g.holds id = 1) :
    Books { w.setTokens (w.tokens ++ [⟨w.uuids, token, userId, expiresAt, false, none⟩])
      (.stored w.uuids userId p) with uuids := w.uuids + 1 } (gs.set i .idle) := by
  refine h.move hg (h.ledger.store hp) (fun row hrow => ⟨row, List.mem_append_left _ hrow, rfl, rfl⟩)
    (fun id => ?_) trivial
  have hexchanges : (TokenEvent.stored w.uuids userId p :: w.history).countP
      (TokenEvent.Exchanges id) =
        w.history.countP (TokenEvent.Exchanges id) + if p = some id then 1 else 0 := by
    rw [List.countP_cons]
    cases p <;> simp [TokenEvent.Exchanges]
  let new : RefreshToken := ⟨w.uuids, token, userId, expiresAt, false, none⟩
  have hrows : (w.tokens ++ [new]).countP (fun row => row.id = id ∧ row.revoked = false) =
      unrevoked w id + if w.uuids = id then 1 else 0 := by
    rw [List.countP_append, List.countP_singleton]
    simp [unrevoked, new]
  have hroom : room w id + (if w.uuids = id then 1 else 0) ≤
      if (id : Nat) < w.uuids + 1 then 1 else 0 := by
    unfold room
    grind
  have hle : (if p = some id then 1 else 0) ≤ g.holds id := by
    split
    · next heq => rw [hholds id heq]
    · exact Nat.zero_le _
  show 0 + (TokenEvent.stored w.uuids userId p :: w.history).countP (TokenEvent.Exchanges id) +
    (w.tokens ++ [new]).countP (fun row => row.id = id ∧ row.revoked = false) + room w id ≤
    g.holds id + w.history.countP (TokenEvent.Exchanges id) + unrevoked w id +
      if (id : Nat) < w.uuids + 1 then 1 else 0
  rw [hexchanges, hrows]
  omega

/-- An unrevoked token is marked, and none is left. -/
theorem Books.mark (h : Books w gs) {id userId : Uuid} {now : Int}
    (hg : gs[i]? = some (.accepted id userId))
    (hid : ∃ row ∈ w.tokens, row.id = id ∧ row.revoked = false) :
    Books (w.setTokens (updateWhere (·.id = id) (·.revoke now) w.tokens) (.rotated id))
      (gs.set i (.rotating id userId)) := by
  refine h.move hg (h.ledger.mark hid) keeps_revoke (fun id' => ?_)
    (Point.Known.mono (g := .accepted id userId) (h.known _ (List.mem_of_getElem? hg)) keeps_revoke)
  have hleft : unrevoked (w.setTokens (updateWhere (·.id = id) (·.revoke now) w.tokens)
      (.rotated id)) id' + (if id = id' then 1 else 0) ≤ unrevoked w id' := by
    rw [unrevoked_revoke]
    split
    · next heq =>
      subst heq
      obtain ⟨row, hrow, hrowid, hunrevoked⟩ := hid
      have hpos : 0 < unrevoked w id :=
        List.countP_pos_iff.mpr ⟨row, hrow, decide_eq_true ⟨hrowid, hunrevoked⟩⟩
      have hnone : (w.tokens.countP fun row => decide ((row.id = id ∧ row.revoked = false) ∧
          ¬ decide (row.id = id) = true)) = 0 := by
        refine List.countP_eq_zero.mpr fun row _ => ?_
        simp
        tauto
      omega
    · refine List.countP_mono_left fun row _ hrow => ?_
      exact decide_eq_true (of_decide_eq_true hrow).1
  show (if id = id' then 1 else 0) + w.history.countP (TokenEvent.Exchanges id') + _ + room w id' ≤
    0 + w.history.countP (TokenEvent.Exchanges id') + unrevoked w id' + room w id'
  omega

theorem Books.revokeAll (h : Books w gs) {userId : Uuid} {now : Int} (hg : gs[i]? = some .idle) :
    Books (w.setTokens (updateWhere (fun t => t.userId = userId ∧ ¬ t.revoked) (·.revoke now)
      w.tokens) (.revokedAll userId)) (gs.set i .idle) := by
  refine h.move hg h.ledger.revokeAll keeps_revoke (fun id => ?_) trivial
  rw [unrevoked_revoke]
  have hle : (w.tokens.countP fun row => decide ((row.id = id ∧ row.revoked = false) ∧
      ¬ decide (row.userId = userId ∧ ¬ row.revoked) = true)) ≤ unrevoked w id :=
    List.countP_mono_left fun row _ hrow => decide_eq_true (of_decide_eq_true hrow).1
  show 0 + w.history.countP (TokenEvent.Exchanges id) + _ + room w id ≤
    0 + w.history.countP (TokenEvent.Exchanges id) + unrevoked w id + room w id
  omega

/-- **One answer.** -/
theorem Books.answered {c : Outside} {a : Request} {r : Answer a} (h : Books w gs)
    (hg : gs[i]? = some g) (hasks : asks g a) (hgood : RotatesFresh w c.rejects a)
    (hx : answer c w a = some (r, w')) : Books w' (gs.set i (next g a r)) := by
  have hrefl : SameTokens w w := ⟨rfl, rfl, Nat.le_refl _⟩
  cases g with
  | idle =>
    rcases hasks with hwithin | ⟨token, rfl⟩ | ⟨userId, now, rfl⟩ | ⟨token, userId, expiresAt, rfl⟩
    · have hstay : next .idle a r = .idle := (idle_neutral a hwithin).2 r
      rw [hstay]
      exact h.neutral hg (answer_tokens (hwithin.ne (by decide)) hx) (fun _ => Nat.le_refl _)
        trivial
    · rcases attempt_cases hx with ⟨-, -, rfl, rfl⟩ | ⟨-, rfl, rfl⟩
      · exact h.neutral hg hrefl (fun _ => Nat.le_refl _) trivial
      · cases hfind : w'.tokens.find? fun t => t.token = token with
        | none => exact h.neutral hg hrefl (fun _ => Nat.le_refl _) trivial
        | some row =>
          exact h.neutral (k := .accepted row.id row.userId) hg hrefl (fun _ => Nat.le_refl _)
            ⟨row, List.mem_of_find?_eq_some hfind, rfl, rfl⟩
    · rcases attempt_cases hx with ⟨-, -, rfl, rfl⟩ | ⟨-, rfl, rfl⟩
      · exact h.neutral hg hrefl (fun _ => Nat.le_refl _) trivial
      · exact h.revokeAll hg
    · rcases attempt_cases hx with ⟨-, -, rfl, rfl⟩ | ⟨-, rfl, rfl⟩
      · exact h.neutral hg hrefl (fun _ => Nat.le_refl _) trivial
      · exact h.store hg nofun nofun
  | accepted id userId =>
    have hknown := h.known _ (List.mem_of_getElem? hg)
    rcases hasks with rfl | ⟨now, rfl⟩
    · cases hx
      exact h.neutral hg hrefl (fun _ => Nat.le_refl _) hknown
    · rcases attempt_cases hx with ⟨-, -, rfl, rfl⟩ | ⟨hrej, rfl, rfl⟩
      · exact h.neutral hg hrefl (fun _ => Nat.le_refl _) trivial
      · exact h.mark hg (hgood hrej)
  | rotating id userId =>
    have hknown := h.known _ (List.mem_of_getElem? hg)
    rcases hasks with hwithin | ⟨token, expiresAt, rfl⟩
    · have hstay : next (.rotating id userId) a r = .rotating id userId :=
        (rotating_neutral a hwithin).2 r
      rw [hstay]
      exact h.neutral hg (answer_tokens (hwithin.ne (by decide)) hx) (fun _ => Nat.le_refl _) hknown
    · rcases attempt_cases hx with ⟨-, -, rfl, rfl⟩ | ⟨hrej, rfl, rfl⟩
      · exact h.neutral hg hrefl (fun _ => Nat.zero_le _) trivial
      · refine h.store hg (fun id' heq => ?_) (fun id' heq => ?_)
        · -- the token was marked since, so it was stored since
          cases heq
          obtain ⟨row, hrow, rfl, rfl⟩ := hknown
          exact h.ledger.rotated row hrow (hgood (require_eq_none.mp hrej).2)
        · cases heq
          exact if_pos rfl

end Step

end Rotation

open Rotation in
/-- **Rotation and revocation** in every interleaving of calls in which every accepted mark finds
its token unrevoked and no successor is stored after its user's tokens were all revoked since the
mark: a token is exchanged once at most, and after a `revokeAll` none is that goes back to a login
of the user before it. -/
theorem rotation_closed {zone : Zone} {tr : Trace} {t : System} (h : Run (machine zone) tr t)
    (hfresh : ∀ e ∈ tr, StepRotatesFresh e) : RotationClosed t.world.history := by
  obtain ⟨gs, hbooks, -⟩ := Async.interleave_obeys (P := protocol) (b := fun _ => .idle)
    (E := fun _ _ => True) (J := fun _ w gs => Books w gs) (fun op _ => program_obeys zone op)
    (fun w hw => by
      subst hw
      exact ⟨⟨nofun, nofun, List.nodup_nil, nofun, nofun, nofun, fun later _ _ heq => by
        cases later <;> cases heq⟩, fun _ => Nat.zero_le _, nofun⟩)
    (fun _ _ _ _ _ _ _ hbooks => hbooks.start)
    (fun _ e gs i a r g hgood hans _ hg hasks hbooks =>
      ⟨trivial, hbooks.answered hg hasks (hans.meets hgood) hans.answer⟩) h hfresh
  have hledger := hbooks.ledger
  constructor
  · intro id
    have hsingle := hbooks.single id
    unfold room at hsingle
    split at hsingle <;> omega
  · intro later userId earlier hsplit root id hroot hid event hevent hexchanges
    obtain ⟨p, hp⟩ := hledger.family hsplit hroot hid
    unfold TokenEvent.Exchanges at hexchanges
    split at hexchanges
    · next id' userId' parent =>
      obtain rfl := of_decide_eq_true hexchanges
      have hin : ∀ event ∈ later, event ∈ t.world.history := fun event he => by
        rw [hsplit]
        exact List.mem_append_left _ he
      have hpin : .stored parent userId p ∈ t.world.history := by
        rw [hsplit]
        exact List.mem_append_right _ (List.mem_cons_of_mem _ hp)
      obtain ⟨q, hq⟩ := hledger.heirs id' userId' parent (hin _ hevent)
      obtain rfl := hledger.same_user hpin hq
      obtain ⟨q', hq'⟩ := hledger.closed later _ earlier hsplit id' parent hevent
      exact hledger.not_later hsplit hp hq'
    · cases hexchanges

/-! ### A token of one login -/

/-- A login that is answered the token 3. -/
def loggedIn : List (Outside × Async.Move Operation) :=
  nonceRequested ++ sampleLogin 0 :: resumes 1 19

def sampleRefresh : Outside × Async.Move Operation := (undisturbed, .start (.refreshToken 3))

theorem rotation_closed_sample :
    ∃ (tr : Trace) (t : System), Run (machine utc) tr t ∧
      t.world.history.countP (TokenEvent.Exchanges 4) = 1 ∧ RotationClosed t.world.history := by
  obtain ⟨tr, t, hrun, hok⟩ := Machine.exists_run_of_replay (m := machine utc)
    (s := ⟨World.empty, []⟩) ⟨rfl, rfl⟩ (loggedIn ++ sampleRefresh :: resumes 2 12)
    (fun tr t => decide ((∀ e ∈ tr, StepRotatesFresh e) ∧
      t.world.history.countP (TokenEvent.Exchanges 4) = 1))
    (fun c _ => c.2.starts_of_true) (by decide) (by decide)
  obtain ⟨hfresh, hcount⟩ := of_decide_eq_true hok
  exact ⟨tr, t, hrun, hcount, rotation_closed hrun hfresh⟩

/-- Two rotations find the token unrevoked before either marks it. -/
theorem token_exchanged_twice :
    ¬ ∀ (zone : Zone) (tr : Trace) (t : System), Run (machine zone) tr t →
      RotationClosed t.world.history := by
  intro hall
  obtain ⟨tr, t, hrun, hok⟩ := Machine.exists_run_of_replay (m := machine utc)
    (s := ⟨World.empty, []⟩) ⟨rfl, rfl⟩
    (loggedIn ++ sampleRefresh :: sampleRefresh :: resumes 2 2 ++ resumes 3 2 ++ resumes 2 10 ++
      resumes 3 10)
    (fun _ t => decide (t.world.history.countP (TokenEvent.Exchanges 4) = 2))
    (fun c _ => c.2.starts_of_true) (by decide) (by decide)
  have htwice := of_decide_eq_true hok
  have honce := (hall utc tr t hrun).once 4
  omega

end Stellara.Auth
