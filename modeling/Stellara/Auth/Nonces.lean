import Stellara.Auth.Footprints

/-!
# Login nonces

A login or bind request finds its nonce unused, verifies a signature, and marks the nonce as used:

    request 1:   find (unused)                 verify   mark   …   success
    request 2:         find (unused)  verify                  mark   …   success

Both succeed.  If every accepted mark finds its nonce stored and unused, a nonce leads to at most
one success (`nonce_single_use`).
-/

namespace Stellara.Auth

/-- What a login or a bind request is given. -/
def Operation.login? : Operation → Option WalletLoginDto
  | .walletLogin dto | .bindWallet _ dto => some dto
  | _ => none

/-- A login or bind request with the nonce has succeeded. -/
def Succeeded (nonce : Uuid) : Async Request Answer (Operation × Except String Reply) → Bool
  | .done (op, .ok _) => op.login?.any fun dto => dto.nonce = nonce
  | _ => false

/-- In this step task `i` reads a clock that has not passed `expiresAt`. -/
def ReadsBy (i : Nat) (expiresAt : Int) (e : Event Outside (Async.Move Operation) Unit System) :
    Prop :=
  e.call = .resume i ∧ e.before.awaited i = some .now ∧ e.env.now ≤ expiresAt

/-- Task `i` marked the nonce after it had read a clock that had not passed `expiresAt`. -/
def UsedInTime (tr : Trace) (i : Nat) (nonce : Uuid) (expiresAt : Int) : Prop :=
  ∃ later mark earlier, tr = later ++ mark :: earlier ∧
    mark.call = .resume i ∧ mark.before.awaited i = some (.updateNonceUsed nonce) ∧
    ∃ e ∈ earlier, ReadsBy i expiresAt e

/-- Each nonce led to one success at most, with the public key it was issued for, and was used
before it expired. -/
structure SingleUse (tr : Trace) (t : System) : Prop where
  once : ∀ nonce, t.tasks.countP (Succeeded nonce) ≤ 1
  issued : ∀ (i : Nat) (op : Operation) (reply : Reply) (dto : WalletLoginDto),
    t.tasks[i]? = some (.done (op, .ok reply)) → op.login? = some dto →
    ∃ row ∈ t.world.issued, row.nonce = dto.nonce ∧ row.publicKey = dto.publicKey ∧
      UsedInTime tr i dto.nonce row.expiresAt

/-- An accepted mark finds the nonce stored and unused. -/
def MarksUnused (w : World) (rejects : Option String) : Request → Prop
  | .updateNonceUsed nonce =>
    rejects = none → ∃ row ∈ w.nonces, row.nonce = nonce ∧ row.used = false
  | _ => True

instance (w : World) (rejects : Option String) : DecidablePred (MarksUnused w rejects) :=
  fun a => by induction a using Request.casesOn <;> unfold MarksUnused <;> infer_instance

abbrev StepMarksUnused (e : Event Outside (Async.Move Operation) Unit System) : Prop :=
  Async.Meets (fun c w => MarksUnused w c.rejects) e

namespace Nonces

open Block
open Async (obeying Answered interleave_obeys attempt_cases sum_map_set sum_map_append_singleton
  countP_le_sum_map)

/-! ## The way of a call -/

inductive Point
  | idle
  | requesting
  | named (nonce : Uuid)
  | validating (nonce : Uuid) (publicKey : String)
  | found (nonce : Uuid) (publicKey : String) (expiresAt : Int)
  | checked (nonce : Uuid) (publicKey : String) (expiresAt : Int)
  | marked (nonce : Uuid) (publicKey : String) (expiresAt : Int)

/-- The call is about to store the nonce, or it has marked it. -/
def Point.holds (nonce : Uuid) : Point → Nat
  | .named n | .marked n _ _ => if n = nonce then 1 else 0
  | _ => 0

def asks : Point → Request → Prop
  | .requesting, a => a = .randomUUID
  | .named nonce, a =>
    a = .now ∨ ∃ publicKey expiresAt, a = .saveNonce ⟨nonce, publicKey, expiresAt, false⟩
  | .validating nonce publicKey, a => a = .findNonce nonce publicKey ∨ a.Within [.accounts]
  | .found _ _ _, a => a = .now
  | .checked nonce _ _, a =>
    a = .updateNonceUsed nonce ∨ ∃ publicKey signature message,
      a = .verifySignature publicKey signature message
  | .idle, a => (∃ now, a = .deleteExpiredNonces now) ∨ a.Within [.accounts, .tokens]
  | .marked _ _ _, a => a.Within [.accounts, .tokens]

def next : Point → (a : Request) → Answer a → Point
  | .requesting, .randomUUID, nonce => .named nonce
  | .named _, .saveNonce _, _ => .idle
  | .validating nonce publicKey, .findNonce _ _, .ok (some row) =>
    .found nonce publicKey row.expiresAt
  | .validating _ _, .findNonce _ _, _ => .idle
  | .found nonce publicKey expiresAt, .now, now =>
    let now : Int := now
    if now ≤ expiresAt then .checked nonce publicKey expiresAt else .idle
  | .checked nonce publicKey expiresAt, .updateNonceUsed _, .ok _ =>
    .marked nonce publicKey expiresAt
  | .checked _ _ _, .updateNonceUsed _, .error _ => .idle
  | g, _, _ => g

abbrev protocol : Protocol Request Answer Point := ⟨asks, fun _ _ _ => True, next⟩

def begin : Operation → Point
  | .requestNonce _ => .requesting
  | .walletLogin dto | .bindWallet _ dto => .validating dto.nonce dto.publicKey
  | _ => .idle

/-- A login or bind request that succeeded has marked its nonce. -/
def End (x : Operation × Except String Reply) (g : Point) : Prop :=
  ∀ reply, x.2 = .ok reply → ∀ dto, x.1.login? = some dto →
    ∃ expiresAt, g = .marked dto.nonce dto.publicKey expiresAt

variable {zone : Zone}

theorem generateNonce_obeys {publicKey : String} {Q : Reply → Unit → Point → Prop}
    {E : String → Unit → Point → Prop} (hQ : ∀ x g, Q x () g) (hE : ∀ e g, E e () g) :
    wp (obeying protocol) (NonceService.generateNonce zone publicKey) Q E () .requesting := by
  simp only [NonceService.generateNonce, wp_bind]
  refine ⟨rfl, fun nonce _ => ?_⟩
  show wp (obeying protocol) (newDate >>= _) Q E () (.named nonce)
  rw [wp_bind]
  refine ⟨.inl rfl, fun now _ => ?_⟩
  show wp (obeying protocol) (request _ _ >>= _) Q E () (.named nonce)
  rw [wp_bind]
  refine ⟨.inr ⟨_, _, rfl⟩, fun r _ => ?_⟩
  cases r with
  | error e => exact hE e _
  | ok _ => exact hQ _ _

/-- **The nonce of a login.** -/
theorem consumeNonce_obeys {dto : WalletLoginDto} {E : String → Unit → Point → Prop}
    (hE : ∀ e g, E e () g) :
    wp (obeying protocol) (consumeNonce dto)
      (fun _ _ g => ∃ expiresAt, g = .marked dto.nonce dto.publicKey expiresAt) E ()
      (.validating dto.nonce dto.publicKey) := by
  simp only [consumeNonce, NonceService.validateNonce, wp_bind]
  refine ⟨.inl rfl, fun r _ => ?_⟩
  cases r with
  | error e => exact hE e _
  | ok found =>
    cases found with
    | none => exact hE _ _
    | some row =>
      show wp (obeying protocol) (ensure _ _ >>= _) _ E ()
        (.found dto.nonce dto.publicKey row.expiresAt)
      rw [wp_bind, wp_ensure]
      split
      · rw [wp_bind]
        refine ⟨rfl, fun (now : Int) _ => ?_⟩
        show wp (obeying protocol) (ensure (decide (now ≤ row.expiresAt)) _ >>= _) _ E ()
          (if now ≤ row.expiresAt then .checked dto.nonce dto.publicKey row.expiresAt else .idle)
        rw [wp_bind, wp_ensure]
        split
        · next hnow =>
          rw [if_pos (of_decide_eq_true hnow)]
          show wp (obeying protocol) (verifySignature _ _ _ >>= _) _ E () _
          rw [wp_bind]
          refine ⟨.inr ⟨_, _, _, rfl⟩, fun (isValid : Bool) _ => ?_⟩
          show wp (obeying protocol) (ensure _ _ >>= _) _ E ()
            (.checked dto.nonce dto.publicKey row.expiresAt)
          rw [wp_bind, wp_ensure]
          split
          · refine ⟨.inl rfl, fun r _ => ?_⟩
            cases r with
            | error e => exact hE e _
            | ok _ => exact ⟨row.expiresAt, rfl⟩
          · exact hE _ _
        · exact hE _ _
      · exact hE _ _

theorem marked_neutral {nonce : Uuid} {publicKey : String} {expiresAt : Int} :
    protocol.Neutral (Request.Within [.accounts, .tokens]) (.marked nonce publicKey expiresAt) :=
  fun _ h => ⟨h, fun _ => rfl⟩

theorem idle_neutral : protocol.Neutral (Request.Within [.accounts, .tokens]) .idle := by
  refine fun a h => ⟨.inr h, fun r => ?_⟩
  cases a <;> rfl

theorem validating_neutral {nonce : Uuid} {publicKey : String} :
    protocol.Neutral (Request.Within [.accounts]) (.validating nonce publicKey) := by
  refine fun a h => ⟨.inr h, fun r => ?_⟩
  cases a with
  | findNonce _ _ => cases List.mem_singleton.mp (h _ rfl)
  | _ => rfl

/-- A call that has nothing to do with nonces. -/
theorem idle_obeys {op : Operation} {m : On Reply} (hm : Touches [.accounts, .tokens] m)
    (hop : op.login? = none) :
    wp (obeying protocol) m (fun x _ g => End (op, .ok x) g) (fun e _ g => End (op, .error e) g) ()
      .idle := by
  refine wp_mono ?_ ?_ (hm.obeys idle_neutral)
  · intro x _ g _ reply _ dto hdto
    cases hop.symm.trans hdto
  · intro e _ g _ reply hreply
    cases hreply

theorem program_obeys (zone : Zone) (op : Operation) :
    Async.wp (obeying protocol) (op.program zone) End (begin op) := by
  refine Async.wp_labelled.mpr (wp_program.mpr ?_)
  have herror : ∀ e g, End (op, .error e) g := fun e g reply hreply => by cases hreply
  have haccounts : Table.accounts ∈ [Table.accounts, .tokens] := by decide
  have htokens : Table.tokens ∈ [Table.accounts, .tokens] := by decide
  cases op with
  | requestNonce publicKey =>
    exact generateNonce_obeys (fun _ _ _ _ _ hdto => by cases hdto) herror
  | walletLogin dto =>
    show wp (obeying protocol) (consumeNonce dto >>= fun _ => signIn zone dto.publicKey) _ _ ()
      (.validating dto.nonce dto.publicKey)
    rw [wp_bind]
    refine wp_mono ?_ (fun e _ g h => h) (consumeNonce_obeys herror)
    rintro _ _ g ⟨expiresAt, rfl⟩
    refine wp_mono ?_ (fun e _ g _ => herror e g)
      ((signIn_touches htokens haccounts).obeys marked_neutral)
    rintro x _ g rfl reply _ dto' hdto
    cases hdto
    exact ⟨expiresAt, rfl⟩
  | bindWallet token dto =>
    show wp (obeying protocol) (jwtAuthGuard token >>= _) _ _ ()
      (.validating dto.nonce dto.publicKey)
    rw [wp_bind]
    refine wp_mono ?_ (fun e _ g _ => herror e g)
      ((jwtAuthGuard_touches (List.mem_singleton_self _)).obeys validating_neutral)
    rintro user _ g rfl
    rw [wp_bind]
    refine wp_mono ?_ (fun e _ g h => h) (consumeNonce_obeys herror)
    rintro _ _ g ⟨expiresAt, rfl⟩
    refine wp_mono ?_ (fun e _ g _ => herror e g)
      (Touches.obeys (.bind (bindWalletToUser_touches haccounts) fun _ => .pure) marked_neutral)
    rintro x _ g rfl reply _ dto' hdto
    cases hdto
    exact ⟨expiresAt, rfl⟩
  | refreshToken token => exact idle_obeys (refreshAccessToken_touches htokens haccounts) rfl
  | logout token =>
    exact idle_obeys (.bind (jwtAuthGuard_touches haccounts) fun _ =>
      .bind (revokeAllUserRefreshTokens_touches htokens) fun _ => .pure) rfl
  | unbindWallet token publicKey =>
    exact idle_obeys (.bind (jwtAuthGuard_touches haccounts) fun _ =>
      .bind (unbindWallet_touches haccounts) fun _ => .pure) rfl
  | revokeAllUserRefreshTokens userId =>
    exact idle_obeys (.bind (revokeAllUserRefreshTokens_touches htokens) fun _ => .pure) rfl
  | cleanupExpiredNonces =>
    show wp (obeying protocol) (newDate >>= _) _ _ () .idle
    rw [wp_bind]
    refine ⟨.inr nofun, fun now _ => ?_⟩
    show wp (obeying protocol) (request _ _ >>= _) _ _ () .idle
    rw [wp_bind]
    refine ⟨.inl ⟨_, rfl⟩, fun r _ => ?_⟩
    cases r with
    | error e => exact herror e _
    | ok _ =>
      intro reply _ dto hdto
      cases hdto

/-! ## What the calls keep -/

/-- The nonce was stored once. -/
def Issued (w : World) (nonce : Uuid) (publicKey : String) (expiresAt : Int) : Prop :=
  ∃ row ∈ w.issued, row.nonce = nonce ∧ row.publicKey = publicKey ∧ row.expiresAt = expiresAt

/-- What task `i` knows of its nonce. -/
def Known (tr : Trace) (w : World) (i : Nat) : Point → Prop
  | .found nonce publicKey expiresAt => Issued w nonce publicKey expiresAt
  | .checked nonce publicKey expiresAt =>
    Issued w nonce publicKey expiresAt ∧ ∃ e ∈ tr, ReadsBy i expiresAt e
  | .marked nonce publicKey expiresAt =>
    Issued w nonce publicKey expiresAt ∧ UsedInTime tr i nonce expiresAt
  | _ => True

theorem Known.mono {tr : Trace} {w w' : World} {i : Nat} {g : Point}
    {e : Event Outside (Async.Move Operation) Unit System} (h : Known tr w i g)
    (hissued : ∀ row ∈ w.issued, row ∈ w'.issued) : Known (e :: tr) w' i g := by
  have himp : ∀ {nonce publicKey expiresAt}, Issued w nonce publicKey expiresAt →
      Issued w' nonce publicKey expiresAt := fun ⟨row, hrow, hrest⟩ => ⟨row, hissued row hrow, hrest⟩
  cases g with
  | found nonce publicKey expiresAt => exact himp h
  | checked nonce publicKey expiresAt =>
    obtain ⟨hi, e', he', hread⟩ := h
    exact ⟨himp hi, e', List.mem_cons_of_mem _ he', hread⟩
  | marked nonce publicKey expiresAt =>
    obtain ⟨hi, later, mark, earlier, rfl, hmark⟩ := h
    exact ⟨himp hi, e :: later, mark, earlier, rfl, hmark⟩
  | _ => trivial

/-- The rows of the nonce that are not used. -/
def unused (w : World) (nonce : Uuid) : Nat :=
  w.nonces.countP fun row => row.nonce = nonce ∧ row.used = false

structure Books (tr : Trace) (w : World) (gs : List Point) : Prop where
  single : ∀ nonce, (gs.map (Point.holds nonce)).sum + unused w nonce ≤ room w nonce
  stored : ∀ row ∈ w.nonces, Issued w row.nonce row.publicKey row.expiresAt
  known : ∀ i g, gs[i]? = some g → Known tr w i g

section Step

variable {tr : Trace} {w w' : World} {gs : List Point} {g g' : Point} {i : Nat}
  {e : Event Outside (Async.Move Operation) Unit System}

theorem Books.start (h : Books tr w gs) (op : Operation) :
    Books (e :: tr) w (gs ++ [begin op]) := by
  refine ⟨fun nonce => ?_, h.stored, fun j g hj => ?_⟩
  · have hsingle := h.single nonce
    have hbegin : (begin op).holds nonce = 0 := by cases op <;> rfl
    rw [sum_map_append_singleton, hbegin]
    exact hsingle
  · rcases List.getElem?_append.symm.trans hj with hj
    split at hj
    · exact (h.known j g hj).mono fun _ hrow => hrow
    · obtain rfl := List.mem_singleton.mp (List.mem_of_getElem? hj)
      cases op <;> trivial

/-- **What an answer has to keep.** -/
theorem Books.move (h : Books tr w gs) (hg : gs[i]? = some g)
    (hissued : ∀ row ∈ w.issued, row ∈ w'.issued)
    (hstored : ∀ row ∈ w'.nonces, Issued w' row.nonce row.publicKey row.expiresAt)
    (hsingle : ∀ nonce, g'.holds nonce + unused w' nonce + room w nonce ≤
      g.holds nonce + unused w nonce + room w' nonce)
    (hknown : Known (e :: tr) w' i g') : Books (e :: tr) w' (gs.set i g') := by
  refine ⟨fun nonce => ?_, hstored, fun j x hj => ?_⟩
  · have hsum := sum_map_set (f := Point.holds nonce) (k := g') hg
    have := h.single nonce
    have := hsingle nonce
    omega
  · rw [List.getElem?_set] at hj
    split at hj
    · next heq =>
      subst heq
      split at hj
      · cases hj
        exact hknown
      · cases hj
    · exact (h.known j x hj).mono hissued

/-- Nothing about nonces happens. -/
theorem Books.neutral (h : Books tr w gs) (hg : gs[i]? = some g) (hsame : SameNonces w w')
    (hholds : ∀ nonce, g'.holds nonce ≤ g.holds nonce) (hknown : Known (e :: tr) w' i g') :
    Books (e :: tr) w' (gs.set i g') := by
  have hissued : ∀ row ∈ w.issued, row ∈ w'.issued := fun row hrow => hsame.issued.symm ▸ hrow
  refine h.move hg hissued (fun row hrow => ?_) (fun nonce => ?_) hknown
  · obtain ⟨row', hrow', hrest⟩ := h.stored row (hsame.nonces ▸ hrow)
    exact ⟨row', hissued row' hrow', hrest⟩
  · have hroom : room w nonce ≤ room w' nonce := room_mono hsame.uuids
    have hunused : unused w' nonce = unused w nonce := by unfold unused; rw [hsame.nonces]
    have := hholds nonce
    rw [hunused]
    omega

/-- A nonce is named: the next UUID. -/
theorem Books.name (h : Books tr w gs) (hg : gs[i]? = some .requesting) :
    Books (e :: tr) { w with uuids := w.uuids + 1 } (gs.set i (.named w.uuids)) := by
  refine h.move hg (fun _ hrow => hrow) h.stored (fun nonce => ?_) trivial
  show (if w.uuids = nonce then 1 else 0) + unused w nonce + (if nonce < w.uuids then 1 else 0) ≤
    0 + unused w nonce + if (nonce : Nat) < w.uuids + 1 then 1 else 0
  grind

/-- It is stored. -/
theorem Books.store {nonce : Uuid} {publicKey : String} {expiresAt : Int} (h : Books tr w gs)
    (hg : gs[i]? = some (.named nonce)) :
    Books (e :: tr) { w with nonces := w.nonces ++ [⟨nonce, publicKey, expiresAt, false⟩]
                             issued := ⟨nonce, publicKey, expiresAt, false⟩ :: w.issued }
      (gs.set i .idle) := by
  refine h.move hg (fun _ hrow => List.mem_cons_of_mem _ hrow) (fun row hrow => ?_) (fun n => ?_)
    trivial
  · rcases List.mem_append.mp hrow with hrow | hrow
    · obtain ⟨row', hrow', hrest⟩ := h.stored row hrow
      exact ⟨row', List.mem_cons_of_mem _ hrow', hrest⟩
    · rw [List.mem_singleton.mp hrow]
      exact ⟨_, List.mem_cons_self, rfl, rfl, rfl⟩
  · have hunused : unused { w with
        nonces := w.nonces ++ [⟨nonce, publicKey, expiresAt, false⟩]
        issued := ⟨nonce, publicKey, expiresAt, false⟩ :: w.issued } n =
          unused w n + if nonce = n then 1 else 0 := by
      unfold unused
      rw [List.countP_append, List.countP_singleton]
      simp
    rw [hunused]
    show 0 + _ + room w n ≤ (if nonce = n then 1 else 0) + _ + room w n
    omega

/-- It is marked, and was unused. -/
theorem Books.mark {nonce : Uuid} {publicKey : String} {expiresAt : Int} (h : Books tr w gs)
    (hg : gs[i]? = some (.checked nonce publicKey expiresAt)) (hcall : e.call = .resume i)
    (hawaited : e.before.awaited i = some (.updateNonceUsed nonce))
    (hunused : ∃ row ∈ w.nonces, row.nonce = nonce ∧ row.used = false) :
    Books (e :: tr) (w.setNonces (updateWhere (·.nonce = nonce) LoginNonce.use w.nonces))
      (gs.set i (.marked nonce publicKey expiresAt)) := by
  obtain ⟨hissued, hread⟩ := h.known i _ hg
  refine h.move hg (fun _ hrow => hrow) (fun row hrow => ?_) (fun n => ?_)
    ⟨hissued, [], e, tr, rfl, hcall, hawaited, hread⟩
  · obtain ⟨row', hrow', rfl⟩ := List.mem_map.mp hrow
    have hstored := h.stored row' hrow'
    split <;> exact hstored
  · have hlast : unused (w.setNonces (updateWhere (·.nonce = nonce) LoginNonce.use w.nonces)) n +
        (if nonce = n then 1 else 0) ≤ unused w n := by
      unfold unused World.setNonces
      rw [countP_updateWhere]
      split
      · next heq =>
        subst heq
        obtain ⟨row, hrow, hnonce, hused⟩ := hunused
        have hpos : 0 < w.nonces.countP fun row => row.nonce = nonce ∧ row.used = false :=
          List.countP_pos_iff.mpr ⟨row, hrow, decide_eq_true ⟨hnonce, hused⟩⟩
        have hnone : (w.nonces.countP fun row =>
            decide ((if row.nonce = nonce then row.use else row).nonce = nonce ∧
              (if row.nonce = nonce then row.use else row).used = false)) = 0 := by
          refine List.countP_eq_zero.mpr fun row _ => ?_
          by_cases hn : row.nonce = nonce <;> simp [hn, LoginNonce.use]
        simp only [decide_eq_true_eq]
        omega
      · next hne =>
        refine Nat.le_of_eq (List.countP_congr fun row _ => ?_)
        by_cases hn : row.nonce = nonce
        · simp [hn, LoginNonce.use, hne]
        · simp [hn]
    show (if nonce = n then 1 else 0) + _ + room w n ≤ 0 + unused w n + room w n
    omega

/-- **One answer.** -/
theorem Books.answered {c : Outside} {a : Request} {r : Answer a} (h : Books tr w gs)
    (hg : gs[i]? = some g) (hasks : asks g a) (hcall : e.call = .resume i) (henv : e.env = c)
    (hawaited : e.before.awaited i = some a) (hgood : MarksUnused w c.rejects a)
    (hx : answer c w a = some (r, w')) : Books (e :: tr) w' (gs.set i (next g a r)) := by
  have hrefl : SameNonces w w := ⟨rfl, rfl, Nat.le_refl _⟩
  cases g with
  | requesting =>
    obtain rfl := hasks
    cases hx
    exact h.name hg
  | named nonce =>
    rcases hasks with rfl | ⟨publicKey, expiresAt, rfl⟩
    · cases hx
      exact h.neutral hg hrefl (fun _ => Nat.le_refl _) trivial
    · rcases attempt_cases hx with ⟨-, -, rfl, rfl⟩ | ⟨-, rfl, rfl⟩
      · exact h.neutral hg hrefl (fun _ => Nat.zero_le _) trivial
      · exact h.store hg
  | validating nonce publicKey =>
    rcases hasks with rfl | hwithin
    · rcases attempt_cases hx with ⟨-, -, rfl, rfl⟩ | ⟨-, rfl, rfl⟩
      · exact h.neutral hg hrefl (fun _ => Nat.le_refl _) trivial
      · cases hfind : w'.nonces.find? fun n => n.nonce = nonce ∧ n.publicKey = publicKey with
        | none => exact h.neutral hg hrefl (fun _ => Nat.le_refl _) trivial
        | some row =>
          have hrow := List.find?_some hfind
          obtain ⟨hnonce, hkey⟩ := of_decide_eq_true hrow
          refine h.neutral hg hrefl (fun _ => Nat.le_refl _) ?_
          have hissued := h.stored row (List.mem_of_find?_eq_some hfind)
          rwa [hnonce, hkey] at hissued
    · have hstay : next (.validating nonce publicKey) a r = .validating nonce publicKey :=
        (validating_neutral a hwithin).2 r
      rw [hstay]
      exact h.neutral hg (answer_nonces (hwithin.ne (by decide)) hx) (fun _ => Nat.le_refl _)
        trivial
  | found nonce publicKey expiresAt =>
    obtain rfl := hasks
    cases hx
    have hissued := h.known i _ hg
    show Books _ _ (gs.set i (if c.now ≤ expiresAt then _ else _))
    split
    · next hnow =>
      refine h.neutral hg hrefl (fun _ => Nat.le_refl _)
        ⟨hissued, e, List.mem_cons_self, hcall, hawaited, ?_⟩
      rwa [henv]
    · exact h.neutral hg hrefl (fun _ => Nat.le_refl _) trivial
  | checked nonce publicKey expiresAt =>
    rcases hasks with rfl | ⟨_, _, _, rfl⟩
    · rcases attempt_cases hx with ⟨-, -, rfl, rfl⟩ | ⟨hrej, rfl, rfl⟩
      · exact h.neutral hg hrefl (fun _ => Nat.le_refl _) trivial
      · exact h.mark hg hcall hawaited (hgood hrej)
    · cases hx
      exact h.neutral hg hrefl (fun _ => Nat.le_refl _)
        ((h.known i _ hg).mono fun _ hrow => hrow)
  | idle =>
    rcases hasks with ⟨now, rfl⟩ | hwithin
    · rcases attempt_cases hx with ⟨-, -, rfl, rfl⟩ | ⟨-, rfl, rfl⟩
      · exact h.neutral hg hrefl (fun _ => Nat.le_refl _) trivial
      · refine h.move hg (fun _ hrow => hrow)
          (fun row hrow => h.stored row (List.mem_of_mem_filter hrow)) (fun nonce => ?_) trivial
        have hle : unused (w.setNonces (w.nonces.filter fun n => ¬ n.expiresAt < now)) nonce ≤
            unused w nonce := List.Sublist.countP_le List.filter_sublist
        show _ + unused _ nonce + room w nonce ≤ _ + unused w nonce + room w nonce
        exact Nat.add_le_add_right (Nat.add_le_add_left hle _) _
    · have hstay : next .idle a r = .idle := (idle_neutral a hwithin).2 r
      rw [hstay]
      exact h.neutral hg (answer_nonces (hwithin.ne (by decide)) hx) (fun _ => Nat.le_refl _)
        trivial
  | marked nonce publicKey expiresAt =>
    have hsame := answer_nonces (hasks.ne (by decide)) hx
    refine h.neutral hg hsame (fun _ => Nat.le_refl _) ((h.known i _ hg).mono fun row hrow => ?_)
    rwa [hsame.issued]

end Step

end Nonces

open Nonces in
/-- **Nonces are used once** in every interleaving of calls in which every accepted mark finds its
nonce stored and unused: a nonce leads to one successful login or bind at most, with the public
key it was issued for, and it is used by a call that has seen it unexpired. -/
theorem nonce_single_use {zone : Zone} {tr : Trace} {t : System} (h : Run (machine zone) tr t)
    (hmarks : ∀ e ∈ tr, StepMarksUnused e) : SingleUse tr t := by
  obtain ⟨gs, hbooks, hat⟩ := Async.interleave_obeys (P := protocol) (b := begin) (E := End)
    (J := Books) (fun op _ => program_obeys zone op)
    (fun w hw => ⟨fun nonce => by rw [hw]; exact Nat.zero_le _, by rw [hw]; exact nofun, nofun⟩)
    (fun _ _ _ op _ _ _ hbooks => hbooks.start op)
    (fun _ e gs i a r g hgood hans _ hg hasks hbooks =>
      ⟨trivial, hbooks.answered hg hasks hans.call rfl hans.awaited (hans.meets hgood)
        hans.answer⟩) h hmarks
  constructor
  · intro nonce
    have hcount : t.tasks.countP (Succeeded nonce) ≤ (gs.map (Point.holds nonce)).sum := by
      refine Async.countP_le_sum_map hat fun p g hp hdone => ?_
      unfold Succeeded at hdone
      split at hdone
      · next op reply =>
        obtain ⟨dto, hlogin, heq⟩ := (Option.any_eq_true _ _).mp hdone
        obtain ⟨expiresAt, rfl⟩ := hp reply rfl dto hlogin
        have hnonce : dto.nonce = nonce := of_decide_eq_true heq
        simp only [Point.holds, if_pos hnonce, Nat.le_refl]
      · cases hdone
    have hsingle := hbooks.single nonce
    unfold room at hsingle
    split at hsingle <;> omega
  · intro i op reply dto htask hlogin
    obtain ⟨g, hg, hend⟩ := Async.exists_of_getElem? hat htask
    obtain ⟨expiresAt, rfl⟩ := hend reply rfl dto hlogin
    obtain ⟨⟨row, hrow, hnonce, hkey, rfl⟩, hused⟩ := hbooks.known i _ hg
    exact ⟨row, hrow, hnonce, hkey, hused⟩

/-! ### One login, and two with one nonce -/

theorem nonce_single_use_login :
    ∃ (tr : Trace) (t : System), Run (machine utc) tr t ∧ t.tasks.countP (Succeeded 0) = 1 ∧
      SingleUse tr t := by
  obtain ⟨tr, t, hrun, hok⟩ := Machine.exists_run_of_replay (m := machine utc)
    (s := ⟨World.empty, []⟩) ⟨rfl, rfl⟩ (nonceRequested ++ sampleLogin 0 :: resumes 1 19)
    (fun tr t => decide ((∀ e ∈ tr, StepMarksUnused e) ∧ t.tasks.countP (Succeeded 0) = 1))
    (fun c _ => c.2.starts_of_true) (by decide) (by decide)
  obtain ⟨hmarks, hcount⟩ := of_decide_eq_true hok
  exact ⟨tr, t, hrun, hcount, nonce_single_use hrun hmarks⟩

/-- Two logins find the nonce unused before either marks it. -/
theorem nonce_used_twice :
    ¬ ∀ (zone : Zone) (tr : Trace) (t : System), Run (machine zone) tr t → SingleUse tr t := by
  intro hall
  obtain ⟨tr, t, hrun, hok⟩ := Machine.exists_run_of_replay (m := machine utc)
    (s := ⟨World.empty, []⟩) ⟨rfl, rfl⟩
    (nonceRequested ++ sampleLogin 0 :: sampleLogin 0 :: resumes 1 3 ++ resumes 2 3 ++
      resumes 1 16 ++ resumes 2 10)
    (fun _ t => decide (t.tasks.countP (Succeeded 0) = 2))
    (fun c _ => c.2.starts_of_true) (by decide) (by decide)
  have htwice := of_decide_eq_true hok
  have honce := (hall utc tr t hrun).once 0
  omega

end Stellara.Auth
