import Stellara.Messaging.Steps
import Stellara.Shared.Breaker
import Stellara.Shared.Nonces

/-!
# Two sends in one ledger

A send uses the ledger's sequence number as its nonce, on one list of nonces for all
senders, and nonces must grow.  So after one send no other can be accepted in the same
ledger, whoever makes it (`same_ledger_sends_conflict`).
-/

namespace Stellara.Messaging

open Outcome
open NonceManager (AllUsed recordAndVerify_ok getLastNonce_append enforce_again)

/-! ## The list of nonces -/

theorem allUsed_run {d : Deployment} {tr : Trace} {s : State} (h : Run (machine d) tr s) :
    AllUsed s.nonces.nonces := by
  refine (h.invariant (I := fun s => Fresh s ∧ AllUsed s.nonces.nonces) ?_ ?_).2
  · rintro s rfl
    refine ⟨fun _ => rfl, ?_⟩
    intro r hr
    cases hr
  · rintro env call r s s' - ⟨hf, hall⟩ hx
    refine ⟨exec_fresh hf hx, ?_⟩
    rcases exec_cases hf hx with ⟨_, _, _, _, -, hsent⟩ | ⟨_, _, _, _, -, -, -, -, -, rfl⟩ | hsame
    · rw [(recordAndVerify_ok hall hsent.nonces).1]
      exact hall.append _ _
    · exact hall
    · rw [hsame.nonces]
      exact hall

/-! ## What a send leaves for another sender -/

/-- The contract's quota for the present window is used up. -/
def QuotaUsed (env : Env) (s : State) : Prop :=
  (readRateLimitConfig s).globalLimit ≤
    getGlobalWindowUsage s (env.timestamp / (readRateLimitConfig s).windowSecs)

/-- The ways in which a send that could be accepted before is turned down: always for its
nonce, unless the quota or the breaker has stopped it earlier. -/
inductive Refused (env : Env) (s : State) : Result (Reply × State) → Prop
  | quota (h : QuotaUsed env s) : Refused env s (.error (.err .globalRateLimitExceeded))
  | breaker (h : s.cb.state.pauseLevel = .full) :
      Refused env s (.error (.panic "CONTRACT_FULLY_PAUSED"))
  | nonce : Refused env s (.error (.panic "NONCE_OUT_OF_ORDER"))

/-- The other sender's own quota is untouched. -/
theorem rateLimit_other {env env' : Env} {s s₁ s₂ s' : State} {sender other : Address}
    (hne : sender ≠ other)
    (h₁ : checkAndConsumeMessageRateLimit env s sender = .ok s₁)
    (h₂ : checkAndConsumeMessageRateLimit env' s other = .ok s₂)
    (huser : s'.userUsage = s₁.userUsage) (hcfg : s'.rateLimit = s.rateLimit)
    (hprem : s'.premium = s.premium) :
    QuotaUsed env' s' ∧
      checkAndConsumeMessageRateLimit env' s' other = .error (.err .globalRateLimitExceeded) ∨
    ∃ s'', checkAndConsumeMessageRateLimit env' s' other = .ok s'' := by
  have hcfg' : readRateLimitConfig s' = readRateLimitConfig s := by
    unfold readRateLimitConfig
    rw [hcfg]
  have hprem' : isPremiumUser s' other = isPremiumUser s other := by
    unfold isPremiumUser
    rw [hprem]
  have husage : ∀ window, getUserWindowUsage s' other window = getUserWindowUsage s other window := by
    intro window
    simp only [checkAndConsumeMessageRateLimit, bind_eq_ok, require_eq_ok, exists_unit_and,
      pure_eq_ok] at h₁
    obtain ⟨-, -, -, rfl⟩ := h₁
    unfold getUserWindowUsage
    rw [huser, Store.lookup_insert_eq, if_neg]
    intro heq
    exact hne (Prod.mk.inj heq).1.symm
  simp only [checkAndConsumeMessageRateLimit, bind_eq_ok, require_eq_ok, exists_unit_and,
    pure_eq_ok] at h₂
  obtain ⟨hvalid, hquota, -, -⟩ := h₂
  by_cases hglobal : QuotaUsed env' s'
  · left
    refine ⟨hglobal, ?_⟩
    unfold QuotaUsed at hglobal
    rw [hcfg'] at hglobal
    simp only [checkAndConsumeMessageRateLimit, hcfg', hprem', husage]
    rw [require_pos _ hvalid, ok_bind, require_pos _ hquota, ok_bind,
      require_neg _ (not_lt.mpr hglobal), error_bind]
  · right
    unfold QuotaUsed at hglobal
    rw [hcfg'] at hglobal
    simp only [checkAndConsumeMessageRateLimit, hcfg', hprem', husage]
    rw [require_pos _ hvalid, ok_bind, require_pos _ hquota, ok_bind,
      require_pos _ (not_le.mp hglobal), ok_bind]
    exact ⟨_, rfl⟩

/-- Counting activity changes the level only to stop everything. -/
theorem trackActivity_level {ε : Type} {env : Env} {cb cb' : CircuitBreaker.State} {volume : Int}
    (h : (CircuitBreaker.trackActivity env cb volume : Except (Fault ε) _) = .ok cb') :
    cb'.pausedFuncs = cb.pausedFuncs ∧
      (cb'.state.pauseLevel = .full ∨ cb'.state.pauseLevel = cb.state.pauseLevel) := by
  obtain ⟨config, periodEnd, ht⟩ := CircuitBreaker.trackActivity_ok h
  refine ⟨ht.pausedFuncs, ?_⟩
  rw [ht.level]
  split
  · exact .inl rfl
  · exact .inr rfl

theorem requireNotPaused_other {ε : Type} {cb cb' : CircuitBreaker.State} {funcName : Symbol}
    (hfuncs : cb'.pausedFuncs = cb.pausedFuncs)
    (hlevel : cb'.state.pauseLevel = cb.state.pauseLevel)
    (h : (CircuitBreaker.requireNotPaused cb funcName : Except (Fault ε) Unit) = .ok ()) :
    (CircuitBreaker.requireNotPaused cb' funcName : Except (Fault ε) Unit) = .ok () := by
  have hpaused : CircuitBreaker.isPaused cb' funcName = CircuitBreaker.isPaused cb funcName := by
    unfold CircuitBreaker.isPaused
    rw [hlevel, hfuncs]
  unfold CircuitBreaker.requireNotPaused
  rw [hlevel, hpaused]
  exact h

/-- After an accepted send the other one is refused in the same ledger. -/
theorem refused_after {env₁ env₂ : Env} {s s₁ s₂ : State} {channel₁ channel₂ : Channel}
    {sender₁ sender₂ recipient₁ recipient₂ : Address} {payload₁ payload₂ : Payload}
    (hall : AllUsed s.nonces.nonces) (hseq : env₁.sequence = env₂.sequence)
    (hne : sender₁ ≠ sender₂)
    (h₁ : Sent channel₁ env₁ s sender₁ recipient₁ payload₁ s₁)
    (h₂ : Sent channel₂ env₂ s sender₂ recipient₂ payload₂ s₂) :
    Refused env₂ s₁ (exec env₂ (sendCall channel₂ sender₂ recipient₂ payload₂) s₁) := by
  obtain ⟨t₁, hquota₁, huser, -⟩ := h₁.quota
  obtain ⟨t₂, hquota₂, -⟩ := h₂.quota
  rw [exec_sendCall]
  unfold replyId send requireInitialized Env.requireAuth
  rw [require_pos _ h₂.auth, ok_bind, require_pos _ h₁.initialized', ok_bind]
  rcases rateLimit_other hne hquota₁ hquota₂ huser h₁.config.1 h₁.config.2 with
    ⟨hused, hfail⟩ | ⟨t, hpass⟩
  · rw [hfail]
    exact .quota hused
  · rw [hpass, ok_bind]
    have ht := rateLimit_ok hpass
    have hcb : t.cb = s₁.cb := by rw [ht]
    have hactive : t.active = false := by rw [ht]; exact h₁.idle'
    have hnonces : t.nonces = s₁.nonces := by rw [ht]
    obtain ⟨hfuncs, hfull | hlevel⟩ := trackActivity_level h₁.cb
    · unfold CircuitBreaker.requireNotPaused
      rw [hcb, require_neg _ (not_not.mpr hfull)]
      exact .breaker hfull
    · have hlast := getLastNonce_append s₁.nonces _ _ _ _ (recordAndVerify_ok hall h₁.nonces).1
      rw [hseq] at hlast
      unfold ReentrancyGuard.enter
      rw [hcb, requireNotPaused_other hfuncs hlevel h₂.unpaused, ok_bind, require_pos _ hactive,
        ok_bind]
      rw [hnonces, enforce_again hlast]
      exact .nonce

/-- **Two sends in one ledger never both succeed**, in neither order: each of them would be
accepted on its own, and the one that comes second is refused. -/
theorem same_ledger_sends_conflict {d : Deployment} {tr : Trace} {s s₁ s₂ : State}
    {env₁ env₂ : Env} {channel₁ channel₂ : Channel}
    {sender₁ sender₂ recipient₁ recipient₂ : Address} {payload₁ payload₂ : Payload} {r₁ r₂ : Reply}
    (h : Run (machine d) tr s) (hseq : env₁.sequence = env₂.sequence) (hne : sender₁ ≠ sender₂)
    (h₁ : exec env₁ (sendCall channel₁ sender₁ recipient₁ payload₁) s = .ok (r₁, s₁))
    (h₂ : exec env₂ (sendCall channel₂ sender₂ recipient₂ payload₂) s = .ok (r₂, s₂)) :
    Refused env₂ s₁ (exec env₂ (sendCall channel₂ sender₂ recipient₂ payload₂) s₁) ∧
      Refused env₁ s₂ (exec env₁ (sendCall channel₁ sender₁ recipient₁ payload₁) s₂) := by
  have hall := allUsed_run h
  rw [exec_sendCall] at h₁ h₂
  obtain ⟨_, hsend₁, -⟩ := replyId_ok.mp h₁
  obtain ⟨_, hsend₂, -⟩ := replyId_ok.mp h₂
  exact ⟨refused_after hall hseq hne (send_ok hsend₁) (send_ok hsend₂),
    refused_after hall hseq.symm hne.symm (send_ok hsend₂) (send_ok hsend₁)⟩

/-! ## Two strangers write to the same account -/

/-- A call signed by `signer` in ledger `n`. -/
def ledgerEnv (n : Nat) (signer : Address) : Env :=
  { self := 0, overflowChecks := true, timestamp := 5 * n, sequence := n, signers := [signer] }

/-- The fault of a send that comes second in its ledger. -/
def outOfOrder : Fault MessagingError := .panic "NONCE_OUT_OF_ORDER"

/-- Accounts 5 and 7 write to account 6 in ledger 2, the first messages of the deployment. -/
def conflict (s : State) : Bool :=
  match exec (ledgerEnv 2 5) (.sendMessage 5 6 [104, 105]) s,
      exec (ledgerEnv 2 7) (.sendEncryptedMessage 7 6 [1]) s with
  | .ok (_, s₁), .ok (_, s₂) =>
    failsWith (exec (ledgerEnv 2 7) (.sendEncryptedMessage 7 6 [1]) s₁) outOfOrder &&
      failsWith (exec (ledgerEnv 2 5) (.sendMessage 5 6 [104, 105]) s₂) outOfOrder
  | _, _ => false

theorem exists_conflict : ∃ tr s, Run (machine ⟨0, true⟩) tr s ∧ conflict s = true := by
  have hinit : (machine ⟨0, true⟩).init {} := rfl
  exact Machine.exists_run_of_replay hinit [(ledgerEnv 1 1, .init 1 [2] 3 ⟨1000, 1000, 3600⟩)]
    (fun _ s => conflict s) (by decide) (by decide) (by decide)

theorem sends_of_conflict {s : State} (h : conflict s = true) : ∃ r₁ s₁ r₂ s₂,
    exec (ledgerEnv 2 5) (.sendMessage 5 6 [104, 105]) s = .ok (r₁, s₁) ∧
    exec (ledgerEnv 2 7) (.sendEncryptedMessage 7 6 [1]) s = .ok (r₂, s₂) ∧
    exec (ledgerEnv 2 7) (.sendEncryptedMessage 7 6 [1]) s₁ = .error outOfOrder ∧
    exec (ledgerEnv 2 5) (.sendMessage 5 6 [104, 105]) s₂ = .error outOfOrder := by
  unfold conflict at h
  split at h
  · next r₁ s₁ r₂ s₂ h₁ h₂ =>
    rw [Bool.and_eq_true] at h
    exact ⟨r₁, s₁, r₂, s₂, h₁, h₂, eq_of_failsWith h.1, eq_of_failsWith h.2⟩
  · cases h

theorem same_ledger_sends_conflict_strangers : ∃ tr s r₁ s₁ r₂ s₂, Run (machine ⟨0, true⟩) tr s ∧
    exec (ledgerEnv 2 5) (sendCall .plain 5 6 [104, 105]) s = .ok (r₁, s₁) ∧
    exec (ledgerEnv 2 7) (sendCall .encrypted 7 6 [1]) s = .ok (r₂, s₂) ∧
    Refused (ledgerEnv 2 7) s₁ (exec (ledgerEnv 2 7) (sendCall .encrypted 7 6 [1]) s₁) ∧
    Refused (ledgerEnv 2 5) s₂ (exec (ledgerEnv 2 5) (sendCall .plain 5 6 [104, 105]) s₂) := by
  obtain ⟨tr, s, hrun, hconflict⟩ := exists_conflict
  obtain ⟨r₁, s₁, r₂, s₂, h₁, h₂, -⟩ := sends_of_conflict hconflict
  exact ⟨tr, s, r₁, s₁, r₂, s₂, hrun, h₁, h₂,
    same_ledger_sends_conflict hrun rfl (by decide) h₁ h₂⟩

/-- Quota and breaker have room for a hundred more. -/
theorem second_stranger_refused : ∃ tr s r₁ s₁ r₂ s₂, Run (machine ⟨0, true⟩) tr s ∧
    exec (ledgerEnv 2 5) (.sendMessage 5 6 [104, 105]) s = .ok (r₁, s₁) ∧
    exec (ledgerEnv 2 7) (.sendEncryptedMessage 7 6 [1]) s = .ok (r₂, s₂) ∧
    exec (ledgerEnv 2 7) (.sendEncryptedMessage 7 6 [1]) s₁ = .error outOfOrder ∧
    exec (ledgerEnv 2 5) (.sendMessage 5 6 [104, 105]) s₂ = .error outOfOrder := by
  obtain ⟨tr, s, hrun, hconflict⟩ := exists_conflict
  obtain ⟨r₁, s₁, r₂, s₂, h⟩ := sends_of_conflict hconflict
  exact ⟨tr, s, r₁, s₁, r₂, s₂, hrun, h⟩

end Stellara.Messaging
