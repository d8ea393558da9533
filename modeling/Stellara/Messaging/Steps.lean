import Stellara.Messaging.Model

/-!
# Calls and the mailbox

`exec_cases` says what a committed call can do: send one message, mark one as read, or
leave the mailbox and the list of nonces alone.
-/

namespace Stellara.Messaging

open Outcome

variable {env : Env} {s s' : State} {addr : Address} {r : Reply} {channel : Channel}

theorem done_ok {x : Result State} : done x = .ok (r, s') ↔ x = .ok s' ∧ r = .done := answer_eq_ok

theorem replyId_ok {x : Result (Nat × State)} :
    replyId x = .ok (r, s') ↔ ∃ n, x = .ok (n, s') ∧ r = .id n := answerWith_eq_ok

theorem exec_sendCall (env : Env) (s : State) (channel : Channel) (sender recipient : Address)
    (payload : Payload) :
    exec env (sendCall channel sender recipient payload) s =
      replyId (send channel env s sender recipient payload) := by
  cases channel <;> rfl

theorem exec_markCall (env : Env) (s : State) (channel : Channel) (recipient : Address)
    (messageId : Nat) :
    exec env (markCall channel recipient messageId) s =
      done (mark channel env s recipient messageId) := by
  cases channel <;> rfl

/-! ## Sending and marking -/

/-- The guards a send has passed in `s`, and the state it leaves. -/
structure Sent (channel : Channel) (env : Env) (s : State) (sender recipient : Address)
    (payload : Payload) (s' : State) : Prop where
  auth : sender ∈ env.signers
  initialized : s.initialized = true
  quota : ∃ s₁, checkAndConsumeMessageRateLimit env s sender = .ok s₁ ∧
    s'.userUsage = s₁.userUsage ∧ s'.globalUsage = s₁.globalUsage
  unpaused : (CircuitBreaker.requireNotPaused s.cb channel.funcName : Result Unit) = .ok ()
  idle : s.active = false
  ordered : (NonceManager.enforceSequentialNonce s.nonces 0 env.sequence : Result Unit) = .ok ()
  nonces : (NonceManager.recordAndVerify s.nonces 0 env.sequence : Result _) = .ok s'.nonces
  cb : (CircuitBreaker.trackActivity env s.cb 1 : Result _) = .ok s'.cb
  ne : sender ≠ recipient
  box : s'.box = (deliver env s.box channel sender recipient payload).2
  initialized' : s'.initialized = true
  idle' : s'.active = false
  config : s'.rateLimit = s.rateLimit ∧ s'.premium = s.premium

theorem rateLimit_ok {s₁ : State} (h : checkAndConsumeMessageRateLimit env s addr = .ok s₁) :
    s₁ = { s with userUsage := s₁.userUsage, globalUsage := s₁.globalUsage } := by
  simp only [checkAndConsumeMessageRateLimit, bind_eq_ok, require_eq_ok, exists_unit_and,
    pure_eq_ok] at h
  obtain ⟨-, -, -, rfl⟩ := h
  rfl

theorem send_ok {sender recipient : Address} {payload : Payload} {n : Nat}
    (h : send channel env s sender recipient payload = .ok (n, s')) :
    Sent channel env s sender recipient payload s' := by
  simp only [send, requireInitialized, ReentrancyGuard.enter, bind_eq_ok, require_eq_ok,
    requireAuth_eq_ok, exists_unit_and, pure_eq_ok] at h
  obtain ⟨hauth, hi, s₁, hrate, hpause, _, ⟨hidle, -⟩, hord, nonces, hnonces, cb, hcb, hne, -,
    heq⟩ := h
  obtain ⟨-, rfl⟩ := Prod.mk.inj heq
  have hs₁ := rateLimit_ok hrate
  rw [hs₁] at hpause hidle hord hnonces hcb
  exact
    { auth := hauth
      initialized := hi
      quota := ⟨s₁, hrate, rfl, rfl⟩
      unpaused := hpause
      idle := hidle
      ordered := hord
      nonces := hnonces
      cb := hcb
      ne := hne
      box := by rw [hs₁]
      initialized' := by rw [hs₁]; exact hi
      idle' := rfl
      config := by rw [hs₁]; exact ⟨rfl, rfl⟩ }

theorem mark_ok {messageId : Nat} (h : mark channel env s addr messageId = .ok s') :
    s.initialized = true ∧ ∃ message, getMessage s.box channel messageId = some message ∧
      message.recipient = addr ∧ message.read = false ∧
      s' = { s with box := markRead s.box channel addr messageId message, active := false } := by
  simp only [mark, requireInitialized, ReentrancyGuard.enter, bind_eq_ok, require_eq_ok,
    requireAuth_eq_ok, exists_unit_and, ofOption_eq_ok, pure_eq_ok] at h
  obtain ⟨-, hi, message, hm, hto, hread, _, -, rfl⟩ := h
  exact ⟨hi, message, hm, hto, hread, rfl⟩

/-! ## Every call -/

/-- The mailbox before `init` is empty. -/
def Fresh (s : State) : Prop := s.initialized = false → s.box = {}

/-- What the other calls keep. -/
structure SameMail (s s' : State) : Prop where
  box : s'.box = s.box
  nonces : s'.nonces.nonces = s.nonces.nonces
  initialized : s'.initialized = false → s.initialized = false

theorem breakerCall_sameMail {p : Symbol} {f : CircuitBreaker.State → CircuitBreaker.State}
    (h : breakerCall env s addr p f = .ok s') : SameMail s s' := by
  simp only [breakerCall, bind_eq_ok, pure_eq_ok] at h
  obtain ⟨_, -, _, -, _, -, rfl⟩ := h
  exact ⟨rfl, rfl, id⟩

theorem upgradeCall_sameMail {f : Governance.State → Governance.Result Governance.State}
    (h : upgradeCall env s addr f = .ok s') : SameMail s s' := by
  simp only [upgradeCall, bind_eq_ok, pure_eq_ok] at h
  obtain ⟨_, -, _, -, _, -, rfl⟩ := h
  exact ⟨rfl, rfl, id⟩

/-- **Every committed call in three cases.** -/
theorem exec_cases {call : Call} (hf : Fresh s) (h : exec env call s = .ok (r, s')) :
    (∃ channel sender recipient payload, call = sendCall channel sender recipient payload ∧
      Sent channel env s sender recipient payload s') ∨
    (∃ channel recipient messageId message, call = markCall channel recipient messageId ∧
      s.initialized = true ∧ getMessage s.box channel messageId = some message ∧
      message.recipient = recipient ∧ message.read = false ∧
      s' = { s with box := markRead s.box channel recipient messageId message, active := false }) ∨
    SameMail s s' := by
  have hsend : ∀ {channel sender recipient payload},
      exec env (sendCall channel sender recipient payload) s = .ok (r, s') →
      Sent channel env s sender recipient payload s' := by
    intro channel sender recipient payload h
    rw [exec_sendCall] at h
    obtain ⟨n, h, -⟩ := replyId_ok.mp h
    exact send_ok h
  have hmark : ∀ {channel recipient messageId},
      exec env (markCall channel recipient messageId) s = .ok (r, s') →
      mark channel env s recipient messageId = .ok s' := by
    intro channel recipient messageId h
    rw [exec_markCall] at h
    exact (done_ok.mp h).1
  cases call with
  | init admin approvers executor cfg =>
    obtain ⟨h, -⟩ := done_ok.mp h
    simp only [init, bind_eq_ok, require_eq_ok, exists_unit_and, pure_eq_ok] at h
    obtain ⟨hi, rfl⟩ := h
    refine .inr (.inr ⟨?_, rfl, fun _ => hi⟩)
    -- the statistics that `init` resets are still zero
    rw [hf hi]
  | sendMessage sender recipient payload =>
    exact .inl ⟨.plain, sender, recipient, payload, rfl, hsend h⟩
  | sendEncryptedMessage sender recipient payload =>
    exact .inl ⟨.encrypted, sender, recipient, payload, rfl, hsend h⟩
  | markAsRead recipient messageId =>
    have hmarked : mark .plain env s recipient messageId = .ok s' := hmark h
    obtain ⟨hi, m, hm⟩ := mark_ok hmarked
    exact .inr (.inl ⟨.plain, recipient, messageId, m, rfl, hi, hm⟩)
  | markEncryptedAsRead recipient messageId =>
    have hmarked : mark .encrypted env s recipient messageId = .ok s' := hmark h
    obtain ⟨hi, m, hm⟩ := mark_ok hmarked
    exact .inr (.inl ⟨.encrypted, recipient, messageId, m, rfl, hi, hm⟩)
  | registerEncryptionKey user key =>
    obtain ⟨h, -⟩ := done_ok.mp h
    simp only [registerEncryptionKey, bind_eq_ok, pure_eq_ok] at h
    obtain ⟨_, -, _, -, rfl⟩ := h
    exact .inr (.inr ⟨rfl, rfl, id⟩)
  | setCbPauseLevel admin level => exact .inr (.inr (breakerCall_sameMail (done_ok.mp h).1))
  | pauseCbFunction admin funcName => exact .inr (.inr (breakerCall_sameMail (done_ok.mp h).1))
  | unpauseCbFunction admin funcName => exact .inr (.inr (breakerCall_sameMail (done_ok.mp h).1))
  | setRateLimitConfig admin cfg =>
    obtain ⟨h, -⟩ := done_ok.mp h
    simp only [setRateLimitConfig, bind_eq_ok, pure_eq_ok] at h
    obtain ⟨_, -, _, -, rfl⟩ := h
    exact .inr (.inr ⟨rfl, rfl, id⟩)
  | setPremiumUser admin user isPremium =>
    obtain ⟨h, -⟩ := done_ok.mp h
    simp only [setPremiumUser, bind_eq_ok, pure_eq_ok] at h
    obtain ⟨_, -, rfl⟩ := h
    exact .inr (.inr ⟨rfl, rfl, id⟩)
  | acl admin c =>
    obtain ⟨h, -⟩ := done_ok.mp h
    simp only [aclCall, bind_eq_ok, pure_eq_ok] at h
    obtain ⟨_, -, _, -, rfl⟩ := h
    exact .inr (.inr ⟨rfl, rfl, id⟩)
  | proposeUpgrade admin hash description approvers threshold delay =>
    obtain ⟨n, h, -⟩ := replyId_ok.mp h
    simp only [proposeUpgrade, bind_eq_ok, pure_eq_ok, Prod.mk.injEq] at h
    obtain ⟨_, -, _, -, _, -, -, rfl⟩ := h
    exact .inr (.inr ⟨rfl, rfl, id⟩)
  | approveUpgrade pid approver => exact .inr (.inr (upgradeCall_sameMail (done_ok.mp h).1))
  | executeUpgrade pid executor => exact .inr (.inr (upgradeCall_sameMail (done_ok.mp h).1))
  | rejectUpgrade pid rejector => exact .inr (.inr (upgradeCall_sameMail (done_ok.mp h).1))
  | cancelUpgrade pid admin => exact .inr (.inr (upgradeCall_sameMail (done_ok.mp h).1))

theorem exec_fresh {call : Call} (hf : Fresh s) (h : exec env call s = .ok (r, s')) : Fresh s' := by
  intro hi'
  rcases exec_cases hf h with ⟨_, _, _, _, -, hsent⟩ | ⟨_, _, _, _, -, hi, -, -, -, rfl⟩ | hsame
  · rw [hsent.initialized'] at hi'
    cases hi'
  · rw [show s.initialized = false from hi'] at hi
    cases hi
  · rw [hsame.box]
    exact hf (hsame.initialized hi')

end Stellara.Messaging
