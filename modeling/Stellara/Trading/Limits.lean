import Stellara.Trading.BookSafety

/-!
# The rate limits

    check_and_consume:  usage(trader, w) < limit(trader)   and   usage(w) < global_limit
                        usage(trader, w) += 1                    usage(w) += 1

Three calls consume quota, and only once they commit: `trade`, `create_limit_order` and a
batch that is not empty.  So the usage recorded for a window is the number of calls accepted
in it (`Counted`), whatever the limits were at the time; and while the configuration and the
premium users stay as they are, no window has more accepted calls than its limits allow
(`rate_limits`).
-/

namespace Stellara.Trading

open Outcome

/-- A contract whose storage is empty when it is deployed. -/
def freshMachine (d : Deployment) : Machine Env Call Reply (Fault TradeError) State :=
  { machine d with
    init := fun s => (machine d).init s ∧ s.userUsage = ∅ ∧ s.globalUsage = ∅ }

/-! ## Accepted calls -/

/-- The trader whose quota a call takes from. -/
def limited : Call → Option Address
  | .trade trader .. => some trader
  | .createLimitOrder trader .. => some trader
  | .batchTrade trader orders .. => if orders = [] then none else some trader
  | _ => none

/-- The call changes the limits or who is premium. -/
def reconfigures : Call → Bool
  | .init .. | .setRateLimitConfig .. | .setPremiumUser .. => true
  | _ => false

/-- The window a call was made in. -/
def windowOf (e : Event Env Call Reply State) : Nat :=
  e.env.timestamp / (readRateLimitConfig e.before).windowSecs

/-- How many calls of `trader` were accepted in a window. -/
def acceptedBy (trader : Address) (window : Nat) (tr : Trace) : Nat :=
  tr.countP fun e => limited e.call = some trader ∧ windowOf e = window

/-- How many calls were accepted in a window. -/
def accepted (window : Nat) (tr : Trace) : Nat :=
  tr.countP fun e => (limited e.call).isSome ∧ windowOf e = window

/-- What `check_and_consume_trade_rate_limit` allows a trader in each window. -/
def allowedUserLimit (s : State) (trader : Address) : Nat :=
  if isPremiumUser s trader then (readRateLimitConfig s).premiumUserLimit
  else (readRateLimitConfig s).userLimit

/-- The usage that the users have recorded for a window. -/
def usersUsage (s : State) (window : Nat) : Int :=
  Store.total (fun (key : Address × Nat) (n : Nat) => if key.2 = window then (n : Int) else 0) s.userUsage

/-! ## What a call does to the usage -/

/-- The call was let through and counted. -/
structure Consumes (env : Env) (s s' : State) (trader : Address) : Prop where
  userLeft : getUserWindowUsage s trader
    (env.timestamp / (readRateLimitConfig s).windowSecs) < allowedUserLimit s trader
  globalLeft : getGlobalWindowUsage s (env.timestamp / (readRateLimitConfig s).windowSecs) <
    (readRateLimitConfig s).globalLimit
  userUsage : s'.userUsage = s.userUsage.insert
    (trader, env.timestamp / (readRateLimitConfig s).windowSecs)
    (getUserWindowUsage s trader (env.timestamp / (readRateLimitConfig s).windowSecs) + 1)
  globalUsage : s'.globalUsage = s.globalUsage.insert
    (env.timestamp / (readRateLimitConfig s).windowSecs)
    (getGlobalWindowUsage s (env.timestamp / (readRateLimitConfig s).windowSecs) + 1)

/-- The call leaves the counters alone. -/
structure SameUsage (s s' : State) : Prop where
  userUsage : s'.userUsage = s.userUsage
  globalUsage : s'.globalUsage = s.globalUsage

/-- The call leaves the limits alone. -/
structure LimitsKept (s s' : State) : Prop where
  rateLimit : s'.rateLimit = s.rateLimit
  premium : s'.premium = s.premium

/-- What a committed call does to the limiter. -/
structure Limiter (env : Env) (call : Call) (s s' : State) : Prop where
  consumes : ∀ trader, limited call = some trader → Consumes env s s' trader
  same : limited call = none → SameUsage s s'
  limits : reconfigures call = false → LimitsKept s s'

section Calls

variable {env : Env} {s s' : State} {call : Call} {r : Reply} {trader : Address}

theorem consume_ok (h : checkAndConsumeTradeRateLimit env s trader = .ok s') :
    Consumes env s s' trader ∧ LimitsKept s s' ∧ s'.initialized = s.initialized := by
  simp only [checkAndConsumeTradeRateLimit, bind_eq_ok, require_eq_ok, exists_unit_and,
    pure_eq_ok] at h
  obtain ⟨-, huser, hglobal, rfl⟩ := h
  exact ⟨⟨huser, hglobal, rfl, rfl⟩, ⟨rfl, rfl⟩, rfl⟩

theorem Limiter.of_consumes {s₁ : State} (hcall : limited call = some trader)
    (h : checkAndConsumeTradeRateLimit env s trader = .ok s₁) (hsame : SameUsage s₁ s')
    (hlimits : LimitsKept s₁ s') : Limiter env call s s' := by
  obtain ⟨hc, hl, -⟩ := consume_ok h
  refine ⟨fun trader' ht => ?_, fun hnone => ?_, fun _ => ?_⟩
  · obtain rfl := Option.some.inj (hcall.symm.trans ht)
    exact ⟨hc.userLeft, hc.globalLeft, hsame.userUsage.trans hc.userUsage,
      hsame.globalUsage.trans hc.globalUsage⟩
  · rw [hcall] at hnone
    cases hnone
  · exact ⟨hlimits.rateLimit.trans hl.rateLimit, hlimits.premium.trans hl.premium⟩

theorem Limiter.of_same (hcall : limited call = none) (hsame : SameUsage s s')
    (hlimits : LimitsKept s s') : Limiter env call s s' :=
  ⟨fun _ ht => (nomatch hcall.symm.trans ht), fun _ => hsame, fun _ => hlimits⟩

theorem ensureTradeable_consumes {s₁ : State} (h : ensureTradeable env s trader = .ok s₁) :
    checkAndConsumeTradeRateLimit env s trader = .ok s₁ := by
  simp only [ensureTradeable, bind_eq_ok, pure_eq_ok] at h
  obtain ⟨_, -, s₂, hc, _, -, rfl⟩ := h
  exact hc

/-- **What every committed call does to the limiter.** -/
theorem exec_limiter (h : exec env call s = .ok (r, s')) : Limiter env call s s' := by
  cases call with
  | init admin approvers executor cfg =>
    obtain ⟨-, gov, rfl⟩ := init_ok (done_ok.mp h).1
    exact ⟨fun _ ht => (by cases ht), fun _ => ⟨rfl, rfl⟩, fun hr => (by cases hr)⟩
  | trade trader pair amount price isBuy feeToken feeAmount feeRecipient =>
    obtain ⟨n, h, -⟩ := replyId_ok.mp h
    simp only [trade, bind_eq_ok, pure_eq_ok, Prod.mk.injEq] at h
    obtain ⟨_, -, _, -, _, -, s₁, hens, cb, -, s₂, hfee, ⟨k, market⟩, -, -, rfl⟩ := h
    obtain ⟨tokens, rfl⟩ := collectFee_ok hfee
    exact .of_consumes rfl (ensureTradeable_consumes hens) ⟨rfl, rfl⟩ ⟨rfl, rfl⟩
  | batchTrade trader orders feeToken feePerTrade feeRecipient =>
    simp only [exec, batchTrade, executeTradeBatch, bind_eq_ok, pure_eq_ok, Prod.mk.injEq] at h
    obtain ⟨⟨ns, s₁⟩, ⟨_, -, h⟩, -, rfl⟩ := h
    split at h
    · next hnil =>
      cases h
      exact .of_same (if_pos hnil) ⟨rfl, rfl⟩ ⟨rfl, rfl⟩
    · next hne =>
      simp only [bind_eq_ok, pure_eq_ok, Prod.mk.injEq] at h
      obtain ⟨_, -, _, -, s₂, hens, _, -, s₃, hfee, ⟨ms, market⟩, -, -, rfl⟩ := h
      obtain ⟨tokens, rfl⟩ := collectFee_ok hfee
      exact .of_consumes (if_neg hne) (ensureTradeable_consumes hens) ⟨rfl, rfl⟩ ⟨rfl, rfl⟩
  | createLimitOrder trader pair isBuy price amount tif =>
    obtain ⟨n, h, -⟩ := replyId_ok.mp h
    simp only [createLimitOrder, bind_eq_ok, pure_eq_ok, Prod.mk.injEq] at h
    obtain ⟨_, -, _, -, s₁, hc, _, -, _, -, _, -, ⟨k, market⟩, -, -, rfl⟩ := h
    exact .of_consumes rfl hc ⟨rfl, rfl⟩ ⟨rfl, rfl⟩
  | cancelOrder trader orderId =>
    obtain ⟨h, -⟩ := done_ok.mp h
    obtain ⟨-, market, -, rfl⟩ := cancelOrder_ok h
    exact .of_same rfl ⟨rfl, rfl⟩ ⟨rfl, rfl⟩
  | setRateLimitConfig admin cfg =>
    obtain ⟨-, rfl⟩ := setRateLimitConfig_ok (done_ok.mp h).1
    exact ⟨fun _ ht => (by cases ht), fun _ => ⟨rfl, rfl⟩, fun hr => (by cases hr)⟩
  | setPremiumUser admin user isPremium =>
    obtain rfl := setPremiumUser_ok (done_ok.mp h).1
    exact ⟨fun _ ht => (by cases ht), fun _ => ⟨rfl, rfl⟩, fun hr => (by cases hr)⟩
  | setPauseLevel admin level =>
    rw [breakerCall_ok (done_ok.mp h).1]
    exact .of_same rfl ⟨rfl, rfl⟩ ⟨rfl, rfl⟩
  | pauseFunction admin funcName =>
    rw [breakerCall_ok (done_ok.mp h).1]
    exact .of_same rfl ⟨rfl, rfl⟩ ⟨rfl, rfl⟩
  | unpauseFunction admin funcName =>
    rw [breakerCall_ok (done_ok.mp h).1]
    exact .of_same rfl ⟨rfl, rfl⟩ ⟨rfl, rfl⟩
  | pause admin =>
    rw [breakerCall_ok (done_ok.mp h).1]
    exact .of_same rfl ⟨rfl, rfl⟩ ⟨rfl, rfl⟩
  | unpause admin =>
    rw [breakerCall_ok (done_ok.mp h).1]
    exact .of_same rfl ⟨rfl, rfl⟩ ⟨rfl, rfl⟩
  | acl admin c =>
    obtain ⟨gov, rfl⟩ := aclCall_ok (done_ok.mp h).1
    exact .of_same rfl ⟨rfl, rfl⟩ ⟨rfl, rfl⟩
  | proposeUpgrade admin hash description approvers threshold delay =>
    obtain ⟨n, h, -⟩ := replyId_ok.mp h
    obtain ⟨gov, rfl⟩ := proposeUpgrade_ok h
    exact .of_same rfl ⟨rfl, rfl⟩ ⟨rfl, rfl⟩
  | approveUpgrade pid approver =>
    obtain ⟨gov, rfl⟩ := upgradeCall_ok (done_ok.mp h).1
    exact .of_same rfl ⟨rfl, rfl⟩ ⟨rfl, rfl⟩
  | executeUpgrade pid executor =>
    obtain ⟨gov, rfl⟩ := upgradeCall_ok (done_ok.mp h).1
    exact .of_same rfl ⟨rfl, rfl⟩ ⟨rfl, rfl⟩
  | rejectUpgrade pid rejector =>
    obtain ⟨gov, rfl⟩ := upgradeCall_ok (done_ok.mp h).1
    exact .of_same rfl ⟨rfl, rfl⟩ ⟨rfl, rfl⟩
  | cancelUpgrade pid admin =>
    obtain ⟨gov, rfl⟩ := upgradeCall_ok (done_ok.mp h).1
    exact .of_same rfl ⟨rfl, rfl⟩ ⟨rfl, rfl⟩
  | token c =>
    simp only [exec, bind_eq_ok, pure_eq_ok, Prod.mk.injEq] at h
    obtain ⟨tokens, -, -, rfl⟩ := h
    exact .of_same rfl ⟨rfl, rfl⟩ ⟨rfl, rfl⟩

end Calls

/-! ## Usage is acceptance -/

/-- **The counters count the accepted calls**, and the global one is the sum of the users'. -/
structure Counted (tr : Trace) (s : State) : Prop where
  user : ∀ trader window, getUserWindowUsage s trader window = acceptedBy trader window tr
  global : ∀ window, getGlobalWindowUsage s window = accepted window tr
  sum : ∀ window, (getGlobalWindowUsage s window : Int) = usersUsage s window

section Count

variable {env : Env} {s s' : State} {call : Call} {r : Reply} {trader : Address} {tr : Trace}
  {window : Nat}

theorem acceptedBy_cons (e : Event Env Call Reply State) :
    acceptedBy trader window (e :: tr) = acceptedBy trader window tr +
      if limited e.call = some trader ∧ windowOf e = window then 1 else 0 := by
  unfold acceptedBy
  rw [List.countP_cons]
  simp only [decide_eq_true_eq]

theorem accepted_cons (e : Event Env Call Reply State) :
    accepted window (e :: tr) = accepted window tr +
      if (limited e.call).isSome ∧ windowOf e = window then 1 else 0 := by
  unfold accepted
  rw [List.countP_cons]
  simp only [decide_eq_true_eq]

theorem SameUsage.user (h : SameUsage s s') :
    getUserWindowUsage s' trader window = getUserWindowUsage s trader window := by
  unfold getUserWindowUsage
  rw [h.userUsage]

theorem SameUsage.global (h : SameUsage s s') :
    getGlobalWindowUsage s' window = getGlobalWindowUsage s window := by
  unfold getGlobalWindowUsage
  rw [h.globalUsage]

theorem Consumes.user (h : Consumes env s s' trader) (trader' : Address) (window : Nat) :
    getUserWindowUsage s' trader' window = getUserWindowUsage s trader' window +
      if trader = trader' ∧ env.timestamp / (readRateLimitConfig s).windowSecs = window then 1
      else 0 := by
  unfold getUserWindowUsage
  rw [h.userUsage, Store.lookup_insert_eq]
  by_cases hkey : trader = trader' ∧ env.timestamp / (readRateLimitConfig s).windowSecs = window
  · obtain ⟨rfl, rfl⟩ := hkey
    rw [if_pos rfl, if_pos ⟨rfl, rfl⟩]
    rfl
  · rw [if_neg hkey, if_neg fun heq => hkey ⟨(Prod.mk.inj heq).1.symm, (Prod.mk.inj heq).2.symm⟩]
    rfl

theorem Consumes.global (h : Consumes env s s' trader) (window : Nat) :
    getGlobalWindowUsage s' window = getGlobalWindowUsage s window +
      if env.timestamp / (readRateLimitConfig s).windowSecs = window then 1 else 0 := by
  unfold getGlobalWindowUsage
  rw [h.globalUsage, Store.lookup_insert_eq]
  by_cases hkey : env.timestamp / (readRateLimitConfig s).windowSecs = window
  · rw [if_pos hkey, if_pos hkey.symm, hkey]
    rfl
  · rw [if_neg hkey, if_neg fun heq => hkey heq.symm]
    rfl

theorem Consumes.sum (h : Consumes env s s' trader) (window : Nat) :
    usersUsage s' window = usersUsage s window +
      if env.timestamp / (readRateLimitConfig s).windowSecs = window then 1 else 0 := by
  have hold : Store.old (fun (key : Address × Nat) (n : Nat) =>
      if key.2 = window then (n : Int) else 0) s.userUsage
        (trader, env.timestamp / (readRateLimitConfig s).windowSecs) =
      if env.timestamp / (readRateLimitConfig s).windowSecs = window then
        (getUserWindowUsage s trader (env.timestamp / (readRateLimitConfig s).windowSecs) : Int)
      else 0 := by
    unfold Store.old getUserWindowUsage
    cases s.userUsage.lookup (trader, env.timestamp / (readRateLimitConfig s).windowSecs) with
    | none => simp
    | some n => rfl
  unfold usersUsage
  rw [h.userUsage, Store.total_insert, hold]
  by_cases hkey : env.timestamp / (readRateLimitConfig s).windowSecs = window
  · rw [if_pos hkey, if_pos hkey, if_pos hkey]
    push_cast
    omega
  · rw [if_neg hkey, if_neg hkey, if_neg hkey]
    omega

/-- **One call** keeps the counters and the accepted calls together. -/
theorem Counted.step (h : Counted tr s) (hx : exec env call s = .ok (r, s')) :
    Counted (⟨env, call, r, s, s'⟩ :: tr) s' := by
  have hlimiter := exec_limiter hx
  cases hcall : limited call with
  | none =>
    have hsame := hlimiter.same hcall
    refine ⟨fun trader window => ?_, fun window => ?_, fun window => ?_⟩
    · rw [hsame.user, h.user, acceptedBy_cons]
      simp [hcall]
    · rw [hsame.global, h.global, accepted_cons]
      simp [hcall]
    · rw [hsame.global, h.sum]
      unfold usersUsage
      rw [hsame.userUsage]
  | some trader =>
    have hc := hlimiter.consumes trader hcall
    refine ⟨fun trader' window => ?_, fun window => ?_, fun window => ?_⟩
    · rw [hc.user, h.user, acceptedBy_cons]
      simp only [hcall, windowOf, Option.some.injEq]
    · rw [hc.global, h.global, accepted_cons]
      simp only [hcall, windowOf, Option.isSome_some, true_and]
    · rw [hc.global, hc.sum]
      push_cast
      rw [h.sum]

end Count

/-! ## The limits -/

/-- No window has more accepted calls than the limits of `s` allow. -/
structure WithinLimits (s : State) (tr : Trace) : Prop where
  user : ∀ trader window, acceptedBy trader window tr ≤ allowedUserLimit s trader
  global : ∀ window, accepted window tr ≤ (readRateLimitConfig s).globalLimit

section Limits

variable {env : Env} {s s' : State} {call : Call} {r : Reply} {tr recent earlier : Trace}

theorem acceptedBy_append (trader window : Nat) : acceptedBy trader window recent ≤
    acceptedBy trader window (recent ++ earlier) := by
  unfold acceptedBy
  rw [List.countP_append]
  exact Nat.le_add_right ..

theorem accepted_append (window : Nat) : accepted window recent ≤
    accepted window (recent ++ earlier) := by
  unfold accepted
  rw [List.countP_append]
  exact Nat.le_add_right ..

theorem LimitsKept.config (h : LimitsKept s s') : readRateLimitConfig s' = readRateLimitConfig s := by
  unfold readRateLimitConfig
  rw [h.rateLimit]

theorem LimitsKept.allowed (h : LimitsKept s s') (trader : Address) :
    allowedUserLimit s' trader = allowedUserLimit s trader := by
  unfold allowedUserLimit isPremiumUser
  rw [h.config, h.premium]

/-- A call that is accepted has found the counters below the limits. -/
theorem WithinLimits.step (h : WithinLimits s recent) (hcount : Counted (recent ++ earlier) s)
    (hx : exec env call s = .ok (r, s')) (hfix : reconfigures call = false) :
    WithinLimits s' (⟨env, call, r, s, s'⟩ :: recent) := by
  have hlimiter := exec_limiter hx
  have hsame := hlimiter.limits hfix
  refine ⟨fun trader window => ?_, fun window => ?_⟩
  · rw [hsame.allowed, acceptedBy_cons]
    have hbefore := h.user trader window
    by_cases hcall : limited call = some trader ∧
        env.timestamp / (readRateLimitConfig s).windowSecs = window
    · have hleft := (hlimiter.consumes trader hcall.1).userLeft
      rw [hcall.2, hcount.user] at hleft
      have hmore : acceptedBy trader window recent ≤ acceptedBy trader window (recent ++ earlier) :=
        acceptedBy_append trader window
      split <;> omega
    · exact le_of_eq_of_le (congrArg (acceptedBy trader window recent + ·) (if_neg hcall)) hbefore
  · rw [hsame.config, accepted_cons]
    have hbefore := h.global window
    by_cases hcall : (limited call).isSome ∧
        env.timestamp / (readRateLimitConfig s).windowSecs = window
    · obtain ⟨trader, htrader⟩ := Option.isSome_iff_exists.mp hcall.1
      have hleft := (hlimiter.consumes trader htrader).globalLeft
      rw [hcall.2, hcount.global] at hleft
      have hmore : accepted window recent ≤ accepted window (recent ++ earlier) :=
        accepted_append window
      split <;> omega
    · exact le_of_eq_of_le (congrArg (accepted window recent + ·) (if_neg hcall)) hbefore

end Limits

/-- **The rate limits.**  In every reachable state the usage recorded for a trader and a window is
the number of that trader's calls accepted in it, the global usage is the number of all calls
accepted in it and the sum of the users' usages; so a call that fails consumes nothing.  And while
configuration and premium users stay as they are, no window has more accepted calls of a trader
than the limit that applies to the trader, nor more accepted calls than the global limit. -/
theorem rate_limits {d : Deployment} {tr : Trace} {s : State} (h : Run (freshMachine d) tr s) :
    (∀ trader window, getUserWindowUsage s trader window = acceptedBy trader window tr) ∧
    (∀ window, getGlobalWindowUsage s window = accepted window tr) ∧
    (∀ window, (getGlobalWindowUsage s window : Int) = usersUsage s window) ∧
    ∀ recent earlier, tr = recent ++ earlier → (∀ e ∈ recent, reconfigures e.call = false) →
      (∀ trader window, acceptedBy trader window recent ≤ allowedUserLimit s trader) ∧
      ∀ window, accepted window recent ≤ (readRateLimitConfig s).globalLimit := by
  have key : Counted tr s ∧ ∀ recent earlier, tr = recent ++ earlier →
      (∀ e ∈ recent, reconfigures e.call = false) → WithinLimits s recent := by
    refine h.invariant_trace (I := fun tr s => Counted tr s ∧ ∀ recent earlier,
      tr = recent ++ earlier → (∀ e ∈ recent, reconfigures e.call = false) →
        WithinLimits s recent) ?_ ?_
    · rintro s ⟨-, huser, hglobal⟩
      refine ⟨⟨fun _ _ => ?_, fun _ => ?_, fun _ => ?_⟩, fun recent earlier heq _ => ?_⟩
      · unfold getUserWindowUsage
        rw [huser]
        rfl
      · unfold getGlobalWindowUsage
        rw [hglobal]
        rfl
      · unfold getGlobalWindowUsage usersUsage
        rw [hglobal, huser]
        rfl
      · obtain ⟨rfl, -⟩ := List.append_eq_nil_iff.mp heq.symm
        exact ⟨fun _ _ => Nat.zero_le _, fun _ => Nat.zero_le _⟩
    · rintro tr env call r s s' - - ⟨hcount, hlimits⟩ hx
      refine ⟨hcount.step hx, fun recent earlier heq hfix => ?_⟩
      cases recent with
      | nil => exact ⟨fun _ _ => Nat.zero_le _, fun _ => Nat.zero_le _⟩
      | cons e recent =>
        obtain ⟨rfl, rfl⟩ := List.cons.inj heq
        rw [List.forall_mem_cons] at hfix
        exact (hlimits recent earlier rfl hfix.2).step hcount hx hfix.1
  obtain ⟨hcount, hlimits⟩ := key
  exact ⟨hcount.user, hcount.global, hcount.sum, fun recent earlier heq hfix =>
    ⟨(hlimits recent earlier heq hfix).user, (hlimits recent earlier heq hfix).global⟩⟩

/-- Trader 2 may make one call a minute, the premium trader 3 two, and both do. -/
def busyMinute : List (Env × Call) :=
  [(callAt 0 [], .init 9 [] 9 ⟨1000, 1000, 60⟩),
    (callAt 0 [9], .setRateLimitConfig 9 ⟨60, 1, 3, 2⟩),
    (callAt 0 [9], .setPremiumUser 9 3 true),
    (callAt 1 [2], .createLimitOrder 2 "XLM" true 90 3 .gtc),
    (callAt 2 [3], .createLimitOrder 3 "XLM" true 90 3 .gtc),
    (callAt 3 [3], .createLimitOrder 3 "XLM" true 80 3 .gtc),
    (callAt 61 [2], .createLimitOrder 2 "XLM" true 80 3 .gtc)]

theorem rate_limits_busy : ∃ (tr : Trace) (s : State), Run (freshMachine ⟨0, true⟩) tr s ∧
    (readRateLimitConfig s).globalLimit = 3 ∧ accepted 0 tr = 3 ∧ acceptedBy 3 0 tr = 2 ∧
    allowedUserLimit s 2 = 1 ∧ ∀ window, acceptedBy 2 window (tr.take 4) ≤ 1 := by
  have hinit : (freshMachine ⟨0, true⟩).init { tokens := .empty } := ⟨⟨rfl, rfl⟩, rfl, rfl⟩
  obtain ⟨tr, s, hrun, hok⟩ := Machine.exists_run_of_replay hinit busyMinute
    (fun tr s => (readRateLimitConfig s).globalLimit = 3 ∧ getGlobalWindowUsage s 0 = 3 ∧
      getUserWindowUsage s 3 0 = 2 ∧ allowedUserLimit s 2 = 1 ∧
      ∀ e ∈ tr.take 4, reconfigures e.call = false)
    (show ∀ c ∈ busyMinute, (machine ⟨0, true⟩).valid c.1 c.2 by decide)
    (show busyMinute.Pairwise fun a b => a.1.timestamp ≤ b.1.timestamp by decide) (by decide)
  obtain ⟨hlimit, hglobal, huser, hallowed, hfix⟩ := of_decide_eq_true hok
  obtain ⟨hcount, htotal, -, hwithin⟩ := rate_limits hrun
  have hrecent := (hwithin (tr.take 4) (tr.drop 4) (List.take_append_drop 4 tr).symm hfix).1 2
  rw [hallowed] at hrecent
  exact ⟨tr, s, hrun, hlimit, (htotal 0).symm.trans hglobal, (hcount 3 0).symm.trans huser,
    hallowed, hrecent⟩

end Stellara.Trading
