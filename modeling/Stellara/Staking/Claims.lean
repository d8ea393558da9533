import Stellara.Staking.Accrual
import Mathlib.Tactic.Ring

/-!
# Splitting a claim

A user who claims `n` times instead of once gets at most the reward of one claim at the last
time, and less than it by fewer than `n` units: each claim drops less than one unit, and a
claim that would pay nothing is refused and leaves the time of the stake where it was.

    divisor * total ≤ P * (l - t₀)   and   P * (t - t₀) < divisor * (total + n)

with `P` the amount times the rate, `t₀` the stake's time before the claims, `l` its time after
them and `t` the time of the last one (`Tallied`).

The one claim has the largest product.  Where that does not fit in `i128` the claims may have
fitted each, and the single one fails or pays what is left of the product (`split_iff`).
-/

namespace Stellara.Staking

open Outcome

/-- The claims of `user` from the state `s` on, the last one first, with what they paid: other
calls that leave the stake alone may come in between. -/
inductive Claims (d : Deployment) (user : Address) (s : State) : List (Env × Int) → State → Prop
  | start : Claims d user s [] s
  | paid {cs : List (Env × Int)} {s₁ s₂ : State} {env : Env} {reward : Int} :
      Claims d user s cs s₁ → (openMachine d).valid env (.claim user) →
      (∀ c ∈ cs, c.1.timestamp < env.timestamp) → claim env s₁ user = .ok (reward, s₂) →
      Claims d user s ((env, reward) :: cs) s₂
  | refused {cs : List (Env × Int)} {s₁ : State} {env : Env} :
      Claims d user s cs s₁ → (openMachine d).valid env (.claim user) →
      (∀ c ∈ cs, c.1.timestamp < env.timestamp) →
      claim env s₁ user = .error (.err .nothingToClaim) → Claims d user s ((env, 0) :: cs) s₁
  | other {cs : List (Env × Int)} {s₁ s₂ : State} :
      Claims d user s cs s₁ → s₂.config = s₁.config →
      s₂.stakes.lookup user = s₁.stakes.lookup user → Claims d user s cs s₂

/-- What the claims paid. -/
def totalPaid (cs : List (Env × Int)) : Int := (cs.map Prod.snd).sum

theorem totalPaid_cons (env : Env) (reward : Int) (cs : List (Env × Int)) :
    totalPaid ((env, reward) :: cs) = reward + totalPaid cs := by
  simp [totalPaid]

/-! ## One claim -/

section Claim

variable {env : Env} {s s' : State} {user : Address} {st : UserStake} {reward : Int}

theorem claim_reward (h : claim env s user = .ok (reward, s')) (hst : s.stakes.lookup user = some st) :
    calculateRewards env s st = .ok reward ∧ 0 < reward ∧ s'.config = s.config ∧
      s'.stakes.lookup user = some (st.claimedAt env) := by
  simp only [claim, bind_eq_ok, require_eq_ok, requireAuth_eq_ok, exists_unit_and, ofOption_eq_ok,
    tokens_transfer_eq_ok, pure_eq_ok, Prod.mk.injEq] at h
  obtain ⟨-, st', hst', x, hx, hpos, c, -, tokens, -, rfl, rfl⟩ := h
  rw [hst] at hst'
  obtain rfl := Option.some.inj hst'
  refine ⟨hx, hpos, rfl, ?_⟩
  rw [Store.lookup_insert_eq, if_pos rfl]

/-- A refused claim had nothing to pay. -/
theorem le_zero_of_refused (h : claim env s user = .error (.err .nothingToClaim))
    (hst : s.stakes.lookup user = some st) (hr : calculateRewards env s st = .ok reward) :
    reward ≤ 0 := by
  by_contra hpos
  unfold claim at h
  -- with a reward to pay only the signature, the configuration and the transfer can fail
  refine Avoids.bind (avoids_require (by simp)) (fun _ _ => ?_) h
  simp only [hst, ofOption, ok_bind]
  rw [hr, ok_bind, require_pos _ (by omega), ok_bind]
  refine Avoids.bind (avoids_ofOption (by simp)) fun _ _ => ?_
  exact Avoids.bind (avoids_ofOption (by simp)) fun _ _ => avoids_pure _

/-- A claim that would pay nothing is refused. -/
theorem refused_of_le_zero (hs : user ∈ env.signers) (hst : s.stakes.lookup user = some st)
    (hr : calculateRewards env s st = .ok reward) (h : reward ≤ 0) :
    claim env s user = .error (.err .nothingToClaim) := by
  unfold claim Env.requireAuth
  rw [require_pos _ hs, ok_bind, hst]
  simp only [ofOption, ok_bind]
  rw [hr, ok_bind, require_neg _ (by omega)]
  rfl

end Claim

/-! ## The sum of the claims -/

/-- A smaller multiple of a value fits where a larger one does. -/
theorem inI128_of_le {x m n : Int} (hm : 0 ≤ m) (hmn : m ≤ n) (h : InI128 (x * n)) :
    InI128 (x * m) := by
  rw [inI128_iff] at h ⊢
  have hmax := zero_le_i128Max
  by_cases hx : 0 ≤ x
  · have h0 : 0 ≤ x * m := mul_nonneg hx hm
    have h1 : x * m ≤ x * n := mul_le_mul_of_nonneg_left hmn hx
    omega
  · have h0 : x * m ≤ 0 := mul_nonpos_of_nonpos_of_nonneg (by omega) hm
    have h1 : x * n ≤ x * m := mul_le_mul_of_nonpos_left hmn (by omega)
    omega

/-- The claims `cs` have paid for the time up to `l`, each short of its share by less than one
unit; `t` is the time of the last one. -/
structure Tallied (p : Int) (t₀ l t : Nat) (cs : List (Env × Int)) : Prop where
  le : t₀ ≤ l ∧ l ≤ t
  nonneg : 0 ≤ totalPaid cs
  lower : divisor * totalPaid cs ≤ p * (l - t₀)
  paidUpTo : p * (l - t₀) ≤ divisor * (totalPaid cs + cs.length)
  upper : cs ≠ [] → p * (t - t₀) < divisor * (totalPaid cs + cs.length)

section Sum

variable {p : Int} {t₀ l t t' : Nat} {cs : List (Env × Int)}

theorem tallied_nil (t₀ : Nat) (p : Int) : Tallied p t₀ t₀ t₀ [] := by
  constructor <;> simp [totalPaid]

/-- A claim that pays starts the time anew. -/
theorem Tallied.paid (h : Tallied p t₀ l t cs) (ht : t ≤ t') {env : Env} {reward : Int}
    (hpos : 0 < reward) (hr : reward = (p * (t' - l)).tdiv divisor) :
    Tallied p t₀ t' t' ((env, reward) :: cs) := by
  obtain ⟨⟨hle, hlt⟩, hnonneg, hlower, hpaid, -⟩ := h
  have hdiv := divisor_pos
  have hprod : 0 ≤ p * (t' - l) := by
    by_contra hneg
    have := accrued_le_zero_iff.mpr (show p * (t' - l) < divisor by omega)
    omega
  rw [Int.tdiv_eq_ediv_of_nonneg hprod] at hr
  have hfloor : divisor * reward ≤ p * (t' - l) := by
    rw [hr]
    exact Int.mul_ediv_self_le hdiv.ne'
  have hfloor' : p * (t' - l) < divisor * (reward + 1) := by
    rw [hr, mul_add, mul_one]
    exact Int.lt_mul_ediv_self_add hdiv
  have hsplit : p * ((t' : Int) - t₀) = p * (t' - l) + p * (l - t₀) := by ring
  constructor
  · omega
  · rw [totalPaid_cons]
    omega
  · rw [totalPaid_cons, hsplit, mul_add]
    omega
  · rw [totalPaid_cons, hsplit, List.length_cons]
    push_cast
    have : divisor * (reward + totalPaid cs + (cs.length + 1)) =
        divisor * (reward + 1) + divisor * (totalPaid cs + cs.length) := by ring
    omega
  · intro _
    rw [totalPaid_cons, hsplit, List.length_cons]
    push_cast
    have : divisor * (reward + totalPaid cs + (cs.length + 1)) =
        divisor * (reward + 1) + divisor * (totalPaid cs + cs.length) := by ring
    omega

/-- A refused claim leaves the time where it was. -/
theorem Tallied.refused (h : Tallied p t₀ l t cs) (ht : t ≤ t') {env : Env}
    (hr : (p * (t' - l)).tdiv divisor ≤ 0) : Tallied p t₀ l t' ((env, 0) :: cs) := by
  obtain ⟨⟨hle, hlt⟩, hnonneg, hlower, hpaid, -⟩ := h
  have hdiv := divisor_pos
  have hsmall := accrued_le_zero_iff.mp hr
  have hsplit : p * ((t' : Int) - t₀) = p * (t' - l) + p * (l - t₀) := by ring
  have hone : divisor * (totalPaid cs + (cs.length + 1)) =
      divisor + divisor * (totalPaid cs + cs.length) := by ring
  constructor
  · omega
  · rw [totalPaid_cons]
    omega
  · rw [totalPaid_cons, zero_add]
    exact hlower
  · rw [totalPaid_cons, List.length_cons, zero_add]
    push_cast
    omega
  · intro _
    rw [totalPaid_cons, hsplit, List.length_cons, zero_add]
    push_cast
    omega

/-- **The sum against one claim.** -/
theorem Tallied.bounds (h : Tallied p t₀ l t cs) (hne : cs ≠ []) :
    totalPaid cs ≤ max ((p * (t - t₀)).tdiv divisor) 0 ∧
      max ((p * (t - t₀)).tdiv divisor) 0 < totalPaid cs + cs.length := by
  obtain ⟨⟨hle, hlt⟩, hnonneg, hlower, -, hupper⟩ := h
  have hupper := hupper hne
  have hdiv := divisor_pos
  have hn : 0 < (cs.length : Int) := by exact_mod_cast List.length_pos_iff.mpr hne
  by_cases hp : 0 ≤ p
  · have hprod : 0 ≤ p * ((t : Int) - t₀) := mul_nonneg hp (by omega)
    have hmono : p * ((l : Int) - t₀) ≤ p * (t - t₀) :=
      mul_le_mul_of_nonneg_left (by omega) hp
    rw [Int.tdiv_eq_ediv_of_nonneg hprod, max_eq_left (Int.ediv_nonneg hprod hdiv.le)]
    constructor
    · rw [Int.le_ediv_iff_mul_le hdiv, mul_comm]
      omega
    · rw [Int.ediv_lt_iff_lt_mul hdiv, mul_comm _ divisor]
      exact hupper
  · -- a stake that wrapped around to a negative amount is paid nothing
    have hneg : p * ((t : Int) - t₀) ≤ 0 := mul_nonpos_of_nonpos_of_nonneg (by omega) (by omega)
    have hneg' : p * ((l : Int) - t₀) ≤ 0 := mul_nonpos_of_nonpos_of_nonneg (by omega) (by omega)
    have htotal : totalPaid cs ≤ 0 := by
      by_contra hpos
      have := mul_pos hdiv (show 0 < totalPaid cs by omega)
      omega
    rw [max_eq_right (accrued_le_zero_iff.mpr (by omega))]
    omega

end Sum

/-! ## The claims of a run -/

/-- The time of the last claim. -/
def lastTime (t₀ : Nat) : List (Env × Int) → Nat
  | [] => t₀
  | c :: _ => c.1.timestamp

theorem lastTime_le {t₀ t : Nat} {cs : List (Env × Int)} (h0 : t₀ ≤ t)
    (h : ∀ c ∈ cs, c.1.timestamp < t) : lastTime t₀ cs ≤ t := by
  cases cs with
  | nil => exact h0
  | cons c cs => exact (h c List.mem_cons_self).le

/-- The reward after earlier claims, where the product up to a later time fits. -/
theorem calculateRewards_later {env : Env} {s : State} {st : UserStake} {config : Config}
    {pool : PoolConfig} {l t : Nat} (hc : s.config = some config)
    (hp : config.pools[st.poolId]? = some pool) (hfit : InI128 (st.product pool t))
    (hl : st.lastClaimTimestamp ≤ l) (hle : l ≤ env.timestamp) (ht : env.timestamp ≤ t)
    (hmax : env.timestamp < 2 ^ 64) :
    calculateRewards env s { st with lastClaimTimestamp := l } =
      .ok ((st.amount * pool.apyBps * (env.timestamp - l)).tdiv divisor) := by
  refine calculateRewards_fits hc hp hle hmax ?_
  apply inI128_of_le _ _ hfit
  · show 0 ≤ (env.timestamp : Int) - l
    omega
  · show (env.timestamp : Int) - l ≤ t - st.lastClaimTimestamp
    omega

/-- Up to a time at which the product still fits, the claims are tallied. -/
theorem tallied_of_claims {d : Deployment} {user : Address} {s s' : State}
    {cs : List (Env × Int)} (h : Claims d user s cs s') {st : UserStake} {config : Config}
    {pool : PoolConfig} (hst : s.stakes.lookup user = some st) (hc : s.config = some config)
    (hp : config.pools[st.poolId]? = some pool) {t : Nat} (hfit : InI128 (st.product pool t))
    (htimes : ∀ c ∈ cs, st.lastClaimTimestamp ≤ c.1.timestamp ∧ c.1.timestamp ≤ t) :
    ∃ l, s'.config = s.config ∧
      s'.stakes.lookup user = some { st with lastClaimTimestamp := l } ∧
      Tallied (st.amount * pool.apyBps) st.lastClaimTimestamp l
        (lastTime st.lastClaimTimestamp cs) cs := by
  induction h with
  | start => exact ⟨st.lastClaimTimestamp, rfl, hst, tallied_nil _ _⟩
  | @paid cs s₁ s₂ env reward _ hv hlater hclaim ih =>
    rw [List.forall_mem_cons] at htimes
    obtain ⟨⟨hfirst, hend⟩, htimes⟩ := htimes
    obtain ⟨l, hconfig, hst₁, htally⟩ := ih htimes
    obtain ⟨hr, hpos, hconfig', hst₂⟩ := claim_reward hclaim hst₁
    have hlt := lastTime_le hfirst hlater
    have hl := htally.le
    rw [calculateRewards_later (hconfig.trans hc) hp hfit hl.1 (hl.2.trans hlt) hend hv.2] at hr
    exact ⟨env.timestamp, hconfig'.trans hconfig, hst₂,
      htally.paid hlt hpos (Except.ok.inj hr).symm⟩
  | @refused cs s₁ env _ hv hlater hclaim ih =>
    rw [List.forall_mem_cons] at htimes
    obtain ⟨⟨hfirst, hend⟩, htimes⟩ := htimes
    obtain ⟨l, hconfig, hst₁, htally⟩ := ih htimes
    have hlt := lastTime_le hfirst hlater
    have hl := htally.le
    have hr := calculateRewards_later (hconfig.trans hc) hp hfit hl.1 (hl.2.trans hlt) hend hv.2
    exact ⟨l, hconfig, hst₁, htally.refused hlt (le_zero_of_refused hclaim hst₁ hr)⟩
  | other _ hconfig' hst' ih =>
    obtain ⟨l, hconfig, hst₁, htally⟩ := ih htimes
    exact ⟨l, hconfig'.trans hconfig, hst'.trans hst₁, htally⟩

/-- What the claims `cs` paid against one claim made in `env` instead, whichever build runs:
it pays no less, and less than `n` units more. -/
def SplitLaw (env : Env) (s : State) (st : UserStake) (cs : List (Env × Int)) : Prop :=
  ∀ checks, ∃ r, calculateRewards { env with overflowChecks := checks } s st = .ok r ∧
    totalPaid cs ≤ max r 0 ∧ max r 0 < totalPaid cs + cs.length

/-- The times of a sequence of claims are times, and do not go back. -/
theorem times_le_last {d : Deployment} {user : Address} {s s' : State} {cs : List (Env × Int)}
    (h : Claims d user s cs s') (t₀ : Nat) :
    ∀ c ∈ cs, c.1.timestamp ≤ lastTime t₀ cs ∧ c.1.timestamp < 2 ^ 64 := by
  induction h with
  | start => intro c hc; cases hc
  | paid _ hv hlater _ ih | refused _ hv hlater _ ih =>
    rw [List.forall_mem_cons]
    exact ⟨⟨le_refl _, hv.2⟩, fun c hc => ⟨(hlater c hc).le, (ih c hc).2⟩⟩
  | other _ _ _ ih => exact ih

/-- **Splitting a claim.**  For the claims of a user from a reachable state on, the last of them
in `env`: the law holds exactly when the product up to the last time fits.  A claim that would
pay nothing is refused. -/
theorem split_iff {d : Deployment} {tr : Trace} {s s' : State} (h : Run (openMachine d) tr s)
    (user : Address) (st : UserStake) (hst : s.stakes.lookup user = some st) (env : Env) (r : Int)
    (cs : List (Env × Int)) (hclaims : Claims d user s ((env, r) :: cs) s')
    (hafter : ∀ c ∈ (env, r) :: cs, ∀ e ∈ tr, e.env.timestamp ≤ c.1.timestamp) :
    (SplitLaw env s st ((env, r) :: cs) ↔ InI128 (stakedProduct s user env.timestamp)) ∧
      ∀ env s st x, s.stakes.lookup user = some st → user ∈ env.signers →
        calculateRewards env s st = .ok x → x ≤ 0 →
        claim env s user = .error (.err .nothingToClaim) := by
  refine ⟨?_, fun env s st x hst hs hx hle => refused_of_le_zero hs hst hx hle⟩
  have hacc := accruing h
  obtain ⟨config, pool, hc, hp, -, hlast⟩ :=
    hacc.stake hst (hafter (env, r) List.mem_cons_self)
  have htimes := times_le_last hclaims st.lastClaimTimestamp
  have ht : env.timestamp < 2 ^ 64 := (htimes _ List.mem_cons_self).2
  rw [stakedProduct_of hst hc hp]
  constructor
  · intro hlaw
    obtain ⟨x, hx, -⟩ := hlaw true
    exact @fits_of_calculateRewards { env with overflowChecks := true } _ _ _ _ hc hp hlast ht rfl _ hx
  · intro hfit checks
    have hfirst : ∀ c ∈ (env, r) :: cs, st.lastClaimTimestamp ≤ c.1.timestamp := by
      intro c hmem
      obtain ⟨_, _, -, -, -, hle⟩ := hacc.stake hst (hafter c hmem)
      exact hle
    obtain ⟨l, -, -, htally⟩ := tallied_of_claims hclaims hst hc hp hfit fun c hmem =>
      ⟨hfirst c hmem, (htimes c hmem).1⟩
    exact ⟨_, @calculateRewards_fits { env with overflowChecks := checks } _ _ _ _ hc hp hlast ht
      hfit, htally.bounds (List.cons_ne_nil _ _)⟩

/-! ## Two runs -/

/-- Claims in the given environments, one after another. -/
def claimAll (user : Address) : State → List (Env × Int) → List Env →
    Option (List (Env × Int) × State)
  | s, cs, [] => some (cs, s)
  | s, cs, env :: rest =>
    match claim env s user with
    | .ok (reward, s') => claimAll user s' ((env, reward) :: cs) rest
    | .error e => if e = .err .nothingToClaim then claimAll user s ((env, 0) :: cs) rest else none

theorem claims_of_claimAll {d : Deployment} {user : Address} {s : State} {envs : List Env}
    (hv : ∀ env ∈ envs, (openMachine d).valid env (.claim user))
    (hsorted : envs.Pairwise fun a b => a.timestamp < b.timestamp) :
    ∀ {s₁ s' : State} {cs cs' : List (Env × Int)}, Claims d user s cs s₁ →
      (∀ c ∈ cs, ∀ env ∈ envs, c.1.timestamp < env.timestamp) →
      claimAll user s₁ cs envs = some (cs', s') → Claims d user s cs' s' := by
  induction envs with
  | nil =>
    intro s₁ s' cs cs' h _ hall
    obtain ⟨rfl, rfl⟩ := Prod.mk.inj (Option.some.inj hall)
    exact h
  | cons env rest ih =>
    intro s₁ s' cs cs' h hbefore hall
    rw [List.pairwise_cons] at hsorted
    rw [List.forall_mem_cons] at hv
    have hlater : ∀ c ∈ cs, c.1.timestamp < env.timestamp :=
      fun c hc => hbefore c hc env List.mem_cons_self
    have hrest : ∀ r : Int, ∀ c ∈ (env, r) :: cs, ∀ env' ∈ rest,
        c.1.timestamp < env'.timestamp := by
      intro r
      rw [List.forall_mem_cons]
      exact ⟨hsorted.1, fun c hc env' he => hbefore c hc env' (List.mem_cons_of_mem _ he)⟩
    unfold claimAll at hall
    split at hall
    next reward s₂ hclaim =>
      exact ih hv.2 hsorted.2 (.paid h hv.1 hlater hclaim) (hrest reward) hall
    next e hclaim =>
      split at hall
      next he =>
        rw [he] at hclaim
        exact ih hv.2 hsorted.2 (.refused h hv.1 hlater hclaim) (hrest 0) hall
      · cases hall

/-- A stake of `amount` at 15 percent, with rewards of `10 ^ 28` to pay. -/
def stakeOf (amount : Int) : List (Env × Call) :=
  [(callAt 0 [], .token (.mint 5 1 amount)), (callAt 0 [], .token (.mint 6 0 (10 ^ 28))),
    (callAt 0 [], .initializeContract 9 5 6), (callAt 0 [1], .stake 1 amount 2)]

/-- Three claims, the second an hour after the first and refused. -/
theorem split_three_claims :
    ∃ (tr : Trace) (s s' : State) (st : UserStake) (cs : List (Env × Int)),
      Run (openMachine ⟨0, true⟩) tr s ∧ s.stakes.lookup 1 = some st ∧
      Claims ⟨0, true⟩ 1 s ((callAt (60 * day) [1], 12) :: cs) s' ∧ cs.length = 2 ∧
      SplitLaw (callAt (60 * day) [1]) s st ((callAt (60 * day) [1], 12) :: cs) := by
  have hinit : (openMachine ⟨0, true⟩).init { tokens := .empty } := ⟨rfl, rfl⟩
  obtain ⟨tr, s, hrun, hok⟩ := Machine.exists_run_of_replay hinit (stakeOf 1000)
    (fun tr s => s.stakes.lookup 1 = some ⟨1000, 2, 0, 0⟩ ∧ (∀ e ∈ tr, e.env.timestamp ≤ 0) ∧
      (claimAll 1 s [] [callAt (30 * day) [1], callAt (30 * day + 3600) [1],
        callAt (60 * day) [1]]).map Prod.fst =
        some [(callAt (60 * day) [1], 12), (callAt (30 * day + 3600) [1], 0),
          (callAt (30 * day) [1], 12)] ∧
      InI128 (stakedProduct s 1 (60 * day))) (by decide) (by decide) (by decide)
  obtain ⟨hst, hstart, hall, hfit⟩ := of_decide_eq_true hok
  obtain ⟨⟨cs, s'⟩, hcs, rfl⟩ := Option.map_eq_some_iff.mp hall
  have hclaims := claims_of_claimAll (d := ⟨0, true⟩) (by decide) (by decide) .start
    (fun c hc => by cases hc) hcs
  refine ⟨tr, s, s', _, _, hrun, hst, hclaims, rfl, ?_⟩
  refine (split_iff hrun 1 _ hst _ _ _ hclaims ?_).1.mpr hfit
  intro c _ e he
  exact (hstart e he).trans (Nat.zero_le _)

/-- A stake of `6 * 10 ^ 27`: two claims half a year apart are paid, the one claim after the
year has a product that does not fit.  It fails with overflow checks and is refused without. -/
theorem split_overflows :
    ∃ (tr : Trace) (s s' : State) (st : UserStake) (cs : List (Env × Int)),
      Run (openMachine ⟨0, true⟩) tr s ∧ s.stakes.lookup 1 = some st ∧
      Claims ⟨0, true⟩ 1 s ((callAt (365 * day) [1], 45 * 10 ^ 25) :: cs) s' ∧
      totalPaid cs = 45 * 10 ^ 25 ∧
      (∀ x, claim (callAt (365 * day) [1]) s 1 ≠ .ok x) ∧
      claim ⟨⟨0, false⟩, 365 * day, 0, [1]⟩ s 1 = .error (.err .nothingToClaim) ∧
      ¬ SplitLaw (callAt (365 * day) [1]) s st ((callAt (365 * day) [1], 45 * 10 ^ 25) :: cs) := by
  have hinit : (openMachine ⟨0, true⟩).init { tokens := .empty } := ⟨rfl, rfl⟩
  obtain ⟨tr, s, hrun, hok⟩ := Machine.exists_run_of_replay hinit (stakeOf (6 * 10 ^ 27))
    (fun _ s => s.stakes.lookup 1 = some ⟨6 * 10 ^ 27, 2, 0, 0⟩ ∧
      (claimAll 1 s [] [callAt (365 * day / 2) [1], callAt (365 * day) [1]]).map Prod.fst =
        some [(callAt (365 * day) [1], 45 * 10 ^ 25),
          (callAt (365 * day / 2) [1], 45 * 10 ^ 25)] ∧
      (claim (callAt (365 * day) [1]) s 1).isOk = false ∧
      failsWith (claim ⟨⟨0, false⟩, 365 * day, 0, [1]⟩ s 1) (.err .nothingToClaim) ∧
      (calculateRewards (callAt (365 * day) [1]) s ⟨6 * 10 ^ 27, 2, 0, 0⟩).isOk = false)
    (by decide) (by decide) (by decide)
  obtain ⟨hst, hall, hfail, hrefused, hnone⟩ := of_decide_eq_true hok
  obtain ⟨⟨cs, s'⟩, hcs, rfl⟩ := Option.map_eq_some_iff.mp hall
  have hclaims := claims_of_claimAll (d := ⟨0, true⟩) (by decide) (by decide) .start
    (fun c hc => by cases hc) hcs
  refine ⟨tr, s, s', _, _, hrun, hst, hclaims, rfl, ?_, eq_of_failsWith hrefused, ?_⟩
  · intro x hx
    rw [hx] at hfail
    cases hfail
  · intro hlaw
    obtain ⟨x, hx, -⟩ := hlaw true
    have hx' : calculateRewards (callAt (365 * day) [1]) s ⟨6 * 10 ^ 27, 2, 0, 0⟩ = .ok x := hx
    rw [hx'] at hnone
    cases hnone

end Stellara.Staking
