import Stellara.Insurance.Model

/-!
# The books of the insurance pool

`Books` relates the pool's counters to the stored policies and to the contract's balance:

    reserved = Σ coverage of active policies ≤ total liquidity ≤ balance

Every operation on the pool keeps the books, and moves the total liquidity by the tokens
it moves.  A policy leaves `Active` by one function (`release`), so what its end does to
the books is said once (`Books.ended`).
-/

namespace Stellara.Insurance

open Outcome

/-- The sum of the coverage of the active policies. -/
def activeCoverage (s : State) : Int :=
  Store.total (fun _ policy => if policy.status = .active then policy.coverageAmount else 0)
    s.policies

/-- The number of active policies. -/
def activeCount (s : State) : Int :=
  Store.total (fun _ policy => if policy.status = .active then 1 else 0) s.policies

/-! ## Reading after writing -/

section Writing

variable (s : State) (policy : InsurancePolicy) (status : PolicyStatus)

/-- Writing a policy touches nothing but the policies and the index of its holder. -/
theorem setPolicy_eq : ∃ index, setPolicy s policy =
    { s with policies := s.policies.insert policy.id policy, policyIdsByHolder := index } := by
  unfold setPolicy addPolicyToHolderIndex
  dsimp only
  split
  · exact ⟨s.policyIdsByHolder, rfl⟩
  · exact ⟨_, rfl⟩

/-- The state a release leaves, up to the index of the holder. -/
theorem release_eq : ∃ index, release s policy status =
    { s with
      policies := s.policies.insert policy.id { policy with status }
      policyIdsByHolder := index
      pool := { s.pool with
        reservedLiquidity := saturatingSub s.pool.reservedLiquidity policy.coverageAmount
        activePolicies := s.pool.activePolicies - 1 } } :=
  setPolicy_eq _ _

end Writing

theorem saturatingSub_exact {x y : Int} (hx : x ≤ i128Max) (hy : 0 ≤ y) (hle : y ≤ x) :
    saturatingSub x y = x - y := by
  unfold saturatingSub Checked.saturate
  unfold i128Max at hx
  omega

/-! ## The functions, taken apart -/

section Parts

variable {env : Env} {s s' : State} {r : Reply}

theorem done_ok {x : Result State} : done x = .ok (r, s') ↔ x = .ok s' ∧ r = .done := answer_eq_ok

theorem init_ok {admin poolToken : Address} {sources : List Address} {staleness minSources : Nat}
    (h : init env s admin poolToken sources staleness minSources = .ok s') :
    s.initialized = false ∧
      s' = { s with admin := some admin, poolToken := some poolToken
                    oracleConfig := some ⟨sources, staleness, minSources⟩
                    pool := {}, initialized := true } := by
  simp only [init, bind_eq_ok, require_eq_ok, exists_unit_and, pure_eq_ok] at h
  exact ⟨h.1, h.2.2.symm⟩

theorem updateOracleConfig_ok {admin : Address} {sources : List Address}
    {staleness minSources : Nat}
    (h : updateOracleConfig env s admin sources staleness minSources = .ok s') :
    s' = { s with oracleConfig := some ⟨sources, staleness, minSources⟩ } := by
  simp only [updateOracleConfig, bind_eq_ok, exists_unit_and, pure_eq_ok] at h
  exact h.2.symm

theorem pause_ok {admin : Address} (h : pause env s admin = .ok s') :
    s.initialized = true ∧ s' = { s with paused := true } := by
  simp only [pause, requireAdminAuth, requireInitialized, bind_eq_ok, require_eq_ok,
    exists_unit_and, pure_eq_ok] at h
  exact ⟨h.1.1, h.2.symm⟩

theorem unpause_ok {admin : Address} (h : unpause env s admin = .ok s') :
    s' = { s with paused := false } := by
  simp only [unpause, bind_eq_ok, exists_unit_and, pure_eq_ok] at h
  exact h.2.symm

theorem depositLiquidity_ok {provider : Address} {amount : Int}
    (h : depositLiquidity env s provider amount = .ok s') :
    s.initialized = true ∧ 0 < amount ∧ provider ∈ env.signers ∧ ∃ token tokens index total,
      s.poolToken = some token ∧
      Ledger.transfer i128Max s.tokens token provider env.self amount = some tokens ∧
      (env.i128 (s.pool.totalLiquidity + amount) : Result Int) = .ok total ∧
      s' = { s with tokens, lpBalances := index
                    pool := { s.pool with totalLiquidity := total } } := by
  simp only [depositLiquidity, requireInitialized, requireNotPaused, bind_eq_ok, require_eq_ok,
    requireAuth_eq_ok, exists_unit_and, ofOption_eq_ok, tokens_transfer_eq_ok, pure_eq_ok] at h
  obtain ⟨-, hi, ha, hp, token, ht, tokens, htr, balance, -, total, htot, rfl⟩ := h
  exact ⟨hi, ha, hp, token, tokens, _, total, ht, htr, htot, rfl⟩

theorem withdrawLiquidity_ok {provider : Address} {amount : Int}
    (h : withdrawLiquidity env s provider amount = .ok s') :
    s.initialized = true ∧ 0 < amount ∧ amount ≤ s.pool.availableLiquidity ∧
      ∃ token tokens index total, s.poolToken = some token ∧
      Ledger.transfer i128Max s.tokens token env.self provider amount = some tokens ∧
      (env.i128 (s.pool.totalLiquidity - amount) : Result Int) = .ok total ∧
      s' = { s with tokens, lpBalances := index
                    pool := { s.pool with totalLiquidity := total } } := by
  simp only [withdrawLiquidity, requireInitialized, requireNotPaused, bind_eq_ok, require_eq_ok,
    requireAuth_eq_ok, exists_unit_and, ofOption_eq_ok, tokens_transfer_eq_ok, pure_eq_ok] at h
  obtain ⟨-, hi, ha, -, -, hav, token, ht, tokens, htr, balance, -, total, htot, rfl⟩ := h
  exact ⟨hi, ha, hav, token, tokens, _, total, ht, htr, htot, rfl⟩

theorem createPolicy_ok {policyholder : Address} {terms : PolicyTerms} {n : Nat}
    (h : createPolicy env s policyholder terms = .ok (n, s')) :
    s.initialized = true ∧ 0 < terms.coverageAmount ∧ 0 < terms.premiumAmount ∧
      policyholder ∈ env.signers ∧ terms.coverageAmount ≤ s.pool.availableLiquidity ∧
      ∃ token tokens endTime total reserved premiums index, s.poolToken = some token ∧
      Ledger.transfer i128Max s.tokens token policyholder env.self terms.premiumAmount =
        some tokens ∧
      (env.i128 (s.pool.totalLiquidity + terms.premiumAmount) : Result Int) = .ok total ∧
      (env.i128 (s.pool.reservedLiquidity + terms.coverageAmount) : Result Int) = .ok reserved ∧
      s' = { s with
        tokens
        policyCounter := s.policyCounter + 1
        policies := s.policies.insert (s.policyCounter + 1)
          (newPolicy env (s.policyCounter + 1) policyholder terms endTime)
        policyIdsByHolder := index
        pool := { totalLiquidity := total, reservedLiquidity := reserved
                  totalPremiumsCollected := premiums, totalPayouts := s.pool.totalPayouts
                  totalPolicies := s.pool.totalPolicies + 1
                  activePolicies := s.pool.activePolicies + 1 } } := by
  simp only [createPolicy, requireInitialized, requireNotPaused, bind_eq_ok, require_eq_ok,
    requireAuth_eq_ok, exists_unit_and, ofOption_eq_ok, tokens_transfer_eq_ok, pure_eq_ok,
    Prod.mk.injEq] at h
  obtain ⟨-, hi, ⟨hc, hp⟩, -, hs, hav, token, ht, tokens, htr, endTime, -, total, htot, reserved,
    hres, premiums, -, -, rfl⟩ := h
  obtain ⟨index, hset⟩ := setPolicy_eq { s with tokens, policyCounter := s.policyCounter + 1 }
    (newPolicy env (s.policyCounter + 1) policyholder terms endTime)
  refine ⟨hi, hc, hp, hs, hav, token, tokens, endTime, total, reserved, premiums, index, ht, htr,
    htot, hres, ?_⟩
  rw [hset]
  rfl

theorem cancelPolicy_ok {policyholder : Address} {policyId : Nat}
    (h : cancelPolicy env s policyholder policyId = .ok s') :
    ∃ policy, getPolicy s policyId = some policy ∧ policy.status = .active ∧
      s' = release s policy .cancelled := by
  simp only [cancelPolicy, requireNotPaused, bind_eq_ok, require_eq_ok, requireAuth_eq_ok,
    exists_unit_and, ofOption_eq_ok, pure_eq_ok] at h
  obtain ⟨-, -, policy, hr, -, hst, rfl⟩ := h
  refine ⟨policy, hr, ?_, rfl⟩
  cases hs : policy.status with
  | active => rfl
  | expired => rw [hs] at hst; cases hst
  | claimed => rw [hs] at hst; cases hst
  | cancelled => rw [hs] at hst; cases hst

theorem expirePolicy_ok {policyId : Nat} (h : expirePolicy env s policyId = .ok s') :
    ∃ policy, getPolicy s policyId = some policy ∧ policy.status = .active ∧
      s' = release s policy .expired := by
  simp only [expirePolicy, requireInitialized, bind_eq_ok, require_eq_ok, exists_unit_and,
    ofOption_eq_ok, pure_eq_ok] at h
  obtain ⟨-, policy, hr, hst, -, rfl⟩ := h
  exact ⟨policy, hr, hst, rfl⟩

theorem payPolicy_ok {policy : InsurancePolicy} (h : payPolicy env s policy = .ok s') :
    ∃ token tokens payouts, s.poolToken = some token ∧
      Ledger.transfer i128Max s.tokens token env.self policy.policyholder policy.coverageAmount =
        some tokens ∧
      s' = release { s with tokens, pool := { s.pool with
        totalLiquidity := saturatingSub s.pool.totalLiquidity policy.coverageAmount
        totalPayouts := payouts } } policy .claimed := by
  simp only [payPolicy, bind_eq_ok, ofOption_eq_ok, tokens_transfer_eq_ok, pure_eq_ok] at h
  obtain ⟨token, ht, tokens, htr, payouts, -, rfl⟩ := h
  exact ⟨token, tokens, payouts, ht, htr, rfl⟩

theorem checkTrigger_ok {fetch : Fetch} {policyId : Nat} {b : Bool}
    (h : checkTrigger env s fetch policyId = .ok (b, s')) :
    ∃ policy, getPolicy s policyId = some policy ∧ policy.status = .active ∧
      env.timestamp ≤ policy.endTime ∧
      (b = false ∧ s' = s ∨ b = true ∧ payPolicy env s policy = .ok s') := by
  simp only [checkTrigger, requireInitialized, bind_eq_ok, require_eq_ok, exists_unit_and,
    ofOption_eq_ok] at h
  obtain ⟨-, policy, hr, hst, hle, config, -, value, -, h⟩ := h
  refine ⟨policy, hr, hst, hle, ?_⟩
  split at h
  · simp only [bind_eq_ok, pure_eq_ok, Prod.mk.injEq] at h
    obtain ⟨s1, hp, rfl, rfl⟩ := h
    exact .inr ⟨rfl, hp⟩
  · cases h
    exact .inl ⟨rfl, rfl⟩

end Parts

/-! ## The books -/

/-- **The books of the pool.** -/
structure Books (d : Deployment) (s : State) : Prop where
  fresh : s.initialized = false → s.policies = ∅ ∧ s.pool = {}
  funded : s.initialized = true → ∃ token, s.poolToken = some token ∧
    s.pool.totalLiquidity ≤ s.tokens.balance token d.self
  bounded : s.pool.totalLiquidity ≤ i128Max
  reserved : s.pool.reservedLiquidity = activeCoverage s
  count : (s.pool.activePolicies : Int) = activeCount s
  covered : s.pool.reservedLiquidity ≤ s.pool.totalLiquidity
  policy : ∀ id policy, getPolicy s id = some policy →
    policy.id = id ∧ id ≤ s.policyCounter ∧ 0 < policy.coverageAmount

section Books

variable {d : Deployment} {s s' : State}

theorem Books.reserved_nonneg (h : Books d s) : 0 ≤ s.pool.reservedLiquidity := by
  rw [h.reserved]
  apply Store.total_nonneg
  intro id policy hr
  have hpos := (h.policy id policy hr).2.2
  show 0 ≤ if policy.status = .active then policy.coverageAmount else 0
  split <;> omega

theorem Books.available (h : Books d s) :
    s.pool.availableLiquidity = s.pool.totalLiquidity - s.pool.reservedLiquidity :=
  saturatingSub_exact h.bounded h.reserved_nonneg h.covered

theorem Books.initialized {id : Nat} {policy : InsurancePolicy} (h : Books d s)
    (hr : getPolicy s id = some policy) : s.initialized = true := by
  by_contra hi
  rw [Bool.not_eq_true] at hi
  unfold getPolicy at hr
  rw [(h.fresh hi).1] at hr
  cases hr

/-- The coverage of an active policy is part of the reservation, and it is counted. -/
theorem Books.active_le {id : Nat} {policy : InsurancePolicy} (h : Books d s)
    (hr : getPolicy s id = some policy) (ha : policy.status = .active) :
    policy.coverageAmount ≤ s.pool.reservedLiquidity ∧ 1 ≤ s.pool.activePolicies := by
  constructor
  · have hle := Store.le_total (f := fun _ (p : InsurancePolicy) =>
      if p.status = .active then p.coverageAmount else 0) (s := s.policies) (k := id) (v := policy) ?_ hr
    · rw [h.reserved]
      rw [if_pos ha] at hle
      exact hle
    · intro id' p hr'
      have hpos := (h.policy id' p hr').2.2
      show 0 ≤ if p.status = .active then p.coverageAmount else 0
      split <;> omega
  · have hle := Store.le_total (f := fun _ (p : InsurancePolicy) =>
      if p.status = .active then (1 : Int) else 0) (s := s.policies) (k := id) (v := policy) ?_ hr
    · have hc := h.count
      unfold activeCount at hc
      rw [if_pos ha] at hle
      omega
    · intro id' p hr'
      show 0 ≤ if p.status = .active then (1 : Int) else 0
      split <;> omega

/-- Nothing of the books changes but the tokens, of which the contract loses none. -/
theorem Books.idle (h : Books d s) (hp : s'.policies = s.policies) (hpool : s'.pool = s.pool)
    (hc : s'.policyCounter = s.policyCounter) (hi : s'.initialized = s.initialized)
    (ht : s'.poolToken = s.poolToken)
    (hb : ∀ token, s.tokens.balance token d.self ≤ s'.tokens.balance token d.self) :
    Books d s' := by
  refine ⟨?_, ?_, ?_, ?_, ?_, ?_, ?_⟩
  · rw [hi, hp, hpool]; exact h.fresh
  · rw [hi, ht, hpool]
    intro hinit
    obtain ⟨token, htok, hle⟩ := h.funded hinit
    exact ⟨token, htok, hle.trans (hb token)⟩
  · rw [hpool]; exact h.bounded
  · unfold activeCoverage; rw [hpool, hp]; exact h.reserved
  · unfold activeCount; rw [hpool, hp]; exact h.count
  · rw [hpool]; exact h.covered
  · unfold getPolicy; rw [hp, hc]; exact h.policy

/-- **Liquidity moves** with the same amount of tokens. -/
theorem Books.moved {token : Address} {tokens : Tokens} {index : Store Address Int} {total : Int}
    (h : Books d s) (hi : s.initialized = true) (ht : s.poolToken = some token)
    (hb : total ≤ tokens.balance token d.self) (hmax : total ≤ i128Max)
    (hcov : s.pool.reservedLiquidity ≤ total) :
    Books d { s with tokens, lpBalances := index, pool := { s.pool with totalLiquidity := total } } := by
  refine ⟨?_, fun _ => ⟨token, ht, hb⟩, hmax, h.reserved, h.count, hcov, h.policy⟩
  intro hfalse
  rw [show s.initialized = false from hfalse] at hi
  cases hi

/-- **A policy ends**: it leaves `Active` and its reservation is released. -/
theorem Books.ended {id : Nat} {policy : InsurancePolicy} {status : PolicyStatus} (h : Books d s)
    (hr : getPolicy s id = some policy) (ha : policy.status = .active) (hst : status ≠ .active)
    (hp : s'.policies = s.policies.insert policy.id { policy with status })
    (hc : s'.policyCounter = s.policyCounter) (hi : s'.initialized = s.initialized)
    (hres : s'.pool.reservedLiquidity =
      saturatingSub s.pool.reservedLiquidity policy.coverageAmount)
    (hact : s'.pool.activePolicies = s.pool.activePolicies - 1)
    (hcov : s.pool.reservedLiquidity - policy.coverageAmount ≤ s'.pool.totalLiquidity)
    (hmax : s'.pool.totalLiquidity ≤ i128Max)
    (hfund : ∃ token, s'.poolToken = some token ∧
      s'.pool.totalLiquidity ≤ s'.tokens.balance token d.self) : Books d s' := by
  obtain ⟨hkey, hle, hpos⟩ := h.policy id policy hr
  obtain ⟨hpart, hone⟩ := h.active_le hr ha
  have hexact : saturatingSub s.pool.reservedLiquidity policy.coverageAmount =
      s.pool.reservedLiquidity - policy.coverageAmount :=
    saturatingSub_exact (h.covered.trans h.bounded) hpos.le hpart
  have hlookup : s.policies.lookup policy.id = some policy := by rw [hkey]; exact hr
  refine ⟨?_, fun _ => hfund, hmax, ?_, ?_, ?_, ?_⟩
  · rw [hi, h.initialized hr]
    intro hfalse
    cases hfalse
  · have hsum := h.reserved
    unfold activeCoverage at hsum ⊢
    rw [hp, Store.total_insert, Store.old_of_lookup hlookup, if_pos ha, if_neg hst, hres, hexact]
    omega
  · have hsum := h.count
    unfold activeCount at hsum ⊢
    rw [hp, Store.total_insert, Store.old_of_lookup hlookup, if_pos ha, if_neg hst, hact]
    omega
  · rw [hres, hexact]; exact hcov
  · intro id' p hr'
    unfold getPolicy at hr'
    rw [hp, Store.lookup_insert_eq] at hr'
    rw [hc]
    split at hr'
    · next heq => cases hr'; rw [heq]; exact ⟨rfl, by rw [hkey]; exact hle, hpos⟩
    · exact h.policy id' p hr'

/-- Releasing an active policy of `s` keeps the books. -/
theorem Books.release {id : Nat} {policy : InsurancePolicy} {status : PolicyStatus} (h : Books d s)
    (hr : getPolicy s id = some policy) (ha : policy.status = .active) (hst : status ≠ .active) :
    Books d (release s policy status) := by
  have hpos := (h.policy id policy hr).2.2
  have hcov := h.covered
  obtain ⟨index, heq⟩ := release_eq s policy status
  rw [heq]
  refine h.ended hr ha hst rfl rfl rfl rfl rfl ?_ h.bounded (h.funded (h.initialized hr))
  show s.pool.reservedLiquidity - policy.coverageAmount ≤ s.pool.totalLiquidity
  omega

end Books

/-- **A payout** takes the coverage from the reservation, the total and the balance. -/
theorem Books.pay {d : Deployment} {env : Env} {s s' : State} {id : Nat}
    {policy : InsurancePolicy} (hd : env.toDeployment = d) (h : Books d s)
    (hr : getPolicy s id = some policy) (ha : policy.status = .active)
    (hx : payPolicy env s policy = .ok s') :
    Books d s' ∧ s'.pool.totalLiquidity = s.pool.totalLiquidity - policy.coverageAmount := by
  subst hd
  obtain ⟨token, tokens, payouts, ht, htr, rfl⟩ := payPolicy_ok hx
  have hpos := (h.policy id policy hr).2.2
  have hpart := (h.active_le hr ha).1
  have hcov := h.covered
  have hmax := h.bounded
  have hexact : saturatingSub s.pool.totalLiquidity policy.coverageAmount =
      s.pool.totalLiquidity - policy.coverageAmount :=
    saturatingSub_exact h.bounded hpos.le (hpart.trans hcov)
  rw [hexact]
  obtain ⟨index, heq⟩ := release_eq { s with tokens, pool := { s.pool with
    totalLiquidity := s.pool.totalLiquidity - policy.coverageAmount, totalPayouts := payouts } }
    policy .claimed
  rw [heq]
  refine ⟨h.ended hr ha (by decide) rfl rfl rfl rfl rfl ?_ ?_ ⟨token, ht, ?_⟩, rfl⟩
  · show s.pool.reservedLiquidity - policy.coverageAmount ≤
      s.pool.totalLiquidity - policy.coverageAmount
    omega
  · show s.pool.totalLiquidity - policy.coverageAmount ≤ i128Max
    omega
  · show s.pool.totalLiquidity - policy.coverageAmount ≤ tokens.balance token env.self
    obtain ⟨token', ht', hfund⟩ := h.funded (h.initialized hr)
    rw [ht] at ht'
    cases ht'
    have hbal := Ledger.balance_transfer htr token env.self
    rw [if_pos ⟨rfl, rfl⟩] at hbal
    split at hbal <;> omega

/-- Tokens that a signer pays in. -/
theorem balance_paidIn {env : Env} {L L' : Tokens} {token src : Address} {x : Int}
    (hne : src ≠ env.self) (h : Ledger.transfer i128Max L token src env.self x = some L') :
    L'.balance token env.self = L.balance token env.self + x ∧ L'.balance token env.self ≤ i128Max := by
  refine ⟨?_, Ledger.transfer_le_cap h⟩
  rw [Ledger.balance_transfer h, if_neg (fun h => hne h.2.symm), if_pos ⟨rfl, rfl⟩]
  omega

section Moves

variable {d : Deployment} {env : Env} {s s' : State}

theorem Books.deposit {provider : Address} {amount : Int} (hv : env.Of d) (h : Books d s)
    (hx : depositLiquidity env s provider amount = .ok s') :
    Books d s' ∧ s'.pool.totalLiquidity = s.pool.totalLiquidity + amount := by
  obtain ⟨hi, ha, hs, token, tokens, index, total, ht, htr, htot, rfl⟩ := depositLiquidity_ok hx
  obtain ⟨token', ht', hfund⟩ := h.funded hi
  rw [ht] at ht'
  cases ht'
  obtain ⟨hbal, hcap⟩ := balance_paidIn (hv.ne_self hs) htr
  rw [← hv.1] at h hfund ⊢
  have hcov := h.covered
  have hres := h.reserved_nonneg
  have hexact := i128_exact htot (inI128_iff.mpr ⟨by omega, by omega⟩)
  exact ⟨h.moved hi ht (by omega) (by omega) (by omega), hexact⟩

theorem Books.withdraw {provider : Address} {amount : Int} (hv : env.Of d) (h : Books d s)
    (hx : withdrawLiquidity env s provider amount = .ok s') :
    Books d s' ∧ s'.pool.totalLiquidity = s.pool.totalLiquidity - amount := by
  obtain ⟨hi, ha, hav, token, tokens, index, total, ht, htr, htot, rfl⟩ := withdrawLiquidity_ok hx
  obtain ⟨token', ht', hfund⟩ := h.funded hi
  rw [ht] at ht'
  cases ht'
  rw [h.available] at hav
  have hbal := Ledger.balance_transfer htr token env.self
  rw [if_pos ⟨rfl, rfl⟩] at hbal
  rw [← hv.1] at h hfund ⊢
  have hres := h.reserved_nonneg
  have hmax := h.bounded
  have hexact := i128_exact htot (inI128_iff.mpr ⟨by omega, by omega⟩)
  refine ⟨h.moved hi ht ?_ (by omega) (by omega), hexact⟩
  split at hbal <;> omega

/-- **A new policy** brings its premium and reserves its coverage. -/
theorem Books.create {policyholder : Address} {terms : PolicyTerms} {n : Nat} (hv : env.Of d)
    (h : Books d s) (hx : createPolicy env s policyholder terms = .ok (n, s')) :
    Books d s' ∧ s'.pool.totalLiquidity = s.pool.totalLiquidity + terms.premiumAmount := by
  obtain ⟨hi, hc, hp, hs, hav, token, tokens, endTime, total, reserved, premiums, index, ht, htr,
    htot, hres, rfl⟩ := createPolicy_ok hx
  obtain ⟨token', ht', hfund⟩ := h.funded hi
  rw [ht] at ht'
  cases ht'
  obtain ⟨hbal, hcap⟩ := balance_paidIn (hv.ne_self hs) htr
  rw [← hv.1] at h hfund ⊢
  rw [h.available] at hav
  have hnonneg := h.reserved_nonneg
  have htotal := i128_exact htot (inI128_iff.mpr ⟨by omega, by omega⟩)
  have hreserved := i128_exact hres (inI128_iff.mpr ⟨by omega, by omega⟩)
  have hnew : s.policies.lookup (s.policyCounter + 1) = none := by
    cases hl : s.policies.lookup (s.policyCounter + 1) with
    | none => rfl
    | some p => have := (h.policy _ p hl).2.1; omega
  refine ⟨⟨?_, fun _ => ⟨token, ht, ?_⟩, ?_, ?_, ?_, ?_, ?_⟩, htotal⟩
  · intro hfalse
    rw [show s.initialized = false from hfalse] at hi
    cases hi
  · show total ≤ tokens.balance token env.self
    omega
  · show total ≤ i128Max
    omega
  · have hsum := h.reserved
    unfold activeCoverage at hsum ⊢
    show reserved = Store.total _ (s.policies.insert _ _)
    rw [Store.total_insert, Store.old_of_lookup_none hnew, ← hsum, hreserved]
    show _ = s.pool.reservedLiquidity - 0 + terms.coverageAmount
    omega
  · have hsum := h.count
    unfold activeCount at hsum ⊢
    show ((s.pool.activePolicies + 1 : Nat) : Int) = Store.total _ (s.policies.insert _ _)
    rw [Store.total_insert, Store.old_of_lookup_none hnew, ← hsum]
    show _ = (s.pool.activePolicies : Int) - 0 + 1
    omega
  · show reserved ≤ total
    omega
  · intro id p hr
    have hr : (s.policies.insert _ _).lookup id = some p := hr
    show p.id = id ∧ id ≤ s.policyCounter + 1 ∧ 0 < p.coverageAmount
    rw [Store.lookup_insert_eq] at hr
    split at hr
    · next heq => cases hr; rw [heq]; exact ⟨rfl, le_refl _, hc⟩
    · obtain ⟨h1, h2, h3⟩ := h.policy id p hr
      exact ⟨h1, by omega, h3⟩

end Moves

/-- **Every call keeps the books.** -/
theorem books_step {d : Deployment} {env : Env} {call : Call} {r : Reply} {s s' : State}
    (hv : env.Of d) (h : Books d s) (hx : exec env call s = .ok (r, s')) : Books d s' := by
  have hd := hv.1
  cases call with
  | init admin poolToken sources staleness minSources =>
    obtain ⟨hi, rfl⟩ := init_ok (done_ok.mp hx).1
    obtain ⟨hpol, hpool⟩ := h.fresh hi
    have hzero : (0 : Int) ≤ s.tokens.balance poolToken d.self := s.tokens.balance_nonneg _ _
    refine ⟨fun hfalse => (by cases hfalse), fun _ => ⟨poolToken, rfl, hzero⟩, zero_le_i128Max, ?_,
      ?_, le_refl _, h.policy⟩
    · show (0 : Int) = Store.total _ s.policies
      rw [hpol]; rfl
    · show (0 : Int) = Store.total _ s.policies
      rw [hpol]; rfl
  | updateOracleConfig admin sources staleness minSources =>
    obtain rfl := updateOracleConfig_ok (done_ok.mp hx).1
    exact h.idle rfl rfl rfl rfl rfl fun _ => le_refl _
  | pause admin =>
    obtain ⟨-, rfl⟩ := pause_ok (done_ok.mp hx).1
    exact h.idle rfl rfl rfl rfl rfl fun _ => le_refl _
  | unpause admin =>
    obtain rfl := unpause_ok (done_ok.mp hx).1
    exact h.idle rfl rfl rfl rfl rfl fun _ => le_refl _
  | depositLiquidity provider amount => exact (h.deposit hv (done_ok.mp hx).1).1
  | withdrawLiquidity provider amount => exact (h.withdraw hv (done_ok.mp hx).1).1
  | createPolicy policyholder terms =>
    simp only [exec, bind_eq_ok, pure_eq_ok, Prod.mk.injEq] at hx
    obtain ⟨⟨n, s1⟩, hx, -, rfl⟩ := hx
    exact (h.create hv hx).1
  | cancelPolicy policyholder policyId =>
    obtain ⟨hx, -⟩ := done_ok.mp hx
    obtain ⟨policy, hr, ha, rfl⟩ := cancelPolicy_ok hx
    exact h.release hr ha (by decide)
  | checkTrigger fetch policyId =>
    simp only [exec, bind_eq_ok, pure_eq_ok, Prod.mk.injEq] at hx
    obtain ⟨⟨b, s1⟩, hx, -, rfl⟩ := hx
    obtain ⟨policy, hr, ha, -, ⟨-, rfl⟩ | ⟨-, hpay⟩⟩ := checkTrigger_ok hx
    · exact h
    · exact (h.pay hd hr ha hpay).1
  | expirePolicy policyId =>
    obtain ⟨hx, -⟩ := done_ok.mp hx
    obtain ⟨policy, hr, ha, rfl⟩ := expirePolicy_ok hx
    exact h.release hr ha (by decide)
  | token c =>
    obtain ⟨hx, -⟩ := done_ok.mp hx
    simp only [bind_eq_ok, pure_eq_ok] at hx
    obtain ⟨tokens, htok, rfl⟩ := hx
    refine h.idle rfl rfl rfl rfl rfl fun token => ?_
    rw [← hd]
    exact tokenCall_self hv htok token

theorem books_run {d : Deployment} {tr : Trace} {s : State} (h : Run (machine d) tr s) :
    Books d s := by
  refine h.invariant ?_ ?_
  · rintro s ⟨tokens, rfl⟩
    refine ⟨fun _ => ⟨rfl, rfl⟩, fun hi => (by cases hi), zero_le_i128Max, rfl, rfl, le_refl _, ?_⟩
    intro id policy hr
    cases hr
  · intro env call r s s' hv hb hx
    exact books_step hv hb hx

end Stellara.Insurance
