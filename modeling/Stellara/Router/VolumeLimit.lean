import Stellara.Router.DepositIdentity

/-!
# The volume limit of the bridge

`check_rate_limit` adds the amount of a deposit to the usage of the asset's window, which starts
anew when its time is over or the administrator sets the limit.

    Throughout Limited tr ↔ Throughout Deposited tr                           (limited_iff)

The amount is signed and `deposit` does not look at its sign, so that a deposit of `-1000`
gives back a thousand of the quota that others have used; without overflow checks a huge one
does the same by wrapping around.  With neither of the two (`Deposited`) the usage is what was
deposited in the window, and stays within the limit.
-/

namespace Stellara.Bridge

open Outcome Router

variable {Digest : Type} {sha256 : Bytes → Digest} {toXdr : ScVal → Bytes} {d : Deployment}

/-! ## Windows -/

/-- The call comes when the window's time is over. -/
def RateLimit.expired (env : Env) (rl : RateLimit) : Bool :=
  (env.u64 (rl.lastUpdate + rl.window) : Result Nat).toOption.any fun windowEnd =>
    windowEnd ≤ env.timestamp

/-- What counts as used when the call is made. -/
def RateLimit.usageAt (env : Env) (rl : RateLimit) : Int :=
  if rl.expired env then 0 else rl.currentUsage

theorem refresh_ok {env : Env} {rl rl' : RateLimit} (h : rl.refresh env = .ok rl') :
    rl'.limit = rl.limit ∧ rl'.currentUsage = rl.usageAt env := by
  unfold RateLimit.refresh at h
  obtain ⟨windowEnd, hend, h⟩ := bind_eq_ok.mp h
  have hexpired : rl.expired env = decide (windowEnd ≤ env.timestamp) := by
    unfold RateLimit.expired
    rw [hend]
    rfl
  unfold RateLimit.usageAt
  rw [hexpired]
  split at h
  · next hover =>
    cases h
    exact ⟨rfl, (if_pos (decide_eq_true hover)).symm⟩
  · next hover =>
    cases h
    exact ⟨rfl, (if_neg (by simpa using hover)).symm⟩

/-- An accepted check on an asset with a limit. -/
theorem checkRateLimit_ok {env : Env} {s s' : State} {asset : Address} {amount : Int}
    (h : checkRateLimit env s asset amount = .ok s') :
    (s.rateLimits.lookup asset = none ∧ s' = s) ∨
      ∃ rl rl', s.rateLimits.lookup asset = some rl ∧
        (env.i128 (rl.usageAt env + amount) : Result Int) = .ok rl'.currentUsage ∧
        rl'.limit = rl.limit ∧ rl'.currentUsage ≤ rl.limit ∧
        s' = { s with rateLimits := s.rateLimits.insert asset rl' } := by
  unfold checkRateLimit at h
  cases hlookup : s.rateLimits.lookup asset with
  | none =>
    rw [hlookup] at h
    cases h
    exact .inl ⟨rfl, rfl⟩
  | some rl =>
    rw [hlookup] at h
    simp only [bind_eq_ok, require_eq_ok, exists_unit_and, pure_eq_ok] at h
    obtain ⟨rl1, hrefresh, usage, husage, hle, rfl⟩ := h
    obtain ⟨hlimit, hbase⟩ := refresh_ok hrefresh
    rw [hbase] at husage
    rw [hlimit] at hle
    exact .inr ⟨rl, { rl1 with currentUsage := usage }, rfl, husage, hlimit, hle, rfl⟩

/-! ## What was deposited in the window -/

/-- The call finds the window of the asset over. -/
def Reopens (asset : Address) (e : Event Env Call (Reply Digest) State) : Bool :=
  (e.before.rateLimits.lookup asset).any fun rl => rl.expired e.env

/-- The positive amounts deposited since the usage of the asset was last reset. -/
def depositedInWindow (asset : Address) : Trace Digest → Int
  | [] => 0
  | e :: tr =>
    match e.call with
    | .deposit _ asset' amount _ _ =>
      if asset' = asset then
        (if Reopens asset e then 0 else depositedInWindow asset tr) + max amount 0
      else depositedInWindow asset tr
    | .setRateLimit asset' _ _ => if asset' = asset then 0 else depositedInWindow asset tr
    | _ => depositedInWindow asset tr

/-- **The limit**: a deposit of an asset that has one leaves the usage of the window where it was
or higher, and what was deposited in the window is at most the limit. -/
def Limited (e : Event Env Call (Reply Digest) State) (tr : Trace Digest) : Prop :=
  match e.call with
  | .deposit _ asset _ _ _ =>
    ∀ rl, e.before.rateLimits.lookup asset = some rl →
      (∃ rl', e.after.rateLimits.lookup asset = some rl' ∧ rl.usageAt e.env ≤ rl'.currentUsage) ∧
        depositedInWindow asset (e :: tr) ≤ rl.limit
  | _ => True

/-- **The condition**: the amount of such a deposit is not negative, and what it adds up to with
the usage is an `i128`. -/
def Deposited (e : Event Env Call (Reply Digest) State) (_tr : Trace Digest) : Prop :=
  match e.call with
  | .deposit _ asset amount _ _ =>
    ∀ rl, e.before.rateLimits.lookup asset = some rl →
      0 ≤ amount ∧ rl.usageAt e.env + amount ≤ i128Max
  | _ => True

/-- The amount of a deposit is an `i128`. -/
def AmountInRange (e : Event Env Call (Reply Digest) State) : Prop :=
  match e.call with
  | .deposit _ _ amount _ _ => InI128 amount
  | _ => True

instance depositedDecidable (e : Event Env Call (Reply Digest) State) (tr : Trace Digest) :
    Decidable (Deposited e tr) := by
  obtain ⟨env, call, ret, before, after⟩ := e
  induction call using Call.casesOn <;> unfold Deposited <;> infer_instance

instance amountInRangeDecidable (e : Event Env Call (Reply Digest) State) :
    Decidable (AmountInRange e) := by
  obtain ⟨env, call, ret, before, after⟩ := e
  induction call using Call.casesOn <;> unfold AmountInRange <;> infer_instance

/-! ## Usage -/

/-- The stored usage is what was deposited in the window. -/
def Metered (tr : Trace Digest) (s : State) : Prop :=
  ∀ asset rl, s.rateLimits.lookup asset = some rl →
    0 ≤ rl.currentUsage ∧ rl.currentUsage ≤ i128Max ∧
      rl.currentUsage = depositedInWindow asset tr

/-- A call that makes no deposit and sets no limit leaves all limits and windows alone. -/
structure Apart (e : Event Env Call (Reply Digest) State) (tr : Trace Digest) : Prop where
  rateLimits : e.after.rateLimits = e.before.rateLimits
  limited : Limited e tr
  deposited : Deposited e tr
  window : ∀ asset, depositedInWindow asset (e :: tr) = depositedInWindow asset tr

section Step

variable {tr : Trace Digest} {env : Env} {call : Call} {r : Reply Digest} {s s' : State}

theorem exec_rateLimits (hx : exec sha256 toXdr env call s = .ok (r, s')) :
    (∃ sender asset amount destChain recipient,
      call = .deposit sender asset amount destChain recipient ∧
        checkRateLimit env s asset amount = .ok s') ∨
    (∃ asset limit window, call = .setRateLimit asset limit window ∧
      s'.rateLimits = s.rateLimits.insert asset ⟨limit, window, 0, env.timestamp⟩) ∨
    Apart ⟨env, call, r, s, s'⟩ tr := by
  cases call with
  | deposit sender asset amount destChain recipient =>
    obtain ⟨id, hcall, -⟩ := replyId_ok hx
    exact .inl ⟨sender, asset, amount, destChain, recipient, rfl, deposit_ok hcall⟩
  | setRateLimit asset limit window =>
    obtain rfl := setRateLimit_ok (done_ok.mp hx).1
    exact .inr (.inl ⟨asset, limit, window, rfl, rfl⟩)
  | withdraw to' asset amount sourceChain nonce signatures =>
    obtain ⟨id, hcall, -⟩ := replyId_ok hx
    obtain rfl := withdraw_ok hcall
    exact .inr (.inr ⟨rfl, trivial, trivial, fun _ => rfl⟩)
  | initBridge admin feeCollector validatorThreshold chainId =>
    obtain rfl := initBridge_ok (done_ok.mp hx).1
    exact .inr (.inr ⟨rfl, trivial, trivial, fun _ => rfl⟩)
  | addValidator validator =>
    obtain rfl := addValidator_ok (done_ok.mp hx).1
    refine .inr (.inr ⟨?_, trivial, trivial, fun _ => rfl⟩)
    split <;> rfl
  | removeValidator validator =>
    obtain rfl := removeValidator_ok (done_ok.mp hx).1
    exact .inr (.inr ⟨rfl, trivial, trivial, fun _ => rfl⟩)
  | setPaused paused =>
    obtain ⟨config, rfl⟩ := setPaused_ok (done_ok.mp hx).1
    exact .inr (.inr ⟨rfl, trivial, trivial, fun _ => rfl⟩)

/-- Setting a limit starts a window. -/
theorem Metered.set {asset : Address} {limit : Int} {window : Nat} (h : Metered tr s)
    (hset : s'.rateLimits = s.rateLimits.insert asset ⟨limit, window, 0, env.timestamp⟩) :
    Metered (⟨env, .setRateLimit asset limit window, r, s, s'⟩ :: tr) s' := by
  intro asset' rl hlookup
  rw [hset, Store.lookup_insert_eq] at hlookup
  show _ ∧ _ ∧ _ = if asset = asset' then 0 else depositedInWindow asset' tr
  by_cases hasset : asset' = asset
  · rw [if_pos hasset] at hlookup
    cases hlookup
    rw [if_pos hasset.symm]
    exact ⟨le_rfl, zero_le_i128Max, rfl⟩
  · rw [if_neg hasset] at hlookup
    rw [if_neg (Ne.symm hasset)]
    exact h asset' rl hlookup

variable {sender asset recipient : Address} {amount : Int} {destChain : Nat}

/-- What a deposit of the asset finds used is what was deposited in its window. -/
theorem Metered.usageAt {rl : RateLimit} (h : Metered tr s)
    (hlookup : s.rateLimits.lookup asset = some rl) :
    0 ≤ rl.usageAt env ∧ rl.usageAt env ≤ i128Max ∧
      depositedInWindow asset
        (⟨env, .deposit sender asset amount destChain recipient, r, s, s'⟩ :: tr) =
          rl.usageAt env + max amount 0 := by
  obtain ⟨h0, hmax, heq⟩ := h asset rl hlookup
  have hreopens : Reopens asset (⟨env, .deposit sender asset amount destChain recipient, r, s, s'⟩ :
      Event Env Call (Reply Digest) State) = rl.expired env := by
    unfold Reopens
    rw [hlookup, Option.any_some]
  have hsum : depositedInWindow asset
      (⟨env, .deposit sender asset amount destChain recipient, r, s, s'⟩ :: tr) =
        (if rl.expired env then 0 else depositedInWindow asset tr) + max amount 0 := by
    rw [← hreopens]
    show (if asset = asset then _ else _) = _
    rw [if_pos rfl]
  rw [hsum, ← heq]
  unfold RateLimit.usageAt
  split
  · exact ⟨le_rfl, zero_le_i128Max, rfl⟩
  · exact ⟨h0, hmax, rfl⟩

/-- **One deposit** keeps the limit exactly if it meets the condition, and then the usage is
again what was deposited. -/
theorem limited_deposit (h : Metered tr s) (hamount : InI128 amount)
    (hx : checkRateLimit env s asset amount = .ok s') :
    (Limited ⟨env, .deposit sender asset amount destChain recipient, r, s, s'⟩ tr ↔
      Deposited ⟨env, .deposit sender asset amount destChain recipient, r, s, s'⟩ tr) ∧
    (Limited ⟨env, .deposit sender asset amount destChain recipient, r, s, s'⟩ tr →
      Metered (⟨env, .deposit sender asset amount destChain recipient, r, s, s'⟩ :: tr) s') := by
  have hother : ∀ asset', asset' ≠ asset → depositedInWindow asset'
      (⟨env, .deposit sender asset amount destChain recipient, r, s, s'⟩ :: tr) =
        depositedInWindow asset' tr := fun asset' hne => if_neg (Ne.symm hne)
  rcases checkRateLimit_ok hx with ⟨hnone, rfl⟩ | ⟨rl, rl', hsome, husage, hlimit, hle, rfl⟩
  · -- without a limit there is nothing to keep
    refine ⟨iff_of_true ?_ ?_, fun _ asset' rl hlookup => ?_⟩
    · intro rl hlookup
      rw [hnone] at hlookup
      cases hlookup
    · intro rl hlookup
      rw [hnone] at hlookup
      cases hlookup
    · have hne : asset' ≠ asset := by
        rintro rfl
        rw [hnone] at hlookup
        cases hlookup
      rw [hother asset' hne]
      exact h asset' rl hlookup
  · obtain ⟨h0, hmax, hsum⟩ : 0 ≤ rl.usageAt env ∧ rl.usageAt env ≤ i128Max ∧
        depositedInWindow asset (⟨env, .deposit sender asset amount destChain recipient, r, s,
          { s with rateLimits := s.rateLimits.insert asset rl' }⟩ :: tr) =
          rl.usageAt env + max amount 0 := h.usageAt hsome
    have hafter : (s.rateLimits.insert asset rl').lookup asset = some rl' := AList.lookup_insert _
    -- the condition, and what it makes of the usage
    have hexact : 0 ≤ amount ∧ rl.usageAt env + amount ≤ i128Max →
        rl'.currentUsage = rl.usageAt env + amount := fun ⟨hpos, hfits⟩ =>
      i128_exact husage (inI128_iff.mpr ⟨by omega, hfits⟩)
    have hlimited : Limited (⟨env, .deposit sender asset amount destChain recipient, r, s,
        { s with rateLimits := s.rateLimits.insert asset rl' }⟩) tr ↔
        rl.usageAt env ≤ rl'.currentUsage ∧ rl.usageAt env + max amount 0 ≤ rl.limit := by
      rw [← hsum]
      constructor
      · intro hall
        obtain ⟨⟨rl1, hrl1, hgrown⟩, hsum⟩ := hall rl hsome
        rw [hafter] at hrl1
        cases hrl1
        exact ⟨hgrown, hsum⟩
      · rintro ⟨hgrown, hsum⟩ rl1 hrl1
        rw [hsome] at hrl1
        cases hrl1
        exact ⟨⟨rl', hafter, hgrown⟩, hsum⟩
    have hdeposited : Deposited (⟨env, .deposit sender asset amount destChain recipient, r, s,
        { s with rateLimits := s.rateLimits.insert asset rl' }⟩) tr ↔
        0 ≤ amount ∧ rl.usageAt env + amount ≤ i128Max := by
      constructor
      · intro hall
        exact hall rl hsome
      · intro hcond rl1 hrl1
        rw [hsome] at hrl1
        cases hrl1
        exact hcond
    have hiff : (rl.usageAt env ≤ rl'.currentUsage ∧ rl.usageAt env + max amount 0 ≤ rl.limit) ↔
        0 ≤ amount ∧ rl.usageAt env + amount ≤ i128Max := by
      rw [← i128_grows_iff h0 hmax hamount husage]
      refine and_iff_left_of_imp fun hgrown => ?_
      have hcond := (i128_grows_iff h0 hmax hamount husage).mp hgrown
      rw [max_eq_left hcond.1, ← hexact hcond]
      exact hle
    rw [hlimited, hdeposited]
    refine ⟨hiff, fun hQ => ?_⟩
    have hcond := hiff.mp hQ
    have husage := hexact hcond
    obtain ⟨hpos, hfits⟩ := hcond
    intro asset' rl1 hlookup
    rw [Store.lookup_insert_eq] at hlookup
    by_cases hasset : asset' = asset
    · rw [if_pos hasset] at hlookup
      cases hlookup
      rw [hasset, hsum, max_eq_left hpos, husage]
      exact ⟨by omega, hfits, rfl⟩
    · rw [if_neg hasset] at hlookup
      rw [hother asset' hasset]
      exact h asset' rl1 hlookup

end Step

/-- **The volume limit holds** along a run if and only if all deposits of assets that have a limit
are of amounts that are not negative and do not overflow the usage. -/
theorem limited_iff {tr : Trace Digest} {s : State} (h : Run (machine sha256 toXdr d) tr s)
    (hamounts : ∀ e ∈ tr, AmountInRange e) : Throughout Limited tr ↔ Throughout Deposited tr := by
  refine h.throughout_iff_of (I := Metered) hamounts ?_ ?_
  · rintro s rfl asset rl hlookup
    exact absurd hlookup Store.lookup_empty_ne
  · intro tr env call r s s' _ _ _ hmetered hx hamount
    rcases exec_rateLimits hx with ⟨sender, asset, amount, destChain, recipient, rfl, hcheck⟩ |
      ⟨asset, limit, window, rfl, hset⟩ | hapart
    · exact limited_deposit hmetered hamount hcheck
    · exact ⟨Iff.rfl, fun _ => hmetered.set hset⟩
    · refine ⟨iff_of_true hapart.limited hapart.deposited, fun _ asset rl hlookup => ?_⟩
      rw [hapart.window asset]
      exact hmetered asset rl (hapart.rateLimits ▸ hlookup)

/-! ## Runs -/

/-- Administrator 9 limits asset 4 to `limit` in a hundred seconds. -/
def limitedTo (limit : Int) : List (Env × Call) :=
  [(⟨⟨0, true⟩, 0, 1, []⟩, .initBridge 9 8 2 0), (⟨⟨0, true⟩, 5, 2, [9]⟩, .setRateLimit 4 limit 100)]

/-- Two deposits in one window. -/
theorem limited_two_deposits :
    ∃ (tr : Trace Nat) (s : State), Run (machine depositHash totalXdr ⟨0, true⟩) tr s ∧
      deposits tr = [sampleDeposit 600, sampleDeposit 500] ∧ Throughout Limited tr := by
  obtain ⟨tr, s, hrun, hok⟩ := Machine.exists_run_of_replay
    (m := machine depositHash totalXdr ⟨0, true⟩) (s := {}) rfl
    (limitedTo 1100 ++ [(⟨⟨0, true⟩, 10, 7, [3]⟩, .deposit 3 4 500 2 6),
      (⟨⟨0, true⟩, 10, 7, [3]⟩, .deposit 3 4 600 2 6)])
    (fun tr _ => deposits tr = [sampleDeposit 600, sampleDeposit 500] ∧
      (∀ e ∈ tr, AmountInRange e) ∧ Throughout Deposited tr)
    (by decide) (by decide) (by decide)
  obtain ⟨hdeposits, hamounts, hdeposited⟩ := of_decide_eq_true hok
  exact ⟨tr, s, hrun, hdeposits, (limited_iff hrun hamounts).mpr hdeposited⟩

/-- A deposit of `-1000` between two of a thousand lets both of them pass a limit of a
thousand. -/
theorem quota_given_back :
    ∃ (tr : Trace Nat) (s : State), Run (machine depositHash totalXdr ⟨0, true⟩) tr s ∧
      (∀ e ∈ tr, AmountInRange e) ∧
      (s.rateLimits.lookup 4).map RateLimit.limit = some 1000 ∧
      depositedInWindow 4 tr = 2000 := by
  obtain ⟨tr, s, hrun, hok⟩ := Machine.exists_run_of_replay
    (m := machine depositHash totalXdr ⟨0, true⟩) (s := {}) rfl
    (limitedTo 1000 ++ [(⟨⟨0, true⟩, 10, 7, [3]⟩, .deposit 3 4 1000 2 6),
      (⟨⟨0, true⟩, 15, 8, [3]⟩, .deposit 3 4 (-1000) 2 6),
      (⟨⟨0, true⟩, 20, 9, [5]⟩, .deposit 5 4 1000 2 6)])
    (fun tr s => (∀ e ∈ tr, AmountInRange e) ∧
      (s.rateLimits.lookup 4).map RateLimit.limit = some 1000 ∧ depositedInWindow 4 tr = 2000)
    (by decide) (by decide) (by decide)
  exact ⟨tr, s, hrun, of_decide_eq_true hok⟩

end Stellara.Bridge
