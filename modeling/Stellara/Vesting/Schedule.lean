import Stellara.Vesting.PaidOnce

/-!
# The vesting schedule

What is vested at a time is nothing before the cliff, the whole amount from the end on, and in
between the share of the time since the cliff, rounded down:

    amount * (t - (start + cliff)) / (duration - cliff)              (vested)

`calculate_vested_amount` computes it with two sums in `u64` and a product in `u128`, and
`grant_vesting` checks neither.  The last second before the end has the largest product, so the
function follows the law exactly for the schedules whose end is a time and whose product at
that second fits:

    start + duration < 2 ^ 64  and  amount * (duration - cliff - 1) < 2 ^ 128   (Fits)

An end that wraps around is before the start, and the whole grant is vested at once.
-/

namespace Stellara.Vesting

open Outcome

/-- What the schedule says is vested at `t`. -/
def VestingSchedule.vested (schedule : VestingSchedule) (t : Nat) : Int :=
  if t < schedule.startTime + schedule.cliff then 0
  else if schedule.startTime + schedule.duration ≤ t then schedule.amount
  else schedule.amount * (t - (schedule.startTime + schedule.cliff) : Nat) /
    (schedule.duration - schedule.cliff : Nat)

/-- Every time the contract computes stays in its type. -/
structure VestingSchedule.Fits (schedule : VestingSchedule) : Prop where
  end_lt : schedule.startTime + schedule.duration < 2 ^ 64
  product_lt : schedule.amount * (schedule.duration - schedule.cliff - 1 : Nat) < 2 ^ 128

/-- The law of a vesting schedule, in either build. -/
structure VestingSchedule.Lawful (schedule : VestingSchedule) : Prop where
  /-- the function has a result at every time, also where an overflow traps -/
  total : ∀ (env : Env) (t : Nat), t < 2 ^ 64 → ∃ x, calculateVestedAmount env schedule t = .ok x
  zero_before : ∀ (env : Env) (t : Nat), t < 2 ^ 64 → t < schedule.startTime + schedule.cliff →
    calculateVestedAmount env schedule t = .ok 0
  mono : ∀ (env : Env) (t t' : Nat) (x x' : Int), t ≤ t' → t' < 2 ^ 64 →
    calculateVestedAmount env schedule t = .ok x →
    calculateVestedAmount env schedule t' = .ok x' → x ≤ x'
  bounds : ∀ (env : Env) (t : Nat) (x : Int), t < 2 ^ 64 →
    calculateVestedAmount env schedule t = .ok x → 0 ≤ x ∧ x ≤ schedule.amount
  full_after : ∀ (env : Env) (t : Nat), t < 2 ^ 64 → schedule.startTime + schedule.duration ≤ t →
    calculateVestedAmount env schedule t = .ok schedule.amount

section Schedule

variable {schedule : VestingSchedule} {env : Env} {t : Nat}

/-! ## The function where everything fits -/

theorem vested_before (h : t < schedule.startTime + schedule.cliff) : schedule.vested t = 0 :=
  if_pos h

theorem vested_after (hw : schedule.WellFormed)
    (h : schedule.startTime + schedule.duration ≤ t) : schedule.vested t = schedule.amount := by
  have := hw.cliff_le
  unfold VestingSchedule.vested
  rw [if_neg (by omega), if_pos h]

theorem vested_between (hc : schedule.startTime + schedule.cliff ≤ t)
    (he : t < schedule.startTime + schedule.duration) :
    schedule.vested t = schedule.amount * (t - (schedule.startTime + schedule.cliff) : Nat) /
      (schedule.duration - schedule.cliff : Nat) := by
  unfold VestingSchedule.vested
  rw [if_neg (by omega), if_neg (by omega)]

theorem vested_nonneg (hw : schedule.WellFormed) (t : Nat) : 0 ≤ schedule.vested t := by
  have hpos := hw.amount_pos
  unfold VestingSchedule.vested
  split
  · exact le_refl _
  · split
    · exact hpos.le
    · exact Int.ediv_nonneg (by positivity) (by positivity)

theorem vested_le_amount (hw : schedule.WellFormed) (t : Nat) :
    schedule.vested t ≤ schedule.amount := by
  have hpos := hw.amount_pos
  unfold VestingSchedule.vested
  split
  · exact hpos.le
  next hc =>
  split
  · exact le_refl _
  next he =>
  apply Int.ediv_le_of_le_mul (by omega)
  apply mul_le_mul_of_nonneg_left _ hpos.le
  exact_mod_cast (by omega :
    t - (schedule.startTime + schedule.cliff) ≤ schedule.duration - schedule.cliff)

/-- Later is not less. -/
theorem vested_mono (hw : schedule.WellFormed) {t' : Nat} (h : t ≤ t') :
    schedule.vested t ≤ schedule.vested t' := by
  by_cases hc : t < schedule.startTime + schedule.cliff
  · rw [vested_before hc]
    exact vested_nonneg hw t'
  by_cases he : schedule.startTime + schedule.duration ≤ t'
  · rw [vested_after hw he]
    exact vested_le_amount hw t
  -- both times are between the cliff and the end
  rw [vested_between (by omega) (by omega), vested_between (by omega) (by omega)]
  apply Int.ediv_le_ediv (by omega)
  apply mul_le_mul_of_nonneg_left _ hw.amount_pos.le
  exact_mod_cast Nat.sub_le_sub_right h _

/-- **The code computes the schedule.** -/
theorem calculateVestedAmount_eq (hw : schedule.WellFormed) (hf : schedule.Fits)
    (ht : t < 2 ^ 64) : calculateVestedAmount env schedule t = .ok (schedule.vested t) := by
  have hnonneg := vested_nonneg hw t
  have hle := vested_le_amount hw t
  obtain ⟨hpos, hmax, hcliff, hdur⟩ := hw
  obtain ⟨hend, hprod⟩ := hf
  unfold calculateVestedAmount
  by_cases hstart : t < schedule.startTime
  · rw [if_pos hstart, vested_before (by omega)]
  rw [if_neg hstart, u64_of_in env (by omega) (by omega)]
  have hce : ((schedule.startTime : Int) + schedule.cliff).toNat =
      schedule.startTime + schedule.cliff := by omega
  rw [ok_bind, hce]
  by_cases hc : t < schedule.startTime + schedule.cliff
  · rw [if_pos hc, vested_before hc]
    rfl
  rw [if_neg hc, u64_of_in env (by omega) (by omega)]
  have hve : ((schedule.startTime : Int) + schedule.duration).toNat =
      schedule.startTime + schedule.duration := by omega
  rw [ok_bind, hve]
  by_cases he : schedule.startTime + schedule.duration ≤ t
  · rw [if_pos he, vested_after ⟨hpos, hmax, hcliff, hdur⟩ he]
    rfl
  rw [if_neg he, u64_of_in env (by omega) (by omega), ok_bind,
    u64_of_in env (by omega) (by omega), ok_bind]
  have hrd : ((schedule.duration : Int) - schedule.cliff).toNat =
      schedule.duration - schedule.cliff := by omega
  have hvd : ((t : Int) - (schedule.startTime + schedule.cliff : Nat)).toNat =
      t - (schedule.startTime + schedule.cliff) := by omega
  rw [hrd, hvd, if_neg (by omega), asU128_of_nonneg hpos.le hmax]
  -- the product is at most the one of the last second
  have hscaled : schedule.amount * (t - (schedule.startTime + schedule.cliff) : Nat) < 2 ^ 128 := by
    apply lt_of_le_of_lt _ hprod
    apply mul_le_mul_of_nonneg_left _ hpos.le
    exact_mod_cast (by omega : t - (schedule.startTime + schedule.cliff) ≤
      schedule.duration - schedule.cliff - 1)
  have hscaled0 : 0 ≤ schedule.amount * (t - (schedule.startTime + schedule.cliff) : Nat) := by
    positivity
  rw [u128_of_in env hscaled0 hscaled, ok_bind]
  have hq : ((schedule.amount * (t - (schedule.startTime + schedule.cliff) : Nat)).toNat /
      (schedule.duration - schedule.cliff) : Nat) = schedule.vested t := by
    rw [vested_between (by omega) (by omega), Int.natCast_ediv, Int.toNat_of_nonneg hscaled0]
  rw [hq, asI128_of_in (inI128_iff.mpr ⟨by omega, by omega⟩)]
  rfl

theorem lawful_of_fits (hw : schedule.WellFormed) (hf : schedule.Fits) : schedule.Lawful where
  total env t ht := ⟨_, calculateVestedAmount_eq hw hf ht⟩
  zero_before env t ht h := by rw [calculateVestedAmount_eq hw hf ht, vested_before h]
  mono env t t' x x' h ht' hx hx' := by
    rw [calculateVestedAmount_eq hw hf (by omega)] at hx
    rw [calculateVestedAmount_eq hw hf ht'] at hx'
    rw [← Except.ok.inj hx, ← Except.ok.inj hx']
    exact vested_mono hw h
  bounds env t x ht hx := vested_le hw hx
  full_after env t ht h := by rw [calculateVestedAmount_eq hw hf ht, vested_after hw h]

/-! ## Where the law fails -/

/-- With overflow checks a result means that every step of the calculation fitted. -/
theorem fits_at (hw : schedule.WellFormed) (hc : env.overflowChecks = true) {x : Int}
    (h : calculateVestedAmount env schedule t = .ok x) (hstart : schedule.startTime ≤ t) :
    schedule.startTime + schedule.cliff < 2 ^ 64 ∧
      (schedule.startTime + schedule.cliff ≤ t →
        schedule.startTime + schedule.duration < 2 ^ 64 ∧
        (t < schedule.startTime + schedule.duration →
          schedule.amount * (t - (schedule.startTime + schedule.cliff) : Nat) < 2 ^ 128)) := by
  obtain ⟨hpos, hmax, hcliff, hdur⟩ := hw
  unfold calculateVestedAmount at h
  rw [if_neg (by omega), bind_eq_ok] at h
  obtain ⟨cliffEnd, hce, h⟩ := h
  have hce' := u64_checked hc hce
  have hlt := Checked.unsigned_lt (ofOption_eq_ok.mp hce)
  refine ⟨by omega, fun hafter => ?_⟩
  rw [if_neg (by omega), bind_eq_ok] at h
  obtain ⟨vestEnd, hve, h⟩ := h
  have hve' := u64_checked hc hve
  have hlt' := Checked.unsigned_lt (ofOption_eq_ok.mp hve)
  refine ⟨by omega, fun hbefore => ?_⟩
  rw [if_neg (by omega), bind_eq_ok] at h
  obtain ⟨vd, hvd, h⟩ := h
  have hvd' := u64_checked hc hvd
  rw [bind_eq_ok] at h
  obtain ⟨rd, hrd, h⟩ := h
  have hrd' := u64_checked hc hrd
  rw [if_neg (by omega), bind_eq_ok] at h
  obtain ⟨scaled, hsc, -⟩ := h
  have hsc' := u128_checked hc hsc
  have hlt'' := u128_lt hsc
  rw [asU128_of_nonneg hpos.le hmax] at hsc'
  rw [show t - (schedule.startTime + schedule.cliff) = vd by omega, ← hsc']
  exact_mod_cast hlt''

/-- An environment of the build with overflow checks. -/
def checkedEnv : Env := ⟨⟨0, true⟩, 0, 0, []⟩

theorem fits_of_lawful (hw : schedule.WellFormed) (hstart : schedule.startTime < 2 ^ 64)
    (hl : schedule.Lawful) : schedule.Fits := by
  have hcliff := hw.cliff_le
  have hc : schedule.startTime + schedule.cliff < 2 ^ 64 := by
    obtain ⟨x, hx⟩ := hl.total checkedEnv schedule.startTime hstart
    exact (fits_at hw rfl hx (Nat.le_refl _)).1
  have hend : schedule.startTime + schedule.duration < 2 ^ 64 := by
    obtain ⟨x, hx⟩ := hl.total checkedEnv (schedule.startTime + schedule.cliff) hc
    exact ((fits_at hw rfl hx (Nat.le_add_right _ _)).2 (Nat.le_refl _)).1
  refine ⟨hend, ?_⟩
  by_cases hlin : schedule.cliff < schedule.duration
  · -- the last second before the end
    obtain ⟨x, hx⟩ := hl.total checkedEnv (schedule.startTime + schedule.duration - 1) (by omega)
    have hlast := ((fits_at hw rfl hx (by omega)).2 (by omega)).2 (by omega)
    rwa [show schedule.startTime + schedule.duration - 1 - (schedule.startTime + schedule.cliff) =
      schedule.duration - schedule.cliff - 1 by omega] at hlast
  · rw [show schedule.duration - schedule.cliff - 1 = 0 by omega]
    norm_num

theorem lawful_iff_fits (hw : schedule.WellFormed) (hstart : schedule.startTime < 2 ^ 64) :
    schedule.Lawful ↔ schedule.Fits :=
  ⟨fits_of_lawful hw hstart, lawful_of_fits hw⟩

end Schedule

/-! ## Accepted grants -/

/-- What `grant_vesting` stores. -/
theorem grantVesting_ok {env : Env} {s s' : State} {admin beneficiary : Address} {amount : Int}
    {startTime cliff duration g : Nat}
    (h : grantVesting env s admin beneficiary amount startTime cliff duration = .ok (g, s')) :
    0 < amount ∧ cliff ≤ duration ∧
      getVesting s' g = .ok ⟨beneficiary, amount, startTime, cliff, duration, false, false, 0⟩ := by
  simp only [grantVesting, bind_eq_ok, require_eq_ok, exists_unit_and, pure_eq_ok,
    Prod.mk.injEq] at h
  obtain ⟨_, _, _, _, _, hamount, hcliff, rfl, rfl⟩ := h
  refine ⟨hamount, hcliff, ?_⟩
  simp [getVesting, loadSchedules, ofOption]

/-- Every accepted grant follows the law exactly when its schedule fits. -/
theorem granted_lawful_iff (env : Env) (s s' : State) (admin beneficiary : Address) (amount : Int)
    (startTime cliff duration g : Nat)
    (ht : (Call.grantVesting admin beneficiary amount startTime cliff duration).Typed)
    (h : grantVesting env s admin beneficiary amount startTime cliff duration = .ok (g, s')) :
    ∃ schedule, getVesting s' g = .ok schedule ∧
      (schedule.Lawful ↔
        startTime + duration < 2 ^ 64 ∧ amount * (duration - cliff - 1 : Nat) < 2 ^ 128) := by
  obtain ⟨hamount, hstart, -, hduration⟩ := ht
  obtain ⟨hpos, hcliff, hget⟩ := grantVesting_ok h
  refine ⟨_, hget, ?_⟩
  rw [lawful_iff_fits ⟨hpos, (inI128_iff.mp hamount).2, hcliff, hduration⟩ hstart]
  constructor
  · rintro ⟨hend, hprod⟩
    exact ⟨hend, hprod⟩
  · rintro ⟨hend, hprod⟩
    exact ⟨hend, hprod⟩

/-- After `init`, with 9 as the administrator. -/
def ready : State := { initialized := true, admin := some 9, token := some 5, tokens := .empty }

theorem granted_lawful_fifty :
    ∃ s' schedule, grantVesting (callAt 0 [9]) ready 9 2 50 0 3 10 = .ok (1, s') ∧
      getVesting s' 1 = .ok schedule ∧ schedule.Lawful := by
  obtain ⟨schedule, hget, hlaw⟩ :=
    granted_lawful_iff (callAt 0 [9]) ready _ 9 2 50 0 3 10 1 (by decide) rfl
  exact ⟨_, schedule, rfl, hget, hlaw.mpr (by decide)⟩

/-- A grant without an end in sight: the end wraps around to a second before the start.  One
build pays all of it at the start, the other fails there. -/
theorem endless_grant_vests_at_once :
    ∃ s' schedule,
      grantVesting (callAt 0 [9]) ready 9 2 50 1700000000 0 (2 ^ 64 - 1) = .ok (1, s') ∧
      getVesting s' 1 = .ok schedule ∧
      calculateVestedAmount ⟨⟨0, false⟩, 1700000000, 0, []⟩ schedule 1700000000 = .ok 50 ∧
      calculateVestedAmount ⟨⟨0, true⟩, 1700000000, 0, []⟩ schedule 1700000000 =
        .error (.panic "u64 overflow") ∧
      ¬ schedule.Lawful := by
  have hfails : calculateVestedAmount ⟨⟨0, true⟩, 1700000000, 0, []⟩
      ⟨2, 50, 1700000000, 0, 2 ^ 64 - 1, false, false, 0⟩ 1700000000 =
        .error (.panic "u64 overflow") := by decide
  refine ⟨_, _, rfl, rfl, by decide, hfails, ?_⟩
  intro hl
  obtain ⟨x, hx⟩ := hl.total ⟨⟨0, true⟩, 1700000000, 0, []⟩ 1700000000 (by decide)
  rw [hfails] at hx
  cases hx

end Stellara.Vesting
