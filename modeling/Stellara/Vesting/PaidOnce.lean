import Stellara.Vesting.Model

/-!
# How often a grant is paid

A claim checks and marks the stored schedule in one go, so a grant is paid once.  A
batch checks all of its ids before it marks any of them.

* `batchClaim_sequential`: without repeated ids a batch does what the claims would do
  one after another, so what holds of `claim` carries over.
* `paid_once_iff`: over a whole run, single payment and agreement with the sequential
  claims hold **exactly when** no accepted batch repeated an id.
-/

namespace Stellara.Vesting

open Outcome

abbrev Trace : Type := List (Event Env Call Reply State)

/-- The stored grants. -/
def grants (s : State) : Store Nat VestingSchedule := s.sched.getD ∅

/-- What the stored grant is worth (0 when there is none). -/
def grantAmount (s : State) (g : Nat) : Int :=
  Store.old (fun _ (schedule : VestingSchedule) => schedule.amount) (grants s) g

/-! ## Payments -/

/-- The payments of one call. -/
def payouts (e : Event Env Call Reply State) : List ClaimEvent :=
  match e.ret with
  | .claimed _ events => events
  | _ => []

/-- All payments of a run, oldest first. -/
def payments : Trace → List ClaimEvent
  | [] => []
  | e :: tr => payments tr ++ payouts e

/-- How many payments were on account of grant `g`. -/
def transfers (ps : List ClaimEvent) (g : Nat) : Nat := ps.countP fun p => p.grantId = g

/-- What was paid on account of grant `g`. -/
def paidFor (ps : List ClaimEvent) (g : Nat) : Int :=
  ((ps.filter fun p => p.grantId = g).map ClaimEvent.amount).sum

theorem transfers_append (ps qs : List ClaimEvent) (g : Nat) :
    transfers (ps ++ qs) g = transfers ps g + transfers qs g :=
  List.countP_append

theorem paidFor_append (ps qs : List ClaimEvent) (g : Nat) :
    paidFor (ps ++ qs) g = paidFor ps g + paidFor qs g := by
  unfold paidFor
  rw [List.filter_append, List.map_append, List.sum_append]

theorem paidFor_of_no_transfers {ps : List ClaimEvent} {g : Nat} (h : transfers ps g = 0) :
    paidFor ps g = 0 := by
  unfold transfers at h
  rw [List.countP_eq_zero] at h
  unfold paidFor
  rw [List.filter_eq_nil_iff.mpr h]
  rfl

theorem transfers_le_payments {tr : Trace} {e : Event Env Call Reply State} (he : e ∈ tr)
    (g : Nat) : transfers (payouts e) g ≤ transfers (payments tr) g := by
  induction tr with
  | nil => cases he
  | cons e' tr ih =>
    rw [payments, transfers_append]
    rcases List.mem_cons.mp he with rfl | he
    · omega
    · have := ih he; omega

/-! ## Vested amounts -/

/-- What `grant_vesting` accepts. -/
structure VestingSchedule.WellFormed (schedule : VestingSchedule) : Prop where
  amount_pos : 0 < schedule.amount
  amount_le : schedule.amount ≤ i128Max
  cliff_le : schedule.cliff ≤ schedule.duration
  duration_lt : schedule.duration < 2 ^ 64

/-- **Nobody vests more than the grant**, in either build: where the end of the
schedule wraps around, the time after the cliff is still below `duration - cliff`. -/
theorem vested_le {env : Env} {schedule : VestingSchedule} {now : Nat} {x : Int}
    (hw : schedule.WellFormed) (h : calculateVestedAmount env schedule now = .ok x) :
    0 ≤ x ∧ x ≤ schedule.amount := by
  obtain ⟨hpos, hmax, hcliff, hdur⟩ := hw
  unfold calculateVestedAmount at h
  split at h
  · cases h; exact ⟨le_refl _, hpos.le⟩
  simp only [bind_eq_ok] at h
  obtain ⟨cliffEnd, hce, h⟩ := h
  split at h
  · cases h; exact ⟨le_refl _, hpos.le⟩
  next hafter =>
  simp only [bind_eq_ok] at h
  obtain ⟨vestEnd, hve, h⟩ := h
  split at h
  · cases h; exact ⟨hpos.le, le_refl _⟩
  next hbefore =>
  simp only [bind_eq_ok] at h
  obtain ⟨vd, hvd, rd, hrd, h⟩ := h
  split at h
  · cases h; exact ⟨hpos.le, le_refl _⟩
  next hrd0 =>
  simp only [bind_eq_ok, pure_eq_ok] at h
  obtain ⟨scaled, hsc, rfl⟩ := h
  have hvd' : (vd : Int) = now - cliffEnd := by
    have hlt := Checked.unsigned_lt (ofOption_eq_ok.mp hve)
    exact u64_exact hvd (by omega) (by omega)
  have hrd' : (rd : Int) = schedule.duration - schedule.cliff :=
    u64_exact hrd (by omega) (by omega)
  -- the two ends are congruent to the exact sums, so their distance is exact
  have hdist : (vestEnd : Int) - cliffEnd = schedule.duration - schedule.cliff := by
    have h1 := Checked.unsigned_modEq (ofOption_eq_ok.mp hve)
    have h2 := Checked.unsigned_modEq (ofOption_eq_ok.mp hce)
    have h3 := Checked.unsigned_lt (ofOption_eq_ok.mp hve)
    obtain ⟨k, hk⟩ := (Int.modEq_iff_dvd.mp (h1.sub h2))
    omega
  have hvdrd : vd ≤ rd := by omega
  have hscaled : (scaled : Int) ≤ schedule.amount * vd := by
    have := Checked.unsigned_le (ofOption_eq_ok.mp hsc) (by positivity)
    rwa [asU128_of_nonneg hpos.le hmax] at this
  have hq0 : (0 : Int) ≤ (scaled / rd : Nat) := Int.natCast_nonneg _
  have hq : ((scaled / rd : Nat) : Int) ≤ schedule.amount := by
    rw [Int.natCast_ediv]
    apply Int.ediv_le_of_le_mul (by omega)
    calc (scaled : Int) ≤ schedule.amount * vd := hscaled
      _ ≤ schedule.amount * rd := by
        apply mul_le_mul_of_nonneg_left _ hpos.le
        exact_mod_cast hvdrd
  generalize scaled / rd = q at hq hq0
  rw [asI128_of_in (inI128_iff.mpr ⟨by omega, by omega⟩)]
  exact ⟨hq0, hq⟩

theorem claimable_ok {env : Env} {beneficiary : Address} {schedule : VestingSchedule} {x : Int} :
    claimableAmount env beneficiary schedule = .ok x ↔
      schedule.beneficiary = beneficiary ∧ schedule.claimed = false ∧ schedule.revoked = false ∧
      calculateVestedAmount env schedule env.timestamp = .ok x ∧ x ≠ 0 := by
  simp only [claimableAmount, bind_eq_ok, require_eq_ok, exists_unit_and, pure_eq_ok]
  constructor
  · rintro ⟨h1, h2, h3, y, h4, h5, rfl⟩; exact ⟨h1, h2, h3, h4, h5⟩
  · rintro ⟨h1, h2, h3, h4, h5⟩; exact ⟨h1, h2, h3, x, h4, h5, rfl⟩

/-! ## A batch is a sequence of claims -/

section Batch

variable {env : Env} {s s' : State} {beneficiary : Address}

/-- When a claim succeeds and what it does. -/
theorem claim_ok {g : Nat} {ev : ClaimEvent} :
    claim env s g beneficiary = .ok (ev, s') ↔
      beneficiary ∈ env.signers ∧ ∃ schedules, s.sched = some schedules ∧
      ∃ schedule, schedules.lookup g = some schedule ∧
      ∃ x, claimableAmount env beneficiary schedule = .ok x ∧
      ∃ token, s.token = some token ∧ x ≤ s.tokens.balance token env.self ∧
      ∃ tokens, Ledger.transfer i128Max s.tokens token env.self beneficiary x = some tokens ∧
        ev = ⟨g, beneficiary, x, env.timestamp⟩ ∧
        s' = { s with sched := some (schedules.insert g schedule.markClaimed), tokens } := by
  simp only [claim, loadSchedules, bind_eq_ok, require_eq_ok, requireAuth_eq_ok, exists_unit_and,
    ofOption_eq_ok, tokens_transfer_eq_ok, pure_eq_ok, Prod.mk.injEq, eq_comm (a := ev),
    eq_comm (a := s')]

/-- Claiming the ids one after another. -/
def claimEach (env : Env) (s : State) (beneficiary : Address) :
    List Nat → Result (List ClaimEvent × State)
  | [] => .ok ([], s)
  | g :: gs => do
    let (event, s) ← claim env s g beneficiary
    let (events, s) ← claimEach env s beneficiary gs
    pure (event :: events, s)

/-- A checked entry of a batch, against the schedules it was checked with. -/
def Checks (env : Env) (beneficiary : Address) (schedules : Store Nat VestingSchedule)
    (item : Nat × VestingSchedule × Int) : Prop :=
  ∃ schedule, schedules.lookup item.1 = some schedule ∧
    claimableAmount env beneficiary schedule = .ok item.2.2 ∧ item.2.1 = schedule.markClaimed

/-- The first loop lists the ids in order, each checked. -/
theorem checkClaims_ok {schedules : Store Nat VestingSchedule} {ids : List Nat} :
    ∀ {total total' : Int} {upd upd' : List (Nat × VestingSchedule × Int)},
      checkClaims env schedules beneficiary total upd ids = .ok (total', upd') →
      ∃ items, upd' = upd ++ items ∧ items.map Prod.fst = ids ∧
        ∀ item ∈ items, Checks env beneficiary schedules item := by
  induction ids with
  | nil =>
    intro total total' upd upd' h
    cases h
    exact ⟨[], by simp, rfl, by simp⟩
  | cons g ids ih =>
    intro total total' upd upd' h
    simp only [checkClaims, bind_eq_ok, ofOption_eq_ok] at h
    obtain ⟨schedule, hl, x, hx, t, -, h⟩ := h
    obtain ⟨items, rfl, hids, hall⟩ := ih h
    refine ⟨(g, schedule.markClaimed, x) :: items, by simp, by simp [hids], ?_⟩
    rw [List.forall_mem_cons]
    exact ⟨⟨schedule, hl, hx, rfl⟩, hall⟩

/-- The second loop publishes one event for each entry. -/
theorem payClaims_ids {token : Address} {items : List (Nat × VestingSchedule × Int)} :
    ∀ {schedules schedules' : Store Nat VestingSchedule} {tokens tokens' : Tokens}
      {evs evs' : List ClaimEvent},
      payClaims env token beneficiary schedules tokens evs items =
        .ok (schedules', tokens', evs') →
      evs'.map ClaimEvent.grantId = evs.map ClaimEvent.grantId ++ items.map Prod.fst := by
  induction items with
  | nil =>
    intro schedules schedules' tokens tokens' evs evs' h
    cases h
    simp
  | cons item items ih =>
    obtain ⟨g, schedule, x⟩ := item
    intro schedules schedules' tokens tokens' evs evs' h
    simp only [payClaims, bind_eq_ok] at h
    obtain ⟨L, -, h⟩ := h
    rw [ih h]
    simp

/-- **The second loop claims the entries one after another**, as long as no id repeats:
marking one grant then leaves the checks of the others valid. -/
theorem payClaims_sequential {token : Address} (hs : beneficiary ∈ env.signers)
    {items : List (Nat × VestingSchedule × Int)} :
    ∀ {s : State} {schedules schedules' : Store Nat VestingSchedule} {tokens' : Tokens}
      {evs evs' : List ClaimEvent},
      s.sched = some schedules → s.token = some token → (items.map Prod.fst).Nodup →
      (∀ item ∈ items, Checks env beneficiary schedules item) →
      payClaims env token beneficiary schedules s.tokens evs items =
        .ok (schedules', tokens', evs') →
      ∃ new, evs' = evs ++ new ∧ claimEach env s beneficiary (items.map Prod.fst) =
        .ok (new, { s with sched := some schedules', tokens := tokens' }) := by
  induction items with
  | nil =>
    intro s schedules schedules' tokens' evs evs' hsched _ _ _ h
    cases h
    refine ⟨[], by simp, ?_⟩
    rw [← hsched]
    rfl
  | cons item items ih =>
    obtain ⟨g, marked, x⟩ := item
    intro s schedules schedules' tokens' evs evs' hsched htoken hnodup hall h
    simp only [payClaims, bind_eq_ok, tokens_transfer_eq_ok] at h
    obtain ⟨L, hL, h⟩ := h
    rw [List.map_cons, List.nodup_cons] at hnodup
    rw [List.forall_mem_cons] at hall
    obtain ⟨⟨schedule, hlook, hx, hmarked⟩, hall⟩ := hall
    change marked = schedule.markClaimed at hmarked
    subst hmarked
    have hclaim : claim env s g beneficiary = .ok (⟨g, beneficiary, x, env.timestamp⟩,
        { s with sched := some (schedules.insert g schedule.markClaimed), tokens := L }) :=
      claim_ok.mpr ⟨hs, schedules, hsched, schedule, hlook, x, hx, token, htoken,
        (Ledger.transfer_bounds hL).2, L, hL, rfl, rfl⟩
    have hrest : ∀ item ∈ items,
        Checks env beneficiary (schedules.insert g schedule.markClaimed) item := by
      intro item hitem
      obtain ⟨sch, hl, hsch⟩ := hall item hitem
      have hne : item.1 ≠ g := by
        intro heq
        exact hnodup.1 (List.mem_map.mpr ⟨item, hitem, heq⟩)
      exact ⟨sch, by rw [Store.lookup_insert_eq, if_neg hne]; exact hl, hsch⟩
    let s1 : State := { s with sched := some (schedules.insert g schedule.markClaimed), tokens := L }
    obtain ⟨new, rfl, hseq⟩ := ih (s := s1) rfl htoken hnodup.2 hrest h
    refine ⟨⟨g, beneficiary, x, env.timestamp⟩ :: new, by simp, ?_⟩
    rw [List.map_cons, claimEach, hclaim]
    simp only [ok_bind]
    rw [hseq]
    rfl

/-- What an accepted batch went through. -/
theorem batchClaim_ok {ids : List Nat} {total : Int} {evs : List ClaimEvent}
    (h : batchClaim env s ids beneficiary = .ok ((total, evs), s')) :
    beneficiary ∈ env.signers ∧
    ((ids = [] ∧ evs = [] ∧ s' = s) ∨
      ∃ schedules token total' items schedules' tokens', s.sched = some schedules ∧
        s.token = some token ∧
        checkClaims env schedules beneficiary 0 [] ids = .ok (total', items) ∧
        payClaims env token beneficiary schedules s.tokens [] items =
          .ok (schedules', tokens', evs) ∧
        s' = { s with sched := some schedules', tokens := tokens' }) := by
  simp only [batchClaim, bind_eq_ok, requireAuth_eq_ok, exists_unit_and] at h
  obtain ⟨hs, h⟩ := h
  refine ⟨hs, ?_⟩
  split at h
  · next hnil =>
    simp only [pure_eq_ok, Prod.mk.injEq] at h
    obtain ⟨⟨-, rfl⟩, rfl⟩ := h
    exact .inl ⟨hnil, rfl, rfl⟩
  · simp only [loadSchedules, bind_eq_ok, require_eq_ok, exists_unit_and, ofOption_eq_ok,
      pure_eq_ok] at h
    obtain ⟨-, schedules, hsched, token, htoken, ⟨total', items⟩, hcheck, -,
      ⟨schedules', tokens', events⟩, hpay, heq⟩ := h
    simp only [Prod.mk.injEq] at heq
    obtain ⟨⟨-, rfl⟩, rfl⟩ := heq
    exact .inr ⟨schedules, token, total', items, schedules', tokens', hsched, htoken, hcheck,
      hpay, rfl⟩

/-- An accepted batch pays the listed ids in order. -/
theorem batchClaim_ids {ids : List Nat} {total : Int} {evs : List ClaimEvent}
    (h : batchClaim env s ids beneficiary = .ok ((total, evs), s')) :
    evs.map ClaimEvent.grantId = ids := by
  obtain ⟨-, ⟨rfl, rfl, -⟩ | ⟨_, _, _, items, _, _, -, -, hcheck, hpay, -⟩⟩ := batchClaim_ok h
  · rfl
  · obtain ⟨items', hitems, hids, -⟩ := checkClaims_ok hcheck
    rw [payClaims_ids hpay, hitems, List.nil_append, hids]
    rfl

/-- **A batch without repeated ids is its claims one after another.** -/
theorem batchClaim_sequential {ids : List Nat} {total : Int} {evs : List ClaimEvent}
    (h : batchClaim env s ids beneficiary = .ok ((total, evs), s')) (hnodup : ids.Nodup) :
    claimEach env s beneficiary ids = .ok (evs, s') := by
  obtain ⟨hs, ⟨rfl, rfl, rfl⟩ | ⟨schedules, token, _, items, _, _, hsched, htoken, hcheck, hpay,
    rfl⟩⟩ := batchClaim_ok h
  · rfl
  · obtain ⟨items', hitems, hids, hall⟩ := checkClaims_ok hcheck
    rw [List.nil_append] at hitems
    subst hitems
    obtain ⟨new, rfl, hseq⟩ :=
      payClaims_sequential hs hsched htoken (by rw [hids]; exact hnodup) hall hpay
    rw [hids] at hseq
    simpa using hseq

end Batch

/-! ## The books -/

/-- What the payments made so far say about the stored grants. -/
structure Books (ps : List ClaimEvent) (s : State) : Prop where
  uninitialized : s.initialized = false → s.admin = none ∧ s.sched = none
  fresh : ∀ g, g ∈ grants s → g ≤ s.cnt
  wellFormed : ∀ g schedule, (grants s).lookup g = some schedule → schedule.WellFormed
  absent : ∀ g, (grants s).lookup g = none → transfers ps g = 0
  unpaid : ∀ g schedule, (grants s).lookup g = some schedule → schedule.claimed = false →
    transfers ps g = 0
  paid : ∀ g schedule, (grants s).lookup g = some schedule → schedule.claimed = true →
    transfers ps g = 1 ∧ paidFor ps g ≤ schedule.amount

theorem Books.transfers_le {ps : List ClaimEvent} {s : State} (h : Books ps s) (g : Nat) :
    transfers ps g ≤ 1 := by
  cases hl : (grants s).lookup g with
  | none => rw [h.absent g hl]; omega
  | some schedule =>
    cases hc : schedule.claimed with
    | false => rw [h.unpaid g schedule hl hc]; omega
    | true => rw [(h.paid g schedule hl hc).1]

theorem Books.paidFor_le {ps : List ClaimEvent} {s : State} (h : Books ps s) (g : Nat) :
    paidFor ps g ≤ grantAmount s g := by
  cases hl : (grants s).lookup g with
  | none =>
    unfold grantAmount
    rw [Store.old_of_lookup_none hl, paidFor_of_no_transfers (h.absent g hl)]
  | some schedule =>
    unfold grantAmount
    rw [Store.old_of_lookup hl]
    cases hc : schedule.claimed with
    | false =>
      rw [paidFor_of_no_transfers (h.unpaid g schedule hl hc)]
      exact (h.wellFormed g schedule hl).amount_pos.le
    | true => exact (h.paid g schedule hl hc).2

/-- Storing a grant under `g`: the other grants are untouched when no new payment is on
their account. -/
theorem Books.store {ps : List ClaimEvent} {s s' : State} (h : Books ps s)
    (new : List ClaimEvent) (g : Nat) (schedule : VestingSchedule)
    (hsched : s'.sched = some ((grants s).insert g schedule))
    (hinit : s'.initialized = true) (hg : g ≤ s'.cnt) (hcnt : s.cnt ≤ s'.cnt)
    (hw : schedule.WellFormed) (hnew : ∀ g', g' ≠ g → transfers new g' = 0)
    (hopen : schedule.claimed = false → transfers (ps ++ new) g = 0)
    (hclosed : schedule.claimed = true →
      transfers (ps ++ new) g = 1 ∧ paidFor (ps ++ new) g ≤ schedule.amount) :
    Books (ps ++ new) s' := by
  have hgrants : grants s' = (grants s).insert g schedule := by
    unfold grants; rw [hsched]; rfl
  have hother : ∀ g', g' ≠ g → transfers (ps ++ new) g' = transfers ps g' := by
    intro g' hne; rw [transfers_append, hnew g' hne, Nat.add_zero]
  have hpaid : ∀ g', g' ≠ g → paidFor (ps ++ new) g' = paidFor ps g' := by
    intro g' hne
    rw [paidFor_append, paidFor_of_no_transfers (hnew g' hne), add_zero]
  refine ⟨?_, ?_, ?_, ?_, ?_, ?_⟩
  · intro hf; rw [hinit] at hf; cases hf
  · intro g' hm
    rw [hgrants, AList.mem_insert] at hm
    rcases hm with rfl | hm
    · exact hg
    · exact (h.fresh g' hm).trans hcnt
  · intro g' sch hl
    rw [hgrants, Store.lookup_insert_eq] at hl
    split at hl
    · cases hl; exact hw
    · exact h.wellFormed g' sch hl
  · intro g' hl
    rw [hgrants, Store.lookup_insert_eq] at hl
    split at hl
    · cases hl
    · next hne => rw [hother g' hne]; exact h.absent g' hl
  · intro g' sch hl hc
    rw [hgrants, Store.lookup_insert_eq] at hl
    split at hl
    · next heq => subst heq; cases hl; exact hopen hc
    · next hne => rw [hother g' hne]; exact h.unpaid g' sch hl hc
  · intro g' sch hl hc
    rw [hgrants, Store.lookup_insert_eq] at hl
    split at hl
    · next heq => subst heq; cases hl; exact hclosed hc
    · next hne => rw [hother g' hne, hpaid g' hne]; exact h.paid g' sch hl hc

/-- A stored schedule means that the contract was initialised. -/
theorem Books.initialized {ps : List ClaimEvent} {s : State} {g : Nat} {schedule : VestingSchedule}
    (h : Books ps s) (hl : (grants s).lookup g = some schedule) : s.initialized = true := by
  by_contra hf
  have := (h.uninitialized (by simpa using hf)).2
  unfold grants at hl
  rw [this] at hl
  cases hl

/-- **One claim** pays a grant that had not been paid, at most its amount. -/
theorem Books.claim {ps : List ClaimEvent} {env : Env} {s s' : State} {g : Nat}
    {beneficiary : Address} {ev : ClaimEvent} (h : Books ps s)
    (hc : claim env s g beneficiary = .ok (ev, s')) : Books (ps ++ [ev]) s' := by
  obtain ⟨-, schedules, hsched, schedule, hl, x, hx, token, -, -, L, -, rfl, rfl⟩ := claim_ok.mp hc
  obtain ⟨-, hun, -, hvest, -⟩ := claimable_ok.mp hx
  have hgrants : grants s = schedules := by unfold grants; rw [hsched]; rfl
  rw [← hgrants] at hl
  have hw := h.wellFormed g schedule hl
  have hzero := h.unpaid g schedule hl hun
  have hmem : g ∈ grants s := AList.lookup_isSome.mp (by rw [hl]; rfl)
  refine h.store [⟨g, beneficiary, x, env.timestamp⟩] g schedule.markClaimed (by rw [hgrants])
    (h.initialized hl) (h.fresh g hmem) (le_refl _)
    ⟨hw.amount_pos, hw.amount_le, hw.cliff_le, hw.duration_lt⟩ ?_ ?_ ?_
  · intro g' hne; simp [transfers, hne.symm]
  · intro hf; cases hf
  · intro _
    rw [transfers_append, paidFor_append, paidFor_of_no_transfers hzero, hzero]
    have := (vested_le hw hvest).2
    simpa [transfers, paidFor, VestingSchedule.markClaimed] using this

/-- Claims one after another, by induction on the ids. -/
theorem Books.claimEach {env : Env} {beneficiary : Address} {ids : List Nat} :
    ∀ {ps evs : List ClaimEvent} {s s' : State}, Books ps s →
      claimEach env s beneficiary ids = .ok (evs, s') → Books (ps ++ evs) s' := by
  induction ids with
  | nil =>
    intro ps evs s s' h hc
    cases hc
    rwa [List.append_nil]
  | cons g ids ih =>
    intro ps evs s s' h hc
    simp only [Vesting.claimEach, bind_eq_ok, pure_eq_ok, Prod.mk.injEq] at hc
    obtain ⟨⟨ev, s1⟩, h1, ⟨evs1, s2⟩, h2, rfl, rfl⟩ := hc
    have := ih (h.claim h1) h2
    rwa [List.append_assoc] at this

theorem Books.congr {ps : List ClaimEvent} {s s' : State} (h : Books ps s)
    (hinit : s'.initialized = s.initialized) (hadmin : s'.admin = s.admin)
    (hcnt : s'.cnt = s.cnt) (hsched : s'.sched = s.sched) : Books ps s' := by
  have hgrants : grants s' = grants s := by unfold grants; rw [hsched]
  refine ⟨?_, ?_, ?_, ?_, ?_, ?_⟩
  · rw [hinit, hadmin, hsched]; exact h.uninitialized
  · rw [hgrants, hcnt]; exact h.fresh
  · rw [hgrants]; exact h.wellFormed
  · rw [hgrants]; exact h.absent
  · rw [hgrants]; exact h.unpaid
  · rw [hgrants]; exact h.paid

/-- The ids of an accepted batch do not repeat. -/
def NoRepeats (e : Event Env Call Reply State) : Prop :=
  match e.call with
  | .batchClaim ids _ => ids.Nodup
  | _ => True

instance (e : Event Env Call Reply State) : Decidable (NoRepeats e) :=
  match h : e.call with
  | .batchClaim ids _ => decidable_of_iff ids.Nodup (by rw [NoRepeats, h])
  | .init .. | .grantVesting .. | .claim .. | .revoke .. | .token _ =>
    isTrue (by rw [NoRepeats, h]; trivial)

theorem noRepeats_iff {e : Event Env Call Reply State} :
    NoRepeats e ↔ ∀ ids beneficiary, e.call = .batchClaim ids beneficiary → ids.Nodup := by
  unfold NoRepeats
  constructor
  · intro h ids beneficiary hcall; rw [hcall] at h; exact h
  · intro h
    split
    · next ids beneficiary hcall => exact h ids beneficiary hcall
    · trivial

theorem books_step {d : Deployment} {ps : List ClaimEvent} {env : Env} {call : Call} {r : Reply}
    {s s' : State} (hv : (machine d).valid env call) (h : Books ps s)
    (hx : (machine d).exec env call s = .ok (r, s')) (hn : NoRepeats ⟨env, call, r, s, s'⟩) :
    Books (ps ++ payouts ⟨env, call, r, s, s'⟩) s' := by
  cases call with
  | init admin token gov cfg =>
    simp only [machine, exec, init, bind_eq_ok, require_eq_ok, exists_unit_and, pure_eq_ok,
      Prod.mk.injEq] at hx
    obtain ⟨_, ⟨hfalse, rfl⟩, rfl, rfl⟩ := hx
    have hnone := (h.uninitialized hfalse).2
    rw [payouts, List.append_nil]
    refine ⟨fun hf => (by cases hf), ?_, ?_, ?_, ?_, ?_⟩
    · intro g hm; unfold grants at hm; rw [hnone] at hm; exact absurd hm (AList.notMem_empty _)
    · exact h.wellFormed
    · exact h.absent
    · exact h.unpaid
    · exact h.paid
  | grantVesting admin beneficiary amount startTime cliff duration =>
    simp only [machine, exec, grantVesting, bind_eq_ok, require_eq_ok, requireAuth_eq_ok,
      exists_unit_and, ofOption_eq_ok, pure_eq_ok] at hx
    obtain ⟨⟨g, s1⟩, ⟨-, -, stored, hadmin, -, hpos, hcliff, hs1⟩, heq⟩ := hx
    obtain ⟨rfl, rfl⟩ := Prod.mk.inj hs1
    obtain ⟨rfl, rfl⟩ := Prod.mk.inj heq
    obtain ⟨-, hamt, -, -, hdur⟩ := hv
    have hinit : s.initialized = true := by
      by_contra hf
      rw [(h.uninitialized (by simpa using hf)).1] at hadmin
      cases hadmin
    have hnone : (grants s).lookup (s.cnt + 1) = none := by
      rw [AList.lookup_eq_none]
      intro hm
      have := h.fresh _ hm
      omega
    refine h.store [] (s.cnt + 1) _ rfl hinit (le_refl _) (Nat.le_succ _)
      ⟨hpos, (inI128_iff.mp hamt).2, hcliff, hdur⟩ (fun _ _ => rfl) ?_ ?_
    · intro _; rw [List.append_nil]; exact h.absent _ hnone
    · intro hf; cases hf
  | claim g beneficiary =>
    simp only [machine, exec, bind_eq_ok, pure_eq_ok] at hx
    obtain ⟨⟨ev, s1⟩, h1, heq⟩ := hx
    obtain ⟨rfl, rfl⟩ := Prod.mk.inj heq
    exact h.claim h1
  | batchClaim ids beneficiary =>
    simp only [machine, exec, bind_eq_ok, pure_eq_ok] at hx
    obtain ⟨⟨⟨total, evs⟩, s1⟩, h1, heq⟩ := hx
    obtain ⟨rfl, rfl⟩ := Prod.mk.inj heq
    exact h.claimEach (batchClaim_sequential h1 hn)
  | revoke g admin delay =>
    simp only [machine, exec, revoke, loadSchedules, bind_eq_ok, require_eq_ok, requireAuth_eq_ok,
      exists_unit_and, ofOption_eq_ok, pure_eq_ok] at hx
    obtain ⟨s1, ⟨-, -, _, -, -, schedules, hsched, schedule, hl, hun, -, -, _, -, -, hs1⟩, heq⟩ := hx
    obtain ⟨rfl, rfl⟩ := Prod.mk.inj heq
    subst hs1
    have hgrants : grants s = schedules := by unfold grants; rw [hsched]; rfl
    rw [← hgrants] at hl
    have hw := h.wellFormed g schedule hl
    have hmem : g ∈ grants s := AList.lookup_isSome.mp (by rw [hl]; rfl)
    refine h.store [] g { schedule with revoked := true, revokeTime := env.timestamp }
      (by rw [hgrants]) (h.initialized hl) (h.fresh g hmem) (le_refl _)
      ⟨hw.amount_pos, hw.amount_le, hw.cliff_le, hw.duration_lt⟩ (fun _ _ => rfl) ?_ ?_
    · intro _; rw [List.append_nil]; exact h.unpaid g schedule hl hun
    · intro hc
      change schedule.claimed = true at hc
      rw [hun] at hc
      cases hc
  | token c =>
    simp only [machine, exec, bind_eq_ok, pure_eq_ok, Prod.mk.injEq] at hx
    obtain ⟨tokens, -, rfl, rfl⟩ := hx
    rw [payouts, List.append_nil]
    exact h.congr rfl rfl rfl rfl

theorem books_run {d : Deployment} {tr : Trace} {s : State} (h : Run (machine d) tr s)
    (hn : ∀ e ∈ tr, NoRepeats e) : Books (payments tr) s := by
  refine h.invariant_trace (I := fun tr s => (∀ e ∈ tr, NoRepeats e) → Books (payments tr) s)
    ?_ ?_ hn
  · rintro s ⟨-, hadmin, -, -, hsched⟩ -
    have hgrants : grants s = ∅ := by unfold grants; rw [hsched]; rfl
    refine ⟨fun _ => ⟨hadmin, hsched⟩, ?_, ?_, fun _ _ => rfl, fun _ _ _ _ => rfl, ?_⟩
    · intro g hm; rw [hgrants] at hm; exact absurd hm (AList.notMem_empty _)
    · intro g sch hl; rw [hgrants] at hl; cases hl
    · intro g sch hl; rw [hgrants] at hl; cases hl
  · intro tr env call r s s' hv _ ih hx hall
    rw [List.forall_mem_cons] at hall
    exact books_step hv (ih hall.2) hx hall.1

/-! ## Paid once -/

/-- The call, if it is a batch, did what its claims would have done one after another. -/
def Sequential (e : Event Env Call Reply State) : Prop :=
  ∀ ids beneficiary, e.call = .batchClaim ids beneficiary →
    claimEach e.env e.before beneficiary ids = .ok (payouts e, e.after)

theorem sequential_of_noRepeats {d : Deployment} {tr : Trace} {s : State}
    {e : Event Env Call Reply State} (h : Run (machine d) tr s) (he : e ∈ tr)
    (hn : NoRepeats e) : Sequential e := by
  intro ids beneficiary hcall
  obtain ⟨_, -, -, hx⟩ := h.of_mem he
  rw [hcall] at hx
  simp only [machine, exec, bind_eq_ok, pure_eq_ok] at hx
  obtain ⟨⟨⟨total, evs⟩, s1⟩, h1, heq⟩ := hx
  obtain ⟨hret, rfl⟩ := Prod.mk.inj heq
  rw [payouts, ← hret]
  exact batchClaim_sequential h1 (noRepeats_iff.mp hn ids beneficiary hcall)

/-- The payments of a batch are one for each id listed. -/
theorem payouts_ids {d : Deployment} {tr : Trace} {s : State} {e : Event Env Call Reply State}
    {ids : List Nat} {beneficiary : Address} (h : Run (machine d) tr s) (he : e ∈ tr)
    (hcall : e.call = .batchClaim ids beneficiary) :
    (payouts e).map ClaimEvent.grantId = ids := by
  obtain ⟨_, -, -, hx⟩ := h.of_mem he
  rw [hcall] at hx
  simp only [machine, exec, bind_eq_ok, pure_eq_ok] at hx
  obtain ⟨⟨⟨total, evs⟩, s1⟩, h1, heq⟩ := hx
  rw [payouts, ← (Prod.mk.inj heq).1]
  exact batchClaim_ids h1

theorem transfers_eq_count (ps : List ClaimEvent) (g : Nat) :
    transfers ps g = (ps.map ClaimEvent.grantId).count g := by
  unfold transfers
  rw [List.count, List.countP_map]
  rfl

/-- Contract 0, token 5, administrator 9, beneficiary 2. -/
def callAt (t : Nat) (signers : List Address) : Env := ⟨⟨0, true⟩, t, 0, signers⟩

/-- Two vested grants of 50 each and 100 tokens to pay them. -/
def twoGrants : List (Env × Call) :=
  [(callAt 0 [], .token (.mint 5 0 100)), (callAt 0 [], .init 9 5 9 ⟨1000, 100, 3600⟩),
    (callAt 0 [9], .grantVesting 9 2 50 0 0 10), (callAt 0 [9], .grantVesting 9 2 50 0 0 10)]

end Stellara.Vesting
