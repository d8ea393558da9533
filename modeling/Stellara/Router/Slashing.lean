import Stellara.Router.ProofBinding

/-!
# Stakes and slashing

`register_validator` appends an entry, also for an address that has one, and `slash_validator`
takes a share of the first entry of the address; any percentage will do.

    Throughout Bounded tr ↔ Throughout Proper tr                              (bounded_iff)

`Bounded`: no stake is negative, a slash takes at most what the validator has, and
`get_validator_count` counts every active validator once and never grows by a slash.  That is
so exactly along the runs in which no validator registers while it is active and no slash takes
more than the first entry holds (`Proper`).
-/

namespace Stellara.Router

open Outcome

variable {Digest : Type} [DecidableEq Digest] {sha256 : Bytes → Digest} {d : Deployment}

/-! ## The property and the condition -/

/-- What all the entries of an address hold. -/
def stakeOf (address : Address) (validators : List Validator) : Int :=
  ((validators.filter fun v => v.address = address).map Validator.stakedAmount).sum

/-- The validators that are active and have something at stake. -/
def activeStakers (validators : List Validator) : List Address :=
  ((validators.filter fun v => v.status = 0 ∧ 0 < v.stakedAmount).map Validator.address).dedup

/-- A slash takes at most the stake, and the count does not grow. -/
def SlashBounded (e : Event Env (Call Digest) (Reply Digest) (State Digest)) : Prop :=
  match e.call, e.ret with
  | .slashValidator address _, .amount x =>
    x ≤ stakeOf address e.before.validators ∧
      getValidatorCount e.after ≤ getValidatorCount e.before
  | _, _ => True

structure Bounded (e : Event Env (Call Digest) (Reply Digest) (State Digest))
    (_tr : Trace Digest) : Prop where
  stakes : ∀ v ∈ e.after.validators, 0 ≤ v.stakedAmount
  slash : SlashBounded e
  count : getValidatorCount e.after = (activeStakers e.after.validators).length

/-- The share of a stake, in the arithmetic of the type. -/
def slashShare (stakedAmount : Int) (slashPercentage : Nat) : Int :=
  (asI128 (stakedAmount * slashPercentage)).tdiv 100

/-- **The condition.**  A validator that registers has no active entry, and of the entry that is
slashed no more is taken than it holds (nor, where a product has wrapped around, so much added
that it is no `i128`). -/
def Proper (e : Event Env (Call Digest) (Reply Digest) (State Digest)) (_tr : Trace Digest) :
    Prop :=
  match e.call with
  | .registerValidator address stakedAmount =>
    1000000000 ≤ stakedAmount → ∀ v ∈ e.before.validators, v.address = address → v.status ≠ 0
  | .slashValidator address slashPercentage =>
    ∀ v, (e.before.validators.find? fun v => v.address = address) = some v →
      slashShare v.stakedAmount slashPercentage ≤ v.stakedAmount ∧
        v.stakedAmount - slashShare v.stakedAmount slashPercentage ≤ i128Max
  | _ => True

/-- A stake is an `i128`. -/
def StakeInRange (e : Event Env (Call Digest) (Reply Digest) (State Digest)) : Prop :=
  match e.call with
  | .registerValidator _ stakedAmount => InI128 stakedAmount
  | _ => True

instance properDecidable (e : Event Env (Call Digest) (Reply Digest) (State Digest))
    (tr : Trace Digest) : Decidable (Proper e tr) := by
  obtain ⟨env, call, ret, before, after⟩ := e
  induction call using Call.casesOn <;> unfold Proper <;> infer_instance

instance stakeInRangeDecidable (e : Event Env (Call Digest) (Reply Digest) (State Digest)) :
    Decidable (StakeInRange e) := by
  obtain ⟨env, call, ret, before, after⟩ := e
  induction call using Call.casesOn <;> unfold StakeInRange <;> infer_instance

/-! ## The entries -/

/-- The addresses of the active entries. -/
def activeAddresses (validators : List Validator) : List Address :=
  (validators.filter fun v => v.status = 0).map Validator.address

/-- What the entries are like along a proper run. -/
structure Sound (validators : List Validator) : Prop where
  stakes : ∀ v ∈ validators, 0 ≤ v.stakedAmount ∧ v.stakedAmount ≤ i128Max
  positive : ∀ v ∈ validators, v.status = 0 → 0 < v.stakedAmount
  distinct : (activeAddresses validators).Nodup

theorem dedup_length_eq_iff {α : Type} [DecidableEq α] {l : List α} :
    l.length = l.dedup.length ↔ l.Nodup := by
  constructor
  · intro h
    rw [← List.dedup_eq_self]
    exact (List.dedup_sublist l).eq_of_length h.symm
  · intro h
    rw [List.dedup_eq_self.mpr h]

omit [DecidableEq Digest] in
/-- As long as every active entry holds something, the count is right exactly if no validator
has two active entries. -/
theorem count_eq_iff {s : State Digest}
    (hpos : ∀ v ∈ s.validators, v.status = 0 → 0 < v.stakedAmount) :
    getValidatorCount s = (activeStakers s.validators).length ↔
      (activeAddresses s.validators).Nodup := by
  have hfilter : (s.validators.filter fun v => v.status = 0 ∧ 0 < v.stakedAmount) =
      s.validators.filter fun v => v.status = 0 := by
    refine List.filter_congr fun v hv => ?_
    simpa using hpos v hv
  unfold activeStakers
  rw [hfilter, ← dedup_length_eq_iff]
  unfold getValidatorCount activeAddresses
  rw [List.length_map]

/-- What `slash_validator` does to the list: the first entry of the address, if there is one,
pays its share and is made inactive when nothing is left. -/
theorem slashFirst_ok {env : Env} {address : Address} {slashPercentage : Nat}
    {validators validators' : List Validator} {x : Int}
    (h : slashFirst env address slashPercentage validators = .ok (x, validators')) :
    ((validators.find? fun v => v.address = address) = none ∧ x = 0 ∧ validators' = validators) ∨
    ∃ before v after stake, validators = before ++ v :: after ∧
      (validators.find? fun v => v.address = address) = some v ∧ v.address = address ∧
      x = slashShare v.stakedAmount slashPercentage ∧
      (env.i128 (v.stakedAmount - x) : Result Int) = .ok stake ∧
      validators' = before ++
        { v with stakedAmount := stake, status := if stake ≤ 0 then 2 else v.status } :: after := by
  induction validators generalizing validators' with
  | nil =>
    cases h
    exact .inl ⟨rfl, rfl, rfl⟩
  | cons v rest ih =>
    unfold slashFirst at h
    by_cases haddr : v.address = address
    · rw [if_pos haddr] at h
      simp only [bind_eq_ok, pure_eq_ok, Prod.mk.injEq] at h
      obtain ⟨scaled, hscaled, stake, hstake, rfl, rfl⟩ := h
      rw [i128_eq_asI128 hscaled] at hstake ⊢
      exact .inr ⟨[], v, rest, stake, rfl, List.find?_cons_of_pos (by simpa using haddr), haddr,
        rfl, hstake, rfl⟩
    · rw [if_neg haddr] at h
      simp only [bind_eq_ok, pure_eq_ok, Prod.mk.injEq] at h
      obtain ⟨⟨x', rest'⟩, hrest, rfl, rfl⟩ := h
      have hfind : ((v :: rest).find? fun v => v.address = address) =
          rest.find? fun v => v.address = address :=
        List.find?_cons_of_neg (by simpa using haddr)
      rw [hfind]
      rcases ih hrest with ⟨hnone, hx, hsame⟩ | ⟨before, w, after, stake, hsplit, hw⟩
      · exact .inl ⟨hnone, hx, congrArg (v :: ·) hsame⟩
      · obtain ⟨hsome, haddr', hx, hstake, hafter⟩ := hw
        exact .inr ⟨v :: before, w, after, stake, congrArg (v :: ·) hsplit, hsome, haddr', hx,
          hstake, congrArg (v :: ·) hafter⟩

/-- What is left of an entry is not negative exactly if no more is taken than it holds. -/
theorem stake_nonneg_iff {env : Env} {held stake : Int} {slashPercentage : Nat} (h0 : 0 ≤ held)
    (hmax : held ≤ i128Max)
    (h : (env.i128 (held - slashShare held slashPercentage) : Result Int) = .ok stake) :
    0 ≤ stake ↔
      slashShare held slashPercentage ≤ held ∧
        held - slashShare held slashPercentage ≤ i128Max := by
  obtain ⟨hlow, hhigh⟩ := inI128_iff.mp (asI128_inI128 (held * slashPercentage))
  have hshare : -2 ^ 127 ≤ slashShare held slashPercentage ∧
      slashShare held slashPercentage ≤ i128Max := by
    unfold slashShare
    generalize asI128 (held * slashPercentage) = scaled at hlow hhigh
    rcases le_or_gt 0 scaled with hpos | hneg
    · rw [Int.tdiv_eq_ediv_of_nonneg hpos]
      omega
    · rw [show scaled = -(-scaled) by omega, Int.neg_tdiv, Int.tdiv_eq_ediv_of_nonneg (by omega)]
      unfold i128Max
      omega
  generalize slashShare held slashPercentage = share at h hshare
  constructor
  · intro hstake
    have hle : share ≤ held := by
      by_contra hgt
      have hin : InI128 (held - share) := by
        unfold i128Max at *
        exact inI128_iff.mpr ⟨by omega, by unfold i128Max; omega⟩
      have hexact := i128_exact h hin
      omega
    refine ⟨hle, ?_⟩
    rcases i128_sum_cases h (by omega) (by unfold i128Max at *; omega) with ⟨hin, -⟩ | ⟨-, hstake'⟩
    · exact (inI128_iff.mp hin).2
    · unfold i128Max at *
      omega
  · rintro ⟨hle, hfits⟩
    have hexact := i128_exact h (inI128_iff.mpr ⟨by omega, hfits⟩)
    omega

/-- Replacing an entry by an inactive one, or by one that is active as before, adds no active
address. -/
theorem active_sublist {before after : List Validator} {v v' : Validator}
    (haddr : v'.address = v.address) (hstatus : v'.status = 0 → v.status = 0) :
    (activeAddresses (before ++ v' :: after)).Sublist (activeAddresses (before ++ v :: after)) := by
  unfold activeAddresses
  rw [List.filter_append, List.filter_append, List.map_append, List.map_append]
  refine (List.Sublist.refl _).append ?_
  by_cases hactive : v'.status = 0
  · rw [List.filter_cons_of_pos (by simpa using hactive),
      List.filter_cons_of_pos (by simpa using hstatus hactive), List.map_cons, List.map_cons, haddr]
  · rw [List.filter_cons_of_neg (by simpa using hactive)]
    exact ((List.sublist_cons_self _ _).filter _).map _

theorem le_stakeOf {validators : List Validator} (h : ∀ v ∈ validators, 0 ≤ v.stakedAmount)
    {v : Validator} (hv : v ∈ validators) : v.stakedAmount ≤ stakeOf v.address validators := by
  refine List.single_le_sum (fun x hx => ?_) _
    (List.mem_map_of_mem (List.mem_filter.mpr ⟨hv, by simp⟩))
  obtain ⟨w, hw, rfl⟩ := List.mem_map.mp hx
  exact h w (List.mem_filter.mp hw).1

omit [DecidableEq Digest] in
theorem count_eq_length (s : State Digest) :
    getValidatorCount s = (activeAddresses s.validators).length := by
  unfold getValidatorCount activeAddresses
  rw [List.length_map]

/-! ## One call -/

section Step

variable {tr : Trace Digest} {env : Env} {call : Call Digest} {r : Reply Digest}
  {s s' : State Digest} {address : Address} {stakedAmount : Int} {slashPercentage : Nat}

/-- A registration appends an active entry; the others calls but a slash change no entry. -/
theorem exec_validators (tr : Trace Digest) (hx : exec sha256 env call s = .ok (r, s')) :
    (∃ address stakedAmount, call = .registerValidator address stakedAmount ∧
      1000000000 ≤ stakedAmount ∧ s'.validators = s.validators ++ [⟨address, stakedAmount, 0⟩]) ∨
    (∃ address slashPercentage x, call = .slashValidator address slashPercentage ∧
      r = .amount x ∧
      slashFirst env address slashPercentage s.validators = .ok (x, s'.validators)) ∨
    (s'.validators = s.validators ∧ SlashBounded ⟨env, call, r, s, s'⟩ ∧
      Proper ⟨env, call, r, s, s'⟩ tr) := by
  cases call with
  | init admin =>
    cases hx
    exact .inr (.inr ⟨rfl, trivial, trivial⟩)
  | setChainId admin chainId =>
    obtain rfl := setChainId_ok (answer_eq_ok.mp hx).1
    exact .inr (.inr ⟨rfl, trivial, trivial⟩)
  | initiateMessage sourceChain destChain sender recipient payload =>
    obtain ⟨messageId, hx, -⟩ := answerWith_eq_ok.mp hx
    obtain ⟨-, rfl⟩ := initiateMessage_ok hx
    exact .inr (.inr ⟨rfl, trivial, trivial⟩)
  | verifyMessage messageId header proof =>
    obtain ⟨b, hx, -⟩ := answerWith_eq_ok.mp hx
    rcases verifyMessage_ok hx with ⟨-, messages, -, rfl⟩ | ⟨-, rfl⟩
    · exact .inr (.inr ⟨rfl, trivial, trivial⟩)
    · exact .inr (.inr ⟨rfl, trivial, trivial⟩)
  | registerValidator address stakedAmount =>
    obtain ⟨b, hx, -⟩ := answerWith_eq_ok.mp hx
    rcases registerValidator_ok hx with ⟨hlarge, rfl⟩ | ⟨hsmall, rfl⟩
    · exact .inl ⟨address, stakedAmount, rfl, hlarge, rfl⟩
    · exact .inr (.inr ⟨rfl, trivial, fun hlarge => absurd hsmall (not_lt.mpr hlarge)⟩)
  | slashValidator address slashPercentage =>
    obtain ⟨x, hcall, hr⟩ := answerWith_eq_ok.mp hx
    obtain ⟨validators, hslash, rfl⟩ := slashValidator_ok hcall
    exact .inr (.inl ⟨address, slashPercentage, x, rfl, hr, hslash⟩)
  | updateLightClient header =>
    obtain ⟨b, hx, -⟩ := answerWith_eq_ok.mp hx
    obtain rfl := updateLightClient_ok hx
    exact .inr (.inr ⟨rfl, trivial, trivial⟩)

omit [DecidableEq Digest] in
theorem Sound.bounded {e : Event Env (Call Digest) (Reply Digest) (State Digest)}
    (h : Sound e.after.validators) (hslash : SlashBounded e) : Bounded e tr :=
  ⟨fun v hv => (h.stakes v hv).1, hslash, (count_eq_iff h.positive).mpr h.distinct⟩

omit [DecidableEq Digest] in
/-- **A registration** keeps the bounds exactly if the validator was not active. -/
theorem bounded_register (h : Sound s.validators) (hlarge : 1000000000 ≤ stakedAmount)
    (hrange : InI128 stakedAmount)
    (hafter : s'.validators = s.validators ++ [⟨address, stakedAmount, 0⟩]) :
    (Bounded ⟨env, .registerValidator address stakedAmount, r, s, s'⟩ tr ↔
      Proper (⟨env, .registerValidator address stakedAmount, r, s, s'⟩ :
        Event Env (Call Digest) (Reply Digest) (State Digest)) tr) ∧
    (Bounded (⟨env, .registerValidator address stakedAmount, r, s, s'⟩ :
        Event Env (Call Digest) (Reply Digest) (State Digest)) tr → Sound s'.validators) := by
  have hnew : ∀ v ∈ s'.validators, v ∈ s.validators ∨ v = ⟨address, stakedAmount, 0⟩ := by
    intro v hv
    rw [hafter] at hv
    exact (List.mem_append.mp hv).imp id List.mem_singleton.mp
  have hstakes : ∀ v ∈ s'.validators, 0 ≤ v.stakedAmount ∧ v.stakedAmount ≤ i128Max := by
    intro v hv
    rcases hnew v hv with hv | rfl
    · exact h.stakes v hv
    · exact ⟨by show (0 : Int) ≤ stakedAmount; omega, (inI128_iff.mp hrange).2⟩
  have hpos : ∀ v ∈ s'.validators, v.status = 0 → 0 < v.stakedAmount := by
    intro v hv hactive
    rcases hnew v hv with hv | rfl
    · exact h.positive v hv hactive
    · show 0 < stakedAmount
      omega
  have hactive : activeAddresses s'.validators = activeAddresses s.validators ++ [address] := by
    unfold activeAddresses
    rw [hafter, List.filter_append, List.map_append]
    rfl
  have hdistinct : (activeAddresses s'.validators).Nodup ↔
      ∀ v ∈ s.validators, v.address = address → v.status ≠ 0 := by
    rw [hactive, List.nodup_append]
    constructor
    · rintro ⟨-, -, hne⟩ v hv haddr hstatus
      refine hne address ?_ address (List.mem_singleton_self _) rfl
      exact List.mem_map.mpr ⟨v, List.mem_filter.mpr ⟨hv, by simpa using hstatus⟩, haddr⟩
    · intro hnone
      refine ⟨h.distinct, List.nodup_singleton _, fun a ha b hb => ?_⟩
      rw [List.mem_singleton.mp hb]
      obtain ⟨v, hv, rfl⟩ := List.mem_map.mp ha
      obtain ⟨hv, hstatus⟩ := List.mem_filter.mp hv
      exact fun heq => hnone v hv heq (of_decide_eq_true hstatus)
  have hsound : (activeAddresses s'.validators).Nodup → Sound s'.validators := fun hnodup =>
    ⟨hstakes, hpos, hnodup⟩
  refine ⟨⟨fun hQ _ => ?_, fun hP => ?_⟩, fun hQ => hsound ((count_eq_iff hpos).mp hQ.count)⟩
  · exact hdistinct.mp ((count_eq_iff hpos).mp hQ.count)
  · exact (hsound (hdistinct.mpr (hP hlarge))).bounded trivial

omit [DecidableEq Digest] in
/-- **A slash** keeps the bounds exactly if the entry can pay. -/
theorem bounded_slash {x : Int} (h : Sound s.validators)
    (hx : slashFirst env address slashPercentage s.validators = .ok (x, s'.validators)) :
    (Bounded ⟨env, .slashValidator address slashPercentage, .amount x, s, s'⟩ tr ↔
      Proper (⟨env, .slashValidator address slashPercentage, .amount x, s, s'⟩ :
        Event Env (Call Digest) (Reply Digest) (State Digest)) tr) ∧
    (Bounded (⟨env, .slashValidator address slashPercentage, .amount x, s, s'⟩ :
        Event Env (Call Digest) (Reply Digest) (State Digest)) tr → Sound s'.validators) := by
  rcases slashFirst_ok hx with ⟨hnone, rfl, hsame⟩ |
    ⟨before, v, after, stake, hsplit, hsome, rfl, rfl, hstake, hafter⟩
  · -- no entry, no slash
    have hsound : Sound s'.validators := hsame ▸ h
    have hslash : SlashBounded (⟨env, .slashValidator address slashPercentage, .amount 0, s, s'⟩ :
        Event Env (Call Digest) (Reply Digest) (State Digest)) := by
      refine ⟨?_, ?_⟩
      · refine List.sum_nonneg fun x hx => ?_
        obtain ⟨w, hw, rfl⟩ := List.mem_map.mp hx
        exact (h.stakes w (List.mem_filter.mp hw).1).1
      · show getValidatorCount s' ≤ getValidatorCount s
        rw [count_eq_length, count_eq_length, hsame]
    refine ⟨iff_of_true (hsound.bounded hslash) fun v hv => ?_, fun _ => hsound⟩
    rw [hnone] at hv
    cases hv
  · have hv : v ∈ s.validators := List.mem_of_find?_eq_some hsome
    obtain ⟨h0, hmax⟩ := h.stakes v hv
    have hiff := stake_nonneg_iff h0 hmax hstake
    generalize hpaid : ({ v with
      stakedAmount := stake, status := if stake ≤ 0 then 2 else v.status } : Validator) = v' at hafter
    have hv' : v' ∈ s'.validators := by
      rw [hafter]
      exact List.mem_append_right _ List.mem_cons_self
    have hstake' : v'.stakedAmount = stake := by rw [← hpaid]
    have hactive : v'.status = 0 → 0 < stake ∧ v.status = 0 := by
      rw [← hpaid]
      show (if stake ≤ 0 then 2 else v.status) = 0 → _
      split
      · intro hzero
        cases hzero
      · intro hzero
        exact ⟨by omega, hzero⟩
    have hsublist : (activeAddresses s'.validators).Sublist (activeAddresses s.validators) := by
      rw [hafter, hsplit]
      exact active_sublist (by rw [← hpaid]) fun hzero => (hactive hzero).2
    have hothers : ∀ w ∈ s'.validators, w = v' ∨ w ∈ s.validators := by
      intro w hw
      rw [hafter] at hw
      rw [hsplit]
      rcases List.mem_append.mp hw with hw | hw
      · exact .inr (List.mem_append_left _ hw)
      · rcases List.mem_cons.mp hw with rfl | hw
        · exact .inl rfl
        · exact .inr (List.mem_append_right _ (List.mem_cons_of_mem _ hw))
    have hsound : 0 ≤ stake → Sound s'.validators := by
      intro hnonneg
      refine ⟨fun w hw => ?_, fun w hw hzero => ?_, h.distinct.sublist hsublist⟩
      · rcases hothers w hw with rfl | hw
        · rw [hstake']
          exact ⟨hnonneg, (inI128_iff.mp (i128_inI128 hstake)).2⟩
        · exact h.stakes w hw
      · rcases hothers w hw with rfl | hw
        · rw [hstake']
          exact (hactive hzero).1
        · exact h.positive w hw hzero
    have hQ : Bounded (⟨env, .slashValidator v.address slashPercentage,
        .amount (slashShare v.stakedAmount slashPercentage), s, s'⟩ :
        Event Env (Call Digest) (Reply Digest) (State Digest)) tr ↔ 0 ≤ stake := by
      constructor
      · intro hQ
        rw [← hstake']
        exact hQ.stakes v' hv'
      · intro hnonneg
        refine (hsound hnonneg).bounded ⟨?_, ?_⟩
        · exact (hiff.mp hnonneg).1.trans (le_stakeOf (fun w hw => (h.stakes w hw).1) hv)
        · show getValidatorCount s' ≤ getValidatorCount s
          rw [count_eq_length, count_eq_length]
          exact hsublist.length_le
    rw [hQ, hiff]
    refine ⟨⟨fun hpays w hw => ?_, fun hP => hP v hsome⟩, fun hpays => hsound (hiff.mpr hpays)⟩
    rw [hsome] at hw
    cases hw
    exact hpays

end Step

/-- **Stakes stay bounded** along a run if and only if no validator registers while it is active
and every slash takes at most what the slashed entry holds. -/
theorem bounded_iff {tr : Trace Digest} {s : State Digest} (h : Run (machine sha256 d) tr s)
    (hstakes : ∀ e ∈ tr, StakeInRange e) : Throughout Bounded tr ↔ Throughout Proper tr := by
  refine h.throughout_iff_of (I := fun _ s => Sound s.validators) hstakes ?_ ?_
  · rintro s rfl
    refine ⟨fun v hv => ?_, fun v hv => ?_, List.nodup_nil⟩ <;> cases hv
  · intro tr env call r s s' _ _ _ hsound hx hrange
    rcases exec_validators tr hx with ⟨address, stakedAmount, rfl, hlarge, hafter⟩ |
      ⟨address, slashPercentage, x, rfl, rfl, hslash⟩ | ⟨hsame, hslash, hproper⟩
    · exact bounded_register hsound hlarge hrange hafter
    · exact bounded_slash hsound hslash
    · have hsound' : Sound s'.validators := hsame ▸ hsound
      exact ⟨iff_of_true (hsound'.bounded hslash) hproper, fun _ => hsound'⟩

/-! ## Runs -/

/-- Administrator 9, and validators who register with a billion each. -/
def registered (validators : List Address) : List (Env × Call Nat) :=
  (⟨⟨0, true⟩, 0, 1, []⟩, .init 9) ::
    validators.map fun v => (⟨⟨0, true⟩, 5, 2, [v]⟩, .registerValidator v 1000000000)

/-- One of two validators loses all its stake. -/
theorem bounded_full_slash :
    ∃ (tr : Trace Nat) (s : State Nat), Run (machine sampleHash ⟨0, true⟩) tr s ∧
      activeStakers s.validators = [6] ∧ Throughout Bounded tr := by
  obtain ⟨tr, s, hrun, hok⟩ := Machine.exists_run_of_replay
    (m := machine sampleHash ⟨0, true⟩) (s := {}) rfl
    (registered [5, 6] ++ [(⟨⟨0, true⟩, 10, 3, [9]⟩, .slashValidator 5 100)])
    (fun tr s => activeStakers s.validators = [6] ∧ (∀ e ∈ tr, StakeInRange e) ∧
      Throughout Proper tr)
    (by decide) (by decide) (by decide)
  obtain ⟨hactive, hstakes, hproper⟩ := of_decide_eq_true hok
  exact ⟨tr, s, hrun, hactive, (bounded_iff hrun hstakes).mpr hproper⟩

/-- Validator 6 registers twice and counts twice; validator 5, slashed by 150 percent, pays half
as much again as it has and is left with a negative stake. -/
theorem stake_below_zero :
    ∃ (tr : Trace Nat) (s : State Nat), Run (machine sampleHash ⟨0, true⟩) tr s ∧
      (∀ e ∈ tr, StakeInRange e) ∧ stakeOf 5 s.validators = -500000000 ∧
      getValidatorCount s = 2 ∧ activeStakers s.validators = [6] := by
  obtain ⟨tr, s, hrun, hok⟩ := Machine.exists_run_of_replay
    (m := machine sampleHash ⟨0, true⟩) (s := {}) rfl
    (registered [5, 6, 6] ++ [(⟨⟨0, true⟩, 10, 3, [9]⟩, .slashValidator 5 150)])
    (fun tr s => (∀ e ∈ tr, StakeInRange e) ∧ stakeOf 5 s.validators = -500000000 ∧
      getValidatorCount s = 2 ∧ activeStakers s.validators = [6])
    (by decide) (by decide) (by decide)
  exact ⟨tr, s, hrun, of_decide_eq_true hok⟩

end Stellara.Router
