import Stellara.Rewards.Model

/-!
# The redemption history

A record is stored under the badge's count of redemptions, and minting a new badge starts
the count again, so the records of a second badge are written over those of the first.
`AuditTrail` says what should hold after every call: a user has as many records as
redemptions, no record is lost, every transaction is redeemed once, and no badge more often
than its type allowed when it was minted.

`audit_trail_iff`: it holds along a run exactly if nobody redeems a badge minted after they
had redeemed an earlier one (`FirstBadge`).
-/

namespace Stellara.Rewards

open Outcome

/-! ## Redemptions so far -/

/-- How often the user has redeemed a badge. -/
def redemptions (user : Address) : Trace → Nat
  | [] => 0
  | e :: tr =>
    match e.call with
    | .redeemBadge u _ => (if u = user then 1 else 0) + redemptions user tr
    | _ => redemptions user tr

/-- How often since the user's present badge was minted. -/
def sinceMint (user : Address) : Trace → Nat
  | [] => 0
  | e :: tr =>
    match e.call with
    | .redeemBadge u _ => (if u = user then 1 else 0) + sinceMint user tr
    | .mintBadge _ recipient _ => if recipient = user then 0 else sinceMint user tr
    | _ => sinceMint user tr

/-- The redemption limit of its type when the user's present badge was minted (0: none). -/
def mintLimit (user : Address) : Trace → Nat
  | [] => 0
  | e :: tr =>
    match e.call with
    | .mintBadge _ recipient badgeType =>
      if recipient = user then
        ((e.before.badgeMetadata.lookup badgeType).map BadgeMetadata.maxRedemptions).getD 0
      else mintLimit user tr
    | _ => mintLimit user tr

/-- The transactions redeemed so far. -/
def redeemed : Trace → List String
  | [] => []
  | e :: tr =>
    match e.call with
    | .redeemBadge _ transactionHash => transactionHash :: redeemed tr
    | _ => redeemed tr

theorem sinceMint_le (user : Address) (tr : Trace) : sinceMint user tr ≤ redemptions user tr := by
  induction tr with
  | nil => exact le_refl 0
  | cons e tr ih =>
    obtain ⟨env, call, r, s, s'⟩ := e
    cases call with
    | redeemBadge u transactionHash => exact Nat.add_le_add_left ih _
    | mintBadge admin recipient badgeType =>
      show (if recipient = user then 0 else sinceMint user tr) ≤ redemptions user tr
      split
      · exact Nat.zero_le _
      · exact ih
    | _ => exact ih

/-! ## The audit trail -/

/-- The number of records stored for the user. -/
def recordCount (s : State) (user : Address) : Nat :=
  Store.count (fun key _ => decide (key.1 = user)) s.redemptionHistory

/-- **The audit trail** after the call `e`, which was made after `tr`. -/
structure AuditTrail (e : Event Env Call Reply State) (tr : Trace) : Prop where
  count : ∀ user, recordCount e.after user = redemptions user (e :: tr)
  kept : ∀ user index record, getRedemptionHistory e.before user index = some record →
    getRedemptionHistory e.after user index = some record
  once : (redeemed (e :: tr)).Nodup
  limit : ∀ user, mintLimit user (e :: tr) ≠ 0 →
    sinceMint user (e :: tr) ≤ mintLimit user (e :: tr)

/-- Whoever redeems a badge has redeemed no earlier one. -/
def FirstBadge (e : Event Env Call Reply State) (tr : Trace) : Prop :=
  ∀ user transactionHash, e.call = .redeemBadge user transactionHash →
    redemptions user tr = sinceMint user tr

instance (e : Event Env Call Reply State) (tr : Trace) : Decidable (FirstBadge e tr) :=
  match h : e.call with
  | .redeemBadge user _ =>
    decidable_of_iff (redemptions user tr = sinceMint user tr)
      ⟨fun heq u _ hc => by cases h.symm.trans hc; exact heq, fun hf => hf user _ h⟩
  | .initContract .. | .createBadgeType .. | .mintBadge .. | .revokeBadge .. | .setCbPauseLevel ..
  | .pauseCbFunction .. | .unpauseCbFunction .. => isTrue fun _ _ hc => nomatch h.symm.trans hc

/-! ## The books -/

/-- The stored badges and histories agree with the calls made. -/
structure Books (tr : Trace) (s : State) : Prop where
  badge : ∀ user badge, s.badges.lookup user = some badge →
    badge.redeemedCount = sinceMint user tr ∧ badge.maxRedemptions = mintLimit user tr
  limit : ∀ user, mintLimit user tr ≠ 0 → sinceMint user tr ≤ mintLimit user tr
  used : ∀ transactionHash ∈ redeemed tr, s.usedTransactionHash.lookup transactionHash ≠ none
  once : (redeemed tr).Nodup
  history : ∀ user index, (getRedemptionHistory s user index).isSome ↔ index < redemptions user tr
  count : ∀ user, recordCount s user = redemptions user tr

theorem books_start : Books [] {} where
  badge _ _ h := absurd h Store.lookup_empty_ne
  limit user h := absurd rfl h
  used h hmem := by cases hmem
  once := List.nodup_nil
  history user index := by
    have hnone : getRedemptionHistory {} user index = none := AList.lookup_empty (user, index)
    rw [hnone]
    exact ⟨fun h => absurd h Bool.false_ne_true, fun h => absurd h (Nat.not_lt_zero _)⟩
  count user := rfl

section Step

variable {env : Env} {call : Call} {r : Reply} {s s' : State} {tr : Trace}

/-- The call neither mints nor redeems: badges keep their counts, and the rest is as it was. -/
structure Quiet (call : Call) (s s' : State) : Prop where
  mint : ∀ admin recipient badgeType, call ≠ .mintBadge admin recipient badgeType
  redeem : ∀ user transactionHash, call ≠ .redeemBadge user transactionHash
  badge : ∀ user badge, s'.badges.lookup user = some badge → ∃ old, s.badges.lookup user = some old ∧
    badge.redeemedCount = old.redeemedCount ∧ badge.maxRedemptions = old.maxRedemptions
  history : s'.redemptionHistory = s.redemptionHistory
  used : s'.usedTransactionHash = s.usedTransactionHash

theorem quiet_of_same (hmint : ∀ admin recipient badgeType, call ≠ .mintBadge admin recipient badgeType)
    (hredeem : ∀ user transactionHash, call ≠ .redeemBadge user transactionHash)
    (hbadges : s'.badges = s.badges) (hhistory : s'.redemptionHistory = s.redemptionHistory)
    (hused : s'.usedTransactionHash = s.usedTransactionHash) : Quiet call s s' where
  mint := hmint
  redeem := hredeem
  badge user badge h := ⟨badge, by rw [← hbadges]; exact h, rfl, rfl⟩
  history := hhistory
  used := hused

/-- The three kinds of calls. -/
theorem exec_cases (hx : exec env call s = .ok (r, s')) :
    Quiet call s s' ∨
    (∃ admin user badgeType, call = .mintBadge admin user badgeType ∧
      mintBadge env s admin user badgeType = .ok s') ∨
    (∃ user transactionHash bps, call = .redeemBadge user transactionHash ∧
      redeemBadge env s user transactionHash = .ok (bps, s')) := by
  cases call with
  | initContract admin cbConfig =>
    obtain ⟨-, rfl⟩ := initContract_ok (done_ok.mp hx).1
    exact .inl (quiet_of_same nofun nofun rfl rfl rfl)
  | createBadgeType admin badgeType name discountBps maxRedemptions validityDuration =>
    obtain ⟨_, _, rfl⟩ := createBadgeType_ok (done_ok.mp hx).1
    exact .inl (quiet_of_same nofun nofun rfl rfl rfl)
  | mintBadge admin user badgeType =>
    exact .inr (.inl ⟨admin, user, badgeType, rfl, (done_ok.mp hx).1⟩)
  | revokeBadge admin user =>
    obtain ⟨old, hold, rfl⟩ := revokeBadge_ok (done_ok.mp hx).1
    refine .inl ⟨nofun, nofun, ?_, rfl, rfl⟩
    intro u badge hbadge
    have hbadge : (s.badges.insert user _).lookup u = some badge := hbadge
    rw [Store.lookup_insert_eq] at hbadge
    split at hbadge
    · next heq =>
      cases hbadge
      exact ⟨old, heq ▸ hold, rfl, rfl⟩
    · exact ⟨badge, hbadge, rfl, rfl⟩
  | setCbPauseLevel admin level =>
    obtain ⟨-, rfl⟩ := breakerCall_ok (done_ok.mp hx).1
    exact .inl (quiet_of_same nofun nofun rfl rfl rfl)
  | pauseCbFunction admin funcName =>
    obtain ⟨-, rfl⟩ := breakerCall_ok (done_ok.mp hx).1
    exact .inl (quiet_of_same nofun nofun rfl rfl rfl)
  | unpauseCbFunction admin funcName =>
    obtain ⟨-, rfl⟩ := breakerCall_ok (done_ok.mp hx).1
    exact .inl (quiet_of_same nofun nofun rfl rfl rfl)
  | redeemBadge user transactionHash =>
    obtain ⟨bps, hcall, -⟩ := discount_ok.mp hx
    exact .inr (.inr ⟨user, transactionHash, bps, rfl, hcall⟩)

/-- A quiet call adds nothing to the accounts of the history. -/
theorem Quiet.accounts (h : Quiet call s s') (env : Env) (r : Reply) (tr : Trace) (user : Address) :
    redemptions user (⟨env, call, r, s, s'⟩ :: tr) = redemptions user tr ∧
      sinceMint user (⟨env, call, r, s, s'⟩ :: tr) = sinceMint user tr ∧
      mintLimit user (⟨env, call, r, s, s'⟩ :: tr) = mintLimit user tr ∧
      redeemed (⟨env, call, r, s, s'⟩ :: tr) = redeemed tr := by
  cases call with
  | mintBadge admin recipient badgeType => exact absurd rfl (h.mint _ _ _)
  | redeemBadge user transactionHash => exact absurd rfl (h.redeem _ _)
  | _ => exact ⟨rfl, rfl, rfl, rfl⟩

theorem Books.quiet (h : Books tr s) (hq : Quiet call s s') :
    Books (⟨env, call, r, s, s'⟩ :: tr) s' := by
  refine ⟨?_, ?_, ?_, ?_, ?_, ?_⟩
  · intro user badge hbadge
    obtain ⟨old, hold, hcount, hmax⟩ := hq.badge user badge hbadge
    obtain ⟨-, hsince, hlimit, -⟩ := hq.accounts env r tr user
    rw [hsince, hlimit, hcount, hmax]
    exact h.badge user old hold
  · intro user
    obtain ⟨-, hsince, hlimit, -⟩ := hq.accounts env r tr user
    rw [hsince, hlimit]
    exact h.limit user
  · obtain ⟨-, -, -, hredeemed⟩ := hq.accounts env r tr 0
    rw [hredeemed, hq.used]
    exact h.used
  · obtain ⟨-, -, -, hredeemed⟩ := hq.accounts env r tr 0
    rw [hredeemed]
    exact h.once
  · intro user index
    obtain ⟨hcount, -⟩ := hq.accounts env r tr user
    unfold getRedemptionHistory
    rw [hcount, hq.history]
    exact h.history user index
  · intro user
    obtain ⟨hcount, -⟩ := hq.accounts env r tr user
    unfold recordCount
    rw [hcount, hq.history]
    exact h.count user

theorem Books.mint {admin user : Address} {badgeType : Nat} (h : Books tr s)
    (hx : mintBadge env s admin user badgeType = .ok s') :
    Books (⟨env, .mintBadge admin user badgeType, r, s, s'⟩ :: tr) s' := by
  obtain ⟨metadata, badge, _, hmetadata, hcount, hmax, rfl⟩ := mintBadge_ok hx
  refine ⟨?_, ?_, h.used, h.once, h.history, h.count⟩
  · intro u b hb
    have hb : (s.badges.insert user badge).lookup u = some b := hb
    unfold sinceMint mintLimit
    dsimp only
    rw [Store.lookup_insert_eq] at hb
    split at hb
    · next heq =>
      cases hb
      rw [if_pos heq.symm, if_pos heq.symm, hmetadata]
      exact ⟨hcount, hmax⟩
    · next hne =>
      rw [if_neg (fun heq => hne heq.symm), if_neg (fun heq => hne heq.symm)]
      exact h.badge u b hb
  · intro u
    unfold sinceMint mintLimit
    dsimp only
    by_cases hu : user = u
    · rw [if_pos hu, if_pos hu]
      exact fun _ => Nat.zero_le _
    · rw [if_neg hu, if_neg hu]
      exact h.limit u

/-! ## One redemption -/

section Redeem

variable {user : Address} {transactionHash : String} {bps : Nat}

section Append

variable {history : Store (Address × Nat) RedemptionRecord} {counts : Address → Nat}
  {record : RedemptionRecord}

/-- A record stored at a user's next index. -/
theorem isSome_append
    (h : ∀ u index, (history.lookup (u, index)).isSome ↔ index < counts u) (u : Address)
    (index : Nat) : ((history.insert (user, counts user) record).lookup (u, index)).isSome ↔
      index < (if user = u then 1 else 0) + counts u := by
  rw [Store.lookup_insert_eq]
  by_cases hu : user = u
  · subst hu
    rw [if_pos rfl]
    by_cases hi : index = counts user
    · subst hi
      rw [if_pos rfl]
      exact ⟨fun _ => by omega, fun _ => rfl⟩
    · rw [if_neg (fun heq => hi (Prod.mk.inj heq).2), h user index]
      omega
  · rw [if_neg hu, if_neg (fun heq => hu (Prod.mk.inj heq).1.symm), Nat.zero_add]
    exact h u index

/-- A record stored where there was none is one more of its user. -/
theorem count_append {index : Nat} (hfree : history.lookup (user, index) = none) (u : Address) :
    Store.count (fun key _ => decide (key.1 = u)) (history.insert (user, index) record) =
      (if user = u then 1 else 0) + Store.count (fun key _ => decide (key.1 = u)) history := by
  rw [Store.count_insert_new _ _ hfree, Nat.add_comm]
  by_cases hu : user = u
  · rw [if_pos hu, if_pos (decide_eq_true hu)]
  · rw [if_neg hu, if_neg (by simpa using hu)]

/-- Where there was a record it stays. -/
theorem lookup_append {key key' : Address × Nat} {old : RedemptionRecord}
    (hfree : history.lookup key = none) (hold : history.lookup key' = some old) :
    (history.insert key record).lookup key' = some old := by
  rw [Store.lookup_insert_eq, if_neg]
  · exact hold
  · rintro rfl
    rw [hfree] at hold
    cases hold

end Append

/-- While only the first badge was redeemed, the next index of the user is the badge's count, and
it is free. -/
theorem Books.next_index {badge : Badge} (h : Books tr s)
    (hbadge : s.badges.lookup user = some badge) (hfirst : redemptions user tr = sinceMint user tr) :
    badge.redeemedCount = redemptions user tr ∧
      s.redemptionHistory.lookup (user, redemptions user tr) = none := by
  refine ⟨(h.badge user badge hbadge).1.trans hfirst.symm, ?_⟩
  cases hr : s.redemptionHistory.lookup (user, redemptions user tr) with
  | none => rfl
  | some old =>
    have hsome : (getRedemptionHistory s user (redemptions user tr)).isSome := by
      unfold getRedemptionHistory
      rw [hr]
      rfl
    exact absurd ((h.history user _).mp hsome) (lt_irrefl _)

/-- The first redemptions of a user are stored one after another. -/
theorem Books.redeem (h : Books tr s) (hx : redeemBadge env s user transactionHash = .ok (bps, s'))
    (hfirst : redemptions user tr = sinceMint user tr) :
    Books (⟨env, .redeemBadge user transactionHash, r, s, s'⟩ :: tr) s' ∧
      ∀ u index record, getRedemptionHistory s u index = some record →
        getRedemptionHistory s' u index = some record := by
  obtain ⟨badge, record, cb, hunused, hbadge, hlimit, rfl⟩ := redeemBadge_ok hx
  obtain ⟨hcount, hmax⟩ := h.badge user badge hbadge
  obtain ⟨hindex, hfree⟩ := h.next_index hbadge hfirst
  rw [hindex]
  refine ⟨⟨?_, ?_, ?_, ?_, ?_, ?_⟩, fun _ _ _ => lookup_append hfree⟩
  · intro u b hb
    have hb : (s.badges.insert user _).lookup u = some b := hb
    unfold sinceMint mintLimit
    dsimp only
    rw [Store.lookup_insert_eq] at hb
    split at hb
    · next heq =>
      cases hb
      subst heq
      rw [if_pos rfl]
      show redemptions u tr + 1 = _ ∧ badge.maxRedemptions = _
      exact ⟨by omega, hmax⟩
    · next hne =>
      rw [if_neg (fun heq => hne heq.symm), Nat.zero_add]
      exact h.badge u b hb
  · intro u
    unfold sinceMint mintLimit
    dsimp only
    by_cases hu : user = u
    · subst hu
      rw [if_pos rfl]
      intro hne
      rw [hcount, hmax] at hlimit
      omega
    · rw [if_neg hu, Nat.zero_add]
      exact h.limit u
  · intro t ht
    show (s.usedTransactionHash.insert transactionHash true).lookup t ≠ none
    rw [Store.lookup_insert_eq]
    split
    · exact Option.some_ne_none _
    · next hne =>
      rcases List.mem_cons.mp ht with heq | ht
      · exact absurd heq hne
      · exact h.used t ht
  · refine List.nodup_cons.mpr ⟨fun hmem => ?_, h.once⟩
    exact h.used transactionHash hmem hunused
  · exact isSome_append h.history
  · intro u
    show Store.count _ (s.redemptionHistory.insert _ record) = _
    rw [count_append hfree]
    exact congrArg (_ + ·) (h.count u)

/-- A redemption of a later badge is stored over a record of an earlier one. -/
theorem redeem_overwrites (h : Books tr s)
    (hx : redeemBadge env s user transactionHash = .ok (bps, s'))
    (hlater : redemptions user tr ≠ sinceMint user tr) :
    recordCount s' user ≠ redemptions user (⟨env, .redeemBadge user transactionHash, r, s, s'⟩ :: tr) := by
  obtain ⟨badge, record, cb, -, hbadge, -, rfl⟩ := redeemBadge_ok hx
  obtain ⟨hcount, -⟩ := h.badge user badge hbadge
  have hle := sinceMint_le user tr
  have hsome := (h.history user badge.redeemedCount).mpr (by omega)
  unfold getRedemptionHistory at hsome
  obtain ⟨old, hold⟩ := Option.isSome_iff_exists.mp hsome
  have hcounts := Store.count_insert_over (fun (key : Address × Nat) _ => decide (key.1 = user))
    record hold
  rw [if_pos (decide_eq_true rfl)] at hcounts
  have hbefore : recordCount s user = redemptions user tr := h.count user
  unfold recordCount at hbefore
  show Store.count _ (s.redemptionHistory.insert _ record) ≠
    (if user = user then 1 else 0) + redemptions user tr
  rw [if_pos rfl]
  omega

end Redeem

/-- **One call**: what was right stays right exactly when the call redeems a first badge. -/
theorem audit_step (h : Books tr s) (hx : exec env call s = .ok (r, s')) :
    (AuditTrail ⟨env, call, r, s, s'⟩ tr ↔ FirstBadge ⟨env, call, r, s, s'⟩ tr) ∧
      (AuditTrail ⟨env, call, r, s, s'⟩ tr → Books (⟨env, call, r, s, s'⟩ :: tr) s') := by
  rcases exec_cases hx with hq | ⟨admin, user, badgeType, rfl, hcall⟩ |
    ⟨user, transactionHash, bps, rfl, hcall⟩
  · have hbooks : Books (⟨env, call, r, s, s'⟩ :: tr) s' := h.quiet hq
    refine ⟨⟨fun _ u t hc => absurd hc (hq.redeem u t), fun _ => ?_⟩, fun _ => hbooks⟩
    refine ⟨hbooks.count, ?_, hbooks.once, hbooks.limit⟩
    intro u index record hold
    show s'.redemptionHistory.lookup (u, index) = some record
    rw [hq.history]
    exact hold
  · have hbooks : Books (⟨env, .mintBadge admin user badgeType, r, s, s'⟩ :: tr) s' := h.mint hcall
    obtain ⟨_, _, _, -, -, -, rfl⟩ := mintBadge_ok hcall
    refine ⟨⟨fun _ => nofun, fun _ => ?_⟩, fun _ => hbooks⟩
    exact ⟨hbooks.count, fun _ _ _ hold => hold, hbooks.once, hbooks.limit⟩
  · by_cases hfirst : redemptions user tr = sinceMint user tr
    · obtain ⟨hbooks, hkept⟩ := h.redeem (r := r) hcall hfirst
      refine ⟨⟨fun _ u t hc => ?_, fun _ => ?_⟩, fun _ => hbooks⟩
      · cases hc
        exact hfirst
      · exact ⟨hbooks.count, hkept, hbooks.once, hbooks.limit⟩
    · have hlost := redeem_overwrites (r := r) h hcall hfirst
      refine ⟨⟨fun haudit => absurd (haudit.count user) hlost, fun hp => ?_⟩,
        fun haudit => absurd (haudit.count user) hlost⟩
      exact absurd (hp user transactionHash rfl) hfirst

end Step

/-! ## Every run -/

/-- **The audit trail** is complete along a run if and only if nobody redeems a badge that was
minted after they had redeemed an earlier one. -/
theorem audit_trail_iff {d : Deployment} {tr : Trace} {s : State} (h : Run (machine d) tr s) :
    Throughout AuditTrail tr ↔ Throughout FirstBadge tr := by
  refine h.throughout_iff (I := Books) ?_ ?_
  · rintro s rfl
    exact books_start
  · intro tr env call r s s' _ _ _ hI hx
    exact audit_step hI hx

/-- Contract 0; calls are signed by `signers`. -/
def callAt (t : Nat) (signers : List Address) : Env := ⟨⟨0, true⟩, t, 0, signers⟩

/-- Administrator 9 gives user 1 a bronze badge that can be redeemed three times. -/
def badgeMinted : List (Env × Call) :=
  [(callAt 0 [9], .initContract 9 ⟨1000, 1000, 3600⟩),
    (callAt 1 [9], .createBadgeType 9 1 "Bronze" 500 3 0), (callAt 2 [9], .mintBadge 9 1 1)]

/-- The badge is redeemed for one transaction, revoked, minted again and redeemed for another
one. -/
def redeemedTwice : List (Env × Call) :=
  badgeMinted ++ [(callAt 3 [1], .redeemBadge 1 "tx-1"), (callAt 4 [9], .revokeBadge 9 1),
    (callAt 5 [9], .mintBadge 9 1 1), (callAt 6 [1], .redeemBadge 1 "tx-2")]

/-- Of the two redemptions only the second is on record. -/
theorem record_overwritten :
    ∃ (tr : Trace) (s : State), Run (machine ⟨0, true⟩) tr s ∧ redemptions 1 tr = 2 ∧
      recordCount s 1 = 1 ∧ ¬ Throughout AuditTrail tr := by
  obtain ⟨tr, s, hrun, hok⟩ := Machine.exists_run_of_replay (m := machine ⟨0, true⟩) rfl
    redeemedTwice
    (fun tr s => redemptions 1 tr = 2 ∧ recordCount s 1 = 1 ∧
      tr.head?.map (fun e => recordCount e.after 1) = some 1)
    (by decide) (by decide) (by decide)
  obtain ⟨hcount, hrecords, hlast⟩ := of_decide_eq_true hok
  refine ⟨tr, s, hrun, hcount, hrecords, fun hall => ?_⟩
  cases tr with
  | nil => cases hlast
  | cons e tr =>
    have hone : recordCount e.after 1 = 1 := Option.some.inj hlast
    have hall := hall.1.count 1
    omega

/-- Two redemptions of one badge are both on record. -/
theorem audit_trail_two :
    ∃ (tr : Trace) (s : State), Run (machine ⟨0, true⟩) tr s ∧ recordCount s 1 = 2 ∧
      Throughout AuditTrail tr := by
  obtain ⟨tr, s, hrun, hok⟩ := Machine.exists_run_of_replay (m := machine ⟨0, true⟩) rfl
    (badgeMinted ++ [(callAt 3 [1], .redeemBadge 1 "tx-1"), (callAt 4 [1], .redeemBadge 1 "tx-2")])
    (fun tr s => recordCount s 1 = 2 ∧ Throughout FirstBadge tr)
    (by decide) (by decide) (by decide)
  obtain ⟨hrecords, hfirst⟩ := of_decide_eq_true hok
  exact ⟨tr, s, hrun, hrecords, (audit_trail_iff hrun).mpr hfirst⟩

end Stellara.Rewards
