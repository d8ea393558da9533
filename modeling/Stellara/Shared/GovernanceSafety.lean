import Mathlib.Data.Finset.Card
import Stellara.Shared.Governance

/-!
# What an executed proposal has behind it

The manager keeps a counter and a flag per proposal; the history of the contract is the
list of calls that committed.  `Inv` ties the two together:

    approvalsCount = number of addresses recorded for the proposal   (Faithful.count)
    recorded       ↔ approved by exactly one committed call          (Inv.approvals)
    status         ↔ which of reject / cancel / execute happened     (Faithful.ended, .executions)

so an execution, which only looks at the stored status and time, has the approvals, the
timelock and a history without rejection behind it (`execute_safe`).
-/

namespace Stellara.Governance

open Outcome

abbrev Trace : Type := List (Event Env Call Reply State)

/-! ## What the calls so far did to one proposal -/

/-- The proposal an operation is about (a creation and a role change are about none). -/
def Call.about : Call → Option Nat
  | .approve pid _ | .execute pid _ | .reject pid _ | .cancel pid _ => some pid
  | .propose _ | .roles _ => none

def Call.isExecute (pid : Nat) : Call → Bool
  | .execute pid' _ => pid' = pid
  | _ => false

def Call.isEnd (pid : Nat) : Call → Bool
  | .reject pid' _ | .cancel pid' _ => pid' = pid
  | _ => false

/-- How often `a` has approved the proposal. -/
def approvals (tr : Trace) (pid : Nat) (a : Address) : Nat :=
  tr.countP fun e => e.call = .approve pid a

/-- How often the proposal has been executed. -/
def executions (tr : Trace) (pid : Nat) : Nat := tr.countP fun e => e.call.isExecute pid

/-- The proposal has been rejected or cancelled. -/
def Ended (tr : Trace) (pid : Nat) : Prop := ∃ e ∈ tr, e.call.isEnd pid = true

/-- The addresses recorded in `apprv` for the proposal. -/
def approvedBy (s : State) (pid : Nat) : Finset Address :=
  ((s.apprv.keys.filter fun k => k.1 = pid).map Prod.snd).toFinset

theorem mem_approvedBy {s : State} {pid : Nat} {a : Address} :
    a ∈ approvedBy s pid ↔ (pid, a) ∈ s.apprv := by
  simp only [approvedBy, List.mem_toFinset, List.mem_map, List.mem_filter, decide_eq_true_eq]
  constructor
  · rintro ⟨⟨pid', a'⟩, ⟨h, rfl⟩, rfl⟩; exact AList.mem_keys.mpr h
  · intro h; exact ⟨(pid, a), ⟨AList.mem_keys.mp h, rfl⟩, rfl⟩

theorem approvedBy_insert {s s' : State} {pid : Nat} {a : Address}
    (h : s'.apprv = s.apprv.insert (pid, a) true) (pid' : Nat) :
    approvedBy s' pid' = if pid' = pid then insert a (approvedBy s pid') else approvedBy s pid' := by
  ext b
  by_cases hp : pid' = pid
  · subst hp
    simp [mem_approvedBy, h, AList.mem_insert]
  · simp [mem_approvedBy, h, AList.mem_insert, hp]

theorem approvedBy_congr {s s' : State} (h : s'.apprv = s.apprv) (pid : Nat) :
    approvedBy s' pid = approvedBy s pid := by
  unfold approvedBy; rw [h]

section Frame

variable {e : Event Env Call Reply State} {tr : Trace} {pid : Nat}

/-- A call about another proposal changes nothing in the history of this one. -/
theorem executions_frame (h : e.call.about ≠ some pid) :
    executions (e :: tr) pid = executions tr pid := by
  unfold executions
  rw [List.countP_cons_of_neg]
  rcases e with ⟨_, call, _, _, _⟩
  cases call <;> simp_all [Call.about, Call.isExecute]

theorem approvals_frame (h : e.call.about ≠ some pid) (a : Address) :
    approvals (e :: tr) pid a = approvals tr pid a := by
  unfold approvals
  rw [List.countP_cons_of_neg]
  rcases e with ⟨_, call, _, _, _⟩
  cases call <;> simp_all [Call.about]

theorem ended_frame (h : e.call.about ≠ some pid) : Ended (e :: tr) pid ↔ Ended tr pid := by
  unfold Ended
  rw [List.exists_mem_cons_iff, or_iff_right]
  rcases e with ⟨_, call, _, _, _⟩
  cases call <;> simp_all [Call.about, Call.isEnd]

end Frame

/-! ## The invariant -/

/-- The call that created proposal `pid`, as far as the stored proposal depends on it. -/
def Created (tr : Trace) (pid : Nat) (p : UpgradeProposal) : Prop :=
  ∃ e ∈ tr, ∃ args : Proposal, e.call = .propose args ∧ e.ret = .proposal pid ∧
    p.approvers = args.approvers ∧ p.approvalThreshold = args.approvalThreshold ∧
    (e.env.u64 (e.env.timestamp + args.timelockDelay) : Result Nat) = .ok p.executionTime

theorem Created.cons {tr : Trace} {pid : Nat} {p : UpgradeProposal} (h : Created tr pid p)
    (e : Event Env Call Reply State) : Created (e :: tr) pid p := by
  obtain ⟨c, hc, rest⟩ := h
  exact ⟨c, List.mem_cons_of_mem _ hc, rest⟩

/-- What the stored proposal `p` says about the calls made so far. -/
structure Faithful (tr : Trace) (s : State) (pid : Nat) (p : UpgradeProposal) : Prop where
  created : Created tr pid p
  count : p.approvalsCount = (approvedBy s pid).card
  listed : ∀ a ∈ approvedBy s pid, a ∈ p.approvers
  threshold : p.status = .approved ∨ p.status = .executed →
    p.approvalThreshold ≤ p.approvalsCount
  ended : Ended tr pid → p.status = .rejected ∨ p.status = .cancelled
  executed : p.executed = true ↔ p.status = .executed
  executions : executions tr pid = if p.executed then 1 else 0

structure Inv (tr : Trace) (s : State) : Prop where
  fresh : ∀ pid, pid ∈ s.props → pid ≤ s.propCnt
  stored : ∀ pid p, s.props.lookup pid = some p → Faithful tr s pid p
  absent : ∀ pid, s.props.lookup pid = none →
    approvedBy s pid = ∅ ∧ executions tr pid = 0 ∧ ¬ Ended tr pid
  approvals : ∀ pid a, approvals tr pid a = if a ∈ approvedBy s pid then 1 else 0

theorem Faithful.frame {tr : Trace} {s s' : State} {pid : Nat} {p : UpgradeProposal}
    {e : Event Env Call Reply State} (h : Faithful tr s pid p) (he : e.call.about ≠ some pid)
    (ha : approvedBy s' pid = approvedBy s pid) : Faithful (e :: tr) s' pid p where
  created := h.created.cons e
  count := by rw [ha]; exact h.count
  listed := by rw [ha]; exact h.listed
  threshold := h.threshold
  ended := fun hd => h.ended ((ended_frame he).mp hd)
  executed := h.executed
  executions := by rw [executions_frame he]; exact h.executions

/-- The invariant after a call about the stored proposal `pid` that replaces it by `p'`:
only `pid` has to be looked at. -/
theorem Inv.update {tr : Trace} {s s' : State} {pid : Nat} {p p' : UpgradeProposal}
    {e : Event Env Call Reply State} (h : Inv tr s) (hp : s.props.lookup pid = some p)
    (hprops : s'.props = s.props.insert pid p') (hcnt : s'.propCnt = s.propCnt)
    (he : e.call.about = some pid)
    (ha : ∀ pid', pid' ≠ pid → approvedBy s' pid' = approvedBy s pid')
    (happ : ∀ a, Governance.approvals (e :: tr) pid a = if a ∈ approvedBy s' pid then 1 else 0)
    (hnew : Faithful (e :: tr) s' pid p') : Inv (e :: tr) s' := by
  have hother : ∀ pid', pid' ≠ pid → e.call.about ≠ some pid' := by
    intro pid' hne; rw [he]; simpa using hne.symm
  have hin : pid ∈ s.props := AList.lookup_isSome.mp (by rw [hp]; rfl)
  refine ⟨?_, ?_, ?_, ?_⟩
  · intro pid' hm
    rw [hprops, AList.mem_insert] at hm
    rw [hcnt]
    rcases hm with rfl | hm
    · exact h.fresh _ hin
    · exact h.fresh _ hm
  · intro pid' q hq
    rw [hprops, Store.lookup_insert_eq] at hq
    split at hq
    · next heq => subst heq; cases hq; exact hnew
    · next hne => exact (h.stored _ _ hq).frame (hother _ hne) (ha _ hne)
  · intro pid' hq
    rw [hprops, Store.lookup_insert_eq] at hq
    split at hq
    · cases hq
    · next hne =>
      rw [ha _ hne, executions_frame (hother _ hne), ended_frame (hother _ hne)]
      exact h.absent _ hq
  · intro pid' a
    by_cases hne : pid' = pid
    · subst hne; exact happ a
    · rw [ha _ hne, approvals_frame (hother _ hne)]; exact h.approvals _ _

/-! ## Each call keeps it -/

section Step

variable {tr : Trace} {s s' : State} {env : Env} {r : Reply}

theorem Inv.propose {args : Proposal} {t : Nat} (h : Inv tr s)
    (ht : (env.u64 (env.timestamp + args.timelockDelay) : Result Nat) = .ok t)
    (hs : s' = { s with
      props := s.props.insert (s.propCnt + 1)
        ⟨s.propCnt + 1, args.proposer, args.newContractHash, args.targetContract,
          args.description, args.approvalThreshold, args.approvers, 0, .pending, env.timestamp, t,
          false⟩
      propCnt := s.propCnt + 1 }) :
    Inv (⟨env, .propose args, .proposal (s.propCnt + 1), s, s'⟩ :: tr) s' := by
  have hby : ∀ pid, approvedBy s' pid = approvedBy s pid := approvedBy_congr (by rw [hs])
  have hprops := congrArg State.props hs
  have hcnt := congrArg State.propCnt hs
  dsimp only at hprops hcnt
  have hnone : s.props.lookup (s.propCnt + 1) = none := by
    rw [AList.lookup_eq_none]
    intro hm
    have := h.fresh _ hm
    omega
  obtain ⟨hempty, hexec, hend⟩ := h.absent _ hnone
  refine ⟨?_, ?_, ?_, ?_⟩
  · intro pid hm
    rw [hprops, AList.mem_insert] at hm
    rw [hcnt]
    rcases hm with rfl | hm
    · exact le_refl _
    · exact Nat.le_succ_of_le (h.fresh _ hm)
  · intro pid q hq
    rw [hprops, Store.lookup_insert_eq] at hq
    split at hq
    · next heq =>
      subst heq
      cases hq
      refine ⟨⟨_, List.mem_cons_self, args, rfl, rfl, rfl, rfl, ht⟩, ?_, ?_, ?_, ?_, ?_, ?_⟩
      · rw [hby, hempty]; rfl
      · rw [hby, hempty]; intro a ha; cases ha
      · rintro (h | h) <;> cases h
      · intro hd; exact absurd ((ended_frame (by simp [Call.about])).mp hd) hend
      · constructor <;> intro h <;> cases h
      · rw [executions_frame (by simp [Call.about]), hexec]; rfl
    · exact (h.stored _ _ hq).frame (by simp [Call.about]) (hby _)
  · intro pid hq
    rw [hprops, Store.lookup_insert_eq] at hq
    split at hq
    · cases hq
    · rw [hby, executions_frame (by simp [Call.about]),
        ended_frame (by simp [Call.about])]
      exact h.absent _ hq
  · intro pid a
    rw [hby, approvals_frame (by simp [Call.about])]
    exact h.approvals _ _

theorem Inv.approve {pid : Nat} {a : Address} {p : UpgradeProposal} (h : Inv tr s)
    (hp : s.props.lookup pid = some p) (hst : p.status = .pending) (ha : a ∈ p.approvers)
    (hd : s.apprv.lookup (pid, a) = none)
    (hs : s' = { s with apprv := s.apprv.insert (pid, a) true
                        props := s.props.insert pid p.addApproval }) :
    Inv (⟨env, .approve pid a, r, s, s'⟩ :: tr) s' := by
  have hf := h.stored _ _ hp
  have hby : ∀ pid', approvedBy s' pid' =
      if pid' = pid then insert a (approvedBy s pid') else approvedBy s pid' :=
    approvedBy_insert (by rw [hs])
  have hnew : a ∉ approvedBy s pid := by
    rw [mem_approvedBy, ← AList.lookup_eq_none]; exact hd
  have hself : approvedBy s' pid = insert a (approvedBy s pid) := by rw [hby, if_pos rfl]
  have hcard : (approvedBy s' pid).card = p.approvalsCount + 1 := by
    rw [hself, Finset.card_insert_of_notMem hnew, hf.count]
  refine h.update hp (by rw [hs]) (by rw [hs]) rfl ?_ ?_ ?_
  · intro pid' hne; rw [hby, if_neg hne]
  · intro b
    have hb := h.approvals pid b
    unfold Governance.approvals at hb ⊢
    rw [List.countP_cons, hb, hself]
    by_cases hab : b = a
    · subst hab; simp [hnew]
    · simp [hab, Ne.symm hab]
  · refine ⟨hf.created.cons _, ?_, ?_, ?_, ?_, ?_, ?_⟩
    · rw [hcard]; rfl
    · rw [hself]
      intro b hb
      rcases Finset.mem_insert.mp hb with rfl | hb
      · exact ha
      · exact hf.listed b hb
    · intro hst'
      show p.approvalThreshold ≤ p.approvalsCount + 1
      by_contra hlt
      simp [UpgradeProposal.addApproval, hlt, hst] at hst'
    · rintro ⟨e, he, hend⟩
      rcases List.mem_cons.mp he with rfl | he
      · cases hend
      · have := hf.ended ⟨e, he, hend⟩
        simp [hst] at this
    · have hne : p.executed = false := by
        have := hf.executed
        rw [hst] at this
        simpa using this
      simp only [UpgradeProposal.addApproval, hne]
      split <;> simp [hst]
    · have := hf.executions
      unfold Governance.executions at this ⊢
      rw [List.countP_cons_of_neg (by simp [Call.isExecute]), this]
      rfl

/-- Executing, rejecting and cancelling all replace the stored proposal by one with
another final status and leave the approvals alone. -/
theorem Inv.finish {pid : Nat} {p p' : UpgradeProposal} {call : Call} (h : Inv tr s)
    (hp : s.props.lookup pid = some p) (hs : s' = { s with props := s.props.insert pid p' })
    (hcall : call.about = some pid) (hnapp : ∀ a, call ≠ .approve pid a)
    (happr : p'.approvers = p.approvers) (hth : p'.approvalThreshold = p.approvalThreshold)
    (hcount : p'.approvalsCount = p.approvalsCount) (htime : p'.executionTime = p.executionTime)
    (hthr : p'.status = .approved ∨ p'.status = .executed → p.status = .approved)
    (hend : call.isEnd pid = true ∨ p.status = .rejected ∨ p.status = .cancelled →
      p'.status = .rejected ∨ p'.status = .cancelled)
    (hex : p'.executed = true ↔ p'.status = .executed)
    (hcnt : (if p'.executed then 1 else 0) =
      (if p.executed then 1 else 0) + if call.isExecute pid then 1 else 0) :
    Inv (⟨env, call, r, s, s'⟩ :: tr) s' := by
  have hf := h.stored _ _ hp
  have hby : ∀ pid', approvedBy s' pid' = approvedBy s pid' := approvedBy_congr (by rw [hs])
  refine h.update hp (by rw [hs]) (by rw [hs]) hcall (fun pid' _ => hby pid') ?_ ?_
  · intro a
    have := h.approvals pid a
    unfold Governance.approvals at this ⊢
    rw [List.countP_cons_of_neg (by simpa using hnapp a), this, hby]
  · refine ⟨?_, ?_, ?_, ?_, ?_, hex, ?_⟩
    · obtain ⟨c, hc, args, h1, h2, h3, h4, h5⟩ := hf.created
      exact ⟨c, List.mem_cons_of_mem _ hc, args, h1, h2, happr.trans h3, hth.trans h4, htime ▸ h5⟩
    · rw [hby, hcount]; exact hf.count
    · rw [hby, happr]; exact hf.listed
    · intro hst; rw [hth, hcount]; exact hf.threshold (.inl (hthr hst))
    · rintro ⟨e, he, hend'⟩
      rcases List.mem_cons.mp he with rfl | he
      · exact hend (.inl hend')
      · exact hend (.inr (hf.ended ⟨e, he, hend'⟩))
    · have := hf.executions
      unfold Governance.executions at this ⊢
      rw [List.countP_cons, this, hcnt]

theorem Inv.roles {c : Acl.Call} {acl : Acl.State} (h : Inv tr s) (hs : s' = { s with acl := acl }) :
    Inv (⟨env, .roles c, r, s, s'⟩ :: tr) s' := by
  have hby : ∀ pid, approvedBy s' pid = approvedBy s pid := approvedBy_congr (by rw [hs])
  have hprops := congrArg State.props hs
  have hcnt := congrArg State.propCnt hs
  dsimp only at hprops hcnt
  refine ⟨by rw [hprops, hcnt]; exact h.fresh, ?_, ?_, ?_⟩
  · intro pid p hp; rw [hprops] at hp; exact (h.stored pid p hp).frame (by simp [Call.about]) (hby _)
  · intro pid hp
    rw [hprops] at hp
    rw [hby, executions_frame (by simp [Call.about]),
      ended_frame (by simp [Call.about])]
    exact h.absent _ hp
  · intro pid a
    rw [hby, approvals_frame (by simp [Call.about])]
    exact h.approvals _ _

end Step

theorem inv_step {d : Deployment} {tr : Trace} {env : Env} {call : Call} {r : Reply} {s s' : State}
    (h : Inv tr s) (hx : (machine d).exec env call s = .ok (r, s')) :
    Inv (⟨env, call, r, s, s'⟩ :: tr) s' := by
  rcases exec_cases hx with ⟨args, t, rfl, rfl, -, -, ht, hs⟩ |
      ⟨pid, a, p, rfl, hp, hst, ha, hd, hs⟩ | ⟨pid, x, p, rfl, hp, hst, -, hs⟩ |
      ⟨pid, x, p, st, hcase, hp, hs⟩ | ⟨c, acl, rfl, hs⟩
  · exact h.propose ht hs
  · exact h.approve hp hst ha hd hs
  · have hne : p.executed = false := by
      have := (h.stored _ _ hp).executed
      rw [hst] at this
      simpa using this
    refine h.finish hp hs rfl (by simp) rfl rfl rfl rfl (fun _ => hst) ?_ (by simp) ?_
    · rintro (h | h | h)
      · cases h
      · rw [hst] at h; cases h
      · rw [hst] at h; cases h
    · simp [hne, Call.isExecute]
  · have hne : p.executed = false := by
      rcases hcase with ⟨-, hst, -⟩ | ⟨-, hne, -⟩
      · have := (h.stored _ _ hp).executed
        rw [hst] at this
        simpa using this
      · exact hne
    have hst : st = .rejected ∨ st = .cancelled := by
      rcases hcase with ⟨-, -, h⟩ | ⟨-, -, h⟩
      · exact .inl h
      · exact .inr h
    have hcall : call = .reject pid x ∨ call = .cancel pid x := by
      rcases hcase with ⟨h, -⟩ | ⟨h, -⟩
      · exact .inl h
      · exact .inr h
    refine h.finish hp hs ?_ ?_ rfl rfl rfl rfl ?_ (fun _ => hst) ?_ ?_
    · rcases hcall with rfl | rfl <;> rfl
    · rcases hcall with rfl | rfl <;> simp
    · rcases hst with rfl | rfl <;> simp
    · rcases hst with rfl | rfl <;> simp [hne]
    · rcases hcall with rfl | rfl <;> simp [hne, Call.isExecute]
  · exact h.roles hs

/-- **The records and the history agree** in every reachable state. -/
theorem inv_run {d : Deployment} {tr : Trace} {s : State} (h : Run (machine d) tr s) : Inv tr s := by
  refine h.invariant_trace ?_ ?_
  · rintro s ⟨hcnt, hprops, happrv⟩
    refine ⟨?_, ?_, ?_, ?_⟩
    · intro pid hm; rw [hprops] at hm; exact absurd hm (AList.notMem_empty _)
    · intro pid p hp; rw [hprops] at hp; cases hp
    · intro pid _
      refine ⟨?_, rfl, ?_⟩
      · unfold approvedBy; rw [happrv]; rfl
      · rintro ⟨e, he, -⟩; cases he
    · intro pid a
      rw [if_neg]
      · rfl
      · rw [mem_approvedBy, happrv]; exact AList.notMem_empty _
  · intro tr env call r s s' _ _ hi hx
    exact inv_step hi hx

/-! ## Safety -/

/-- **Governance safety.**  In every reachable state a proposal's counter is the number
of addresses recorded for it and it has been executed at most once.  An execution that
succeeds there is of a proposal that some call created, not before its timelock, with
at least the threshold of listed addresses having approved it, each once, and that
nobody has rejected or cancelled. -/
theorem execute_safe {d : Deployment} {tr : Trace} {s : State} (h : Run (machine d) tr s)
    (pid : Nat) :
    (∀ p, s.props.lookup pid = some p → p.approvalsCount = (approvedBy s pid).card) ∧
    executions tr pid ≤ 1 ∧
    ∀ env executor r s', exec env (.execute pid executor) s = .ok (r, s') →
      executions tr pid = 0 ∧ ¬ Ended tr pid ∧
      ∃ c ∈ tr, ∃ args, c.call = .propose args ∧ c.ret = .proposal pid ∧
        (c.env.timestamp + args.timelockDelay < 2 ^ 64 →
          c.env.timestamp + args.timelockDelay ≤ env.timestamp) ∧
        ∃ A : Finset Address, args.approvalThreshold ≤ A.card ∧
          ∀ a ∈ A, a ∈ args.approvers ∧ approvals tr pid a = 1 := by
  have hi := inv_run h
  refine ⟨fun p hp => (hi.stored pid p hp).count, ?_, ?_⟩
  · cases hp : s.props.lookup pid with
    | none => rw [(hi.absent pid hp).2.1]; omega
    | some p => rw [(hi.stored pid p hp).executions]; split <;> omega
  · intro env executor r s' hx
    obtain ⟨p, hp, hst, ht, -⟩ := execute_ok hx
    have hf := hi.stored _ _ hp
    obtain ⟨c, hc, args, hcall, hret, happr, hth, htime⟩ := hf.created
    refine ⟨?_, ?_, c, hc, args, hcall, hret, ?_, approvedBy s pid, ?_, ?_⟩
    · have hne : p.executed = false := by
        have := hf.executed
        rw [hst] at this
        simpa using this
      rw [hf.executions, hne]; rfl
    · intro hd
      have := hf.ended hd
      simp [hst] at this
    · intro hlt
      have := u64_exact htime (by omega) (by exact_mod_cast hlt)
      omega
    · rw [← hth, ← hf.count]; exact hf.threshold (.inl hst)
    · intro a ha
      refine ⟨happr ▸ hf.listed a ha, ?_⟩
      rw [hi.approvals, if_pos ha]

/-- Two of two approvers, and an execution when the timelock of 100 has just passed. -/
theorem execute_safe_two_of_two :
    ∃ (tr : Trace) (s s' : State) (r : Reply), Run (machine ⟨0, true⟩) tr s ∧
      exec ⟨⟨0, true⟩, 110, 0, []⟩ (.execute 1 4) s = .ok (r, s') ∧
      ∃ c ∈ tr, ∃ args, c.call = .propose args ∧
        ∃ A : Finset Address, args.approvalThreshold ≤ A.card ∧
          ∀ a ∈ A, a ∈ args.approvers ∧ approvals tr 1 a = 1 := by
  let env (t : Nat) : Env := ⟨⟨0, true⟩, t, 0, []⟩
  have hinit : (machine ⟨0, true⟩).init { acl := initGovernanceRoles {} 1 [2, 3] 4 } :=
    ⟨rfl, rfl, rfl⟩
  obtain ⟨tr, s, hrun, hok⟩ := Machine.exists_run_of_replay hinit
    [(env 10, .propose ⟨1, "hash", 7, "upgrade", 2, [2, 3], 100⟩),
      (env 20, .approve 1 2), (env 30, .approve 1 3)]
    (fun _ s => (exec (env 110) (.execute 1 4) s).isOk) (by decide) (by decide) (by decide)
  obtain ⟨⟨r, s'⟩, hx⟩ : ∃ x, exec (env 110) (.execute 1 4) s = .ok x := by
    cases h : exec (env 110) (.execute 1 4) s with
    | error f => rw [h] at hok; cases hok
    | ok x => exact ⟨x, rfl⟩
  obtain ⟨-, -, hsafe⟩ := execute_safe hrun 1
  obtain ⟨-, -, c, hc, args, hcall, -, -, hA⟩ := hsafe _ _ _ _ hx
  exact ⟨tr, s, s', r, hrun, hx, c, hc, args, hcall, hA⟩

end Stellara.Governance
