import Stellara.Shared.GovernanceSafety

/-!
# When a proposal passes

`propose_upgrade` compares the threshold with the length of the approver list, and
`approve_proposal` counts addresses:

    1 ≤ threshold ≤ length of the list                           (accepted)
    count = number of addresses recorded ≤ number of addresses in the list

A list that names an address twice is longer than the number of addresses in it, so the
threshold may be out of reach.  While it is not, the approvals of all listed approvers
make the proposal `approved` (`approvers_pass`).  Approving is for listed addresses; to
reject takes the approver role and nothing else.
-/

namespace Stellara.Governance

open Outcome Acl

/-- The proposal has been `approved` at some point of the run. -/
def Reached (tr : Trace) (pid : Nat) : Prop :=
  ∃ e ∈ tr, ∃ p, e.after.props.lookup pid = some p ∧ p.status = .approved

theorem Reached.cons {tr : Trace} {pid : Nat} (h : Reached tr pid)
    (e : Event Env Call Reply State) : Reached (e :: tr) pid := by
  obtain ⟨c, hc, rest⟩ := h
  exact ⟨c, List.mem_cons_of_mem _ hc, rest⟩

/-! ## One call and one stored proposal -/

/-- What a call may make of a stored proposal: nothing, one more approval while it is
pending, or another status that is neither `pending` nor `approved`. -/
inductive Moves (p : UpgradeProposal) : UpgradeProposal → Prop
  | same : Moves p p
  | approval (h : p.status = .pending) : Moves p p.addApproval
  | ended {st : ProposalStatus} {x : Bool} (hp : st ≠ .pending) (ha : st ≠ .approved) :
      Moves p { p with status := st, executed := x }

theorem Moves.insert {p q q' : UpgradeProposal} {props : Store Nat UpgradeProposal} {pid pid' : Nat}
    (h : Moves q q') (hq : props.lookup pid' = some q) (hp : props.lookup pid = some p) :
    ∃ p', (props.insert pid' q').lookup pid = some p' ∧ Moves p p' := by
  rw [Store.lookup_insert_eq]
  by_cases heq : pid = pid'
  · subst heq
    cases hq.symm.trans hp
    exact ⟨q', by rw [if_pos rfl], h⟩
  · exact ⟨p, by rw [if_neg heq, hp], .same⟩

theorem exec_moves {env : Env} {call : Call} {s s' : State} {r : Reply} {pid : Nat}
    {p : UpgradeProposal} (hx : exec env call s = .ok (r, s')) (hp : s.props.lookup pid = some p)
    (hle : pid ≤ s.propCnt) : ∃ p', s'.props.lookup pid = some p' ∧ Moves p p' := by
  rcases exec_cases hx with ⟨args, t, -, -, -, -, -, rfl⟩ |
      ⟨pid', a, q, -, hq, hst, -, -, rfl⟩ | ⟨pid', x, q, -, hq, -, -, rfl⟩ |
      ⟨pid', x, q, st, hcase, hq, rfl⟩ | ⟨c, acl, -, rfl⟩
  · refine ⟨p, ?_, .same⟩
    show (s.props.insert (s.propCnt + 1) _).lookup pid = some p
    rw [Store.lookup_insert_eq, if_neg (by omega), hp]
  · exact (Moves.approval hst).insert hq hp
  · exact (Moves.ended (p := q) (by simp) (by simp)).insert hq hp
  · have hmoves : Moves q { q with status := st } := by
      rcases hcase with ⟨-, -, rfl⟩ | ⟨-, -, rfl⟩
      · exact .ended (by simp) (by simp)
      · exact .ended (by simp) (by simp)
    exact hmoves.insert hq hp
  · exact ⟨p, hp, .same⟩

/-! ## The stored proposal and the call that created it -/

/-- The proposal stored for the accepted call `args`. -/
structure Passing (tr : Trace) (pid : Nat) (args : Proposal) (p : UpgradeProposal) : Prop where
  approvers : p.approvers = args.approvers
  threshold : p.approvalThreshold = args.approvalThreshold
  positive : 1 ≤ args.approvalThreshold
  short : args.approvalThreshold ≤ args.approvers.length
  waiting : p.status = .pending → p.approvalsCount < p.approvalThreshold
  reached : p.approvalThreshold ≤ p.approvalsCount → Reached tr pid

theorem Passing.moves {tr : Trace} {pid : Nat} {args : Proposal} {p p' : UpgradeProposal}
    {e : Event Env Call Reply State} (h : Passing tr pid args p) (hm : Moves p p')
    (hp' : e.after.props.lookup pid = some p') : Passing (e :: tr) pid args p' := by
  cases hm with
  | same =>
    exact ⟨h.approvers, h.threshold, h.positive, h.short, h.waiting, fun hle => (h.reached hle).cons e⟩
  | approval hst =>
    by_cases hle : p.approvalThreshold ≤ p.approvalsCount + 1
    · have happroved : p.addApproval.status = .approved := by
        simp [UpgradeProposal.addApproval, hle]
      refine ⟨h.approvers, h.threshold, h.positive, h.short, ?_, fun _ => ?_⟩
      · intro hpend
        rw [happroved] at hpend
        cases hpend
      · exact ⟨e, List.mem_cons_self, _, hp', happroved⟩
    · refine ⟨h.approvers, h.threshold, h.positive, h.short, fun _ => ?_, fun hge => ?_⟩
      · show p.approvalsCount + 1 < p.approvalThreshold
        omega
      · exact absurd hge hle
  | ended hpend happr =>
    exact ⟨h.approvers, h.threshold, h.positive, h.short, fun hst => absurd hst hpend,
      fun hle => (h.reached hle).cons e⟩

/-- Every accepted `propose_upgrade` has its proposal in the store. -/
def Passable (tr : Trace) (s : State) : Prop :=
  ∀ c ∈ tr, ∀ args pid, c.call = .propose args → c.ret = .proposal pid →
    ∃ p, s.props.lookup pid = some p ∧ Passing tr pid args p

theorem passable_step {tr : Trace} {env : Env} {call : Call} {r : Reply} {s s' : State}
    (hi : Inv tr s) (h : Passable tr s) (hx : exec env call s = .ok (r, s')) :
    Passable (⟨env, call, r, s, s'⟩ :: tr) s' := by
  intro c hc args pid hcall hret
  rcases List.mem_cons.mp hc with rfl | hc
  · dsimp only at hcall hret
    subst hcall hret
    rcases exec_cases hx with ⟨args', t, hargs, hpid, h0, hlen, -, rfl⟩ | ⟨_, _, _, h, -⟩ |
        ⟨_, _, _, h, -⟩ | ⟨_, _, _, _, ⟨h, -⟩ | ⟨h, -⟩, -⟩ | ⟨_, _, h, -⟩
    · cases hargs
      cases hpid
      refine ⟨_, by rw [Store.lookup_insert_eq, if_pos rfl], rfl, rfl, Nat.pos_of_ne_zero h0, hlen, ?_, ?_⟩
      · exact fun _ => Nat.pos_of_ne_zero h0
      · intro hle
        exact absurd (Nat.le_zero.mp hle) h0
    all_goals cases h
  · obtain ⟨p, hp, hpass⟩ := h c hc args pid hcall hret
    have hle : pid ≤ s.propCnt := hi.fresh _ (AList.lookup_isSome.mp (by rw [hp]; rfl))
    obtain ⟨p', hp', hm⟩ := exec_moves hx hp hle
    exact ⟨p', hp', hpass.moves hm hp'⟩

theorem passable_run {d : Deployment} {tr : Trace} {s : State} (h : Run (machine d) tr s) :
    Passable tr s := by
  have hboth : Inv tr s ∧ Passable tr s := by
    refine h.invariant_trace (I := fun tr s => Inv tr s ∧ Passable tr s) ?_ ?_
    · intro s hs
      exact ⟨inv_run (.start (m := machine d) hs), fun c hc => nomatch hc⟩
    · intro tr env call r s s' _ _ hI hx
      exact ⟨inv_step hI.1 hx, passable_step hI.1 hI.2 hx⟩
  exact hboth.2

/-! ## Approving one after the other -/

/-- The approvers `l` call `approve_proposal` in this order; a call that fails changes
nothing. -/
def approveEach (s : State) (pid : Nat) (l : List Address) : State :=
  l.foldl (fun s a => (approveProposal s pid a).toOption.getD s) s

/-- The state while the listed approvers of the pending proposal `p` approve it:
those in `l` have had their turn. -/
structure Tallied (acl : Acl.State) (pid : Nat) (p : UpgradeProposal) (l : List Address)
    (s : State) (q : UpgradeProposal) : Prop where
  stored : s.props.lookup pid = some q
  roles : s.acl = acl
  approvers : q.approvers = p.approvers
  threshold : q.approvalThreshold = p.approvalThreshold
  count : q.approvalsCount = (approvedBy s pid).card
  waiting : q.status = .pending → q.approvalsCount < q.approvalThreshold ∧
    ∀ a ∈ l, a ∈ p.approvers → a ∈ approvedBy s pid
  status : q.status = .pending ∨ q.status = .approved

/-- Whom `approve_proposal` lets through. -/
theorem approve_ok_iff {s s' : State} {pid : Nat} {a : Address} {p : UpgradeProposal}
    (hp : s.props.lookup pid = some p) :
    approveProposal s pid a = .ok s' ↔
      (requirePermission s.acl a permissionApprove : Result Unit) = .ok () ∧ p.status = .pending ∧
        a ∈ p.approvers ∧ a ∉ approvedBy s pid ∧
        s' = { s with apprv := s.apprv.insert (pid, a) true
                      props := s.props.insert pid p.addApproval } := by
  rw [mem_approvedBy, ← AList.lookup_eq_none]
  simp only [approveProposal, getProposal, bind_eq_ok, require_eq_ok, exists_unit_and,
    ofOption_eq_ok, pure_eq_ok, hp, Option.some.injEq, exists_eq_left']
  constructor
  · rintro ⟨hperm, hst, ha, hd, rfl⟩
    exact ⟨hperm, hst, ha, hd, rfl⟩
  · rintro ⟨hperm, hst, ha, hd, rfl⟩
    exact ⟨hperm, hst, ha, hd, rfl⟩

/-- One more turn. -/
theorem Tallied.turn {acl : Acl.State} {pid : Nat} {p q : UpgradeProposal} {l : List Address}
    {s : State} (h : Tallied acl pid p l s q) (a : Address)
    (hperm : a ∈ p.approvers →
      (requirePermission acl a permissionApprove : Result Unit) = .ok ()) :
    ∃ q', Tallied acl pid p (l ++ [a]) ((approveProposal s pid a).toOption.getD s) q' := by
  cases hx : approveProposal s pid a with
  | ok s' =>
    show ∃ q', Tallied acl pid p (l ++ [a]) s' q'
    obtain ⟨-, hst, ha, hnew, hs⟩ := (approve_ok_iff h.stored).mp hx
    have hby : approvedBy s' pid = insert a (approvedBy s pid) := by
      rw [approvedBy_insert (by rw [hs]), if_pos rfl]
    refine ⟨q.addApproval, ?_, by rw [hs]; exact h.roles, h.approvers, h.threshold, ?_, ?_, ?_⟩
    · rw [hs]
      show (s.props.insert pid _).lookup pid = _
      rw [Store.lookup_insert_eq, if_pos rfl]
    · show q.approvalsCount + 1 = _
      rw [hby, Finset.card_insert_of_notMem hnew, h.count]
    · intro hpend
      have hlt : ¬ q.approvalThreshold ≤ q.approvalsCount + 1 := by
        intro hle
        simp [UpgradeProposal.addApproval, hle] at hpend
      refine ⟨Nat.lt_of_not_le hlt, fun b hb hlisted => ?_⟩
      rw [hby, Finset.mem_insert]
      rcases List.mem_append.mp hb with hb | hb
      · exact .inr ((h.waiting hst).2 b hb hlisted)
      · exact .inl (List.mem_singleton.mp hb)
    · by_cases hle : q.approvalThreshold ≤ q.approvalsCount + 1
      · exact .inr (by simp [UpgradeProposal.addApproval, hle])
      · exact .inl (by simp [UpgradeProposal.addApproval, hle, hst])
  | error f =>
    refine ⟨q, h.stored, h.roles, h.approvers, h.threshold, h.count, fun hpend => ?_, h.status⟩
    obtain ⟨hlt, hdone⟩ := h.waiting hpend
    refine ⟨hlt, fun b hb hlisted => ?_⟩
    rcases List.mem_append.mp hb with hb | hb
    · exact hdone b hb hlisted
    · -- the call can only have failed because `b` has approved before
      cases List.mem_singleton.mp hb
      by_contra hnew
      have hok := (approve_ok_iff h.stored).mpr
        ⟨h.roles ▸ hperm hlisted, hpend, h.approvers ▸ hlisted, hnew, rfl⟩
      rw [hx] at hok
      cases hok

theorem Tallied.each {acl : Acl.State} {pid : Nat} {p : UpgradeProposal}
    (hperm : ∀ a ∈ p.approvers,
      (requirePermission acl a permissionApprove : Result Unit) = .ok ()) (l : List Address) :
    ∀ {s : State} {q : UpgradeProposal} {done : List Address}, Tallied acl pid p done s q →
      ∃ q', Tallied acl pid p (done ++ l) (approveEach s pid l) q' := by
  induction l with
  | nil =>
    intro s q done h
    exact ⟨q, by rw [List.append_nil]; exact h⟩
  | cons a l ih =>
    intro s q done h
    obtain ⟨q1, h1⟩ := h.turn a (hperm a)
    obtain ⟨q', h'⟩ := ih h1
    exact ⟨q', by rw [List.append_assoc] at h'; exact h'⟩

/-- Once all of a list have approved, there are as many approvals as addresses in it. -/
theorem distinct_le_count {tr : Trace} {s : State} {pid : Nat} {p : UpgradeProposal}
    (h : Faithful tr s pid p) {l : List Address} (hl : ∀ a ∈ l, a ∈ approvedBy s pid) :
    l.toFinset.card ≤ p.approvalsCount := by
  rw [h.count]
  exact Finset.card_le_card fun a ha => hl a (List.mem_toFinset.mp ha)

/-- **The listed approvers can make a pending proposal pass** when the threshold is
within their number, in whatever order and with whoever else they approve. -/
theorem approveEach_approved {tr : Trace} {s : State} {pid : Nat} {p : UpgradeProposal}
    (hf : Faithful tr s pid p) (hp : s.props.lookup pid = some p) (hst : p.status = .pending)
    (hlt : p.approvalsCount < p.approvalThreshold)
    (hle : p.approvalThreshold ≤ p.approvers.toFinset.card)
    (hperm : ∀ a ∈ p.approvers,
      (requirePermission s.acl a permissionApprove : Result Unit) = .ok ())
    {l : List Address} (hl : ∀ a ∈ p.approvers, a ∈ l) :
    ∃ q, (approveEach s pid l).props.lookup pid = some q ∧ q.status = .approved := by
  have hstart : Tallied s.acl pid p [] s p :=
    ⟨hp, rfl, rfl, rfl, hf.count, fun _ => ⟨hlt, fun a ha => nomatch ha⟩, .inl hst⟩
  obtain ⟨q, hq⟩ := Tallied.each hperm l hstart
  refine ⟨q, hq.stored, ?_⟩
  rcases hq.status with hpend | happr
  · -- all have had their turn, and the proposal would still be short of approvals
    exfalso
    obtain ⟨hshort, hdone⟩ := hq.waiting hpend
    have hcard : p.approvers.toFinset.card ≤ q.approvalsCount := by
      rw [hq.count]
      refine Finset.card_le_card fun a ha => ?_
      have ha := List.mem_toFinset.mp ha
      exact hdone a (hl a ha) ha
    have hthr := hq.threshold
    omega
  · exact happr

/-- Whom `reject_proposal` lets through: it does not look at the approver list. -/
theorem reject_ok_iff {s : State} {pid : Nat} {a : Address} {p : UpgradeProposal}
    (hp : s.props.lookup pid = some p) :
    (∃ s', rejectProposal s pid a = .ok s') ↔
      p.status = .pending ∧
        (requirePermission s.acl a permissionApprove : Result Unit) = .ok () := by
  simp only [rejectProposal, getProposal, bind_eq_ok, require_eq_ok, exists_unit_and,
    ofOption_eq_ok, pure_eq_ok, hp, Option.some.injEq, exists_eq_left']
  constructor
  · rintro ⟨s', hperm, hst, -⟩
    exact ⟨hst, hperm⟩
  · rintro ⟨hst, hperm⟩
    exact ⟨_, hperm, hst, rfl⟩

/-! ## What an accepted proposal needs -/

/-- **An accepted proposal can pass** while its threshold is not larger than the number
of addresses in its approver list: once each of them has approved it has been
`approved`, and as long as it is pending the approvals of those who hold the permission
make it so.  Only listed addresses approve; every holder of the permission can reject. -/
theorem accepted_passes {d : Deployment} {tr : Trace} {s : State} (h : Run (machine d) tr s) :
    ∀ c ∈ tr, ∀ args pid, c.call = .propose args → c.ret = .proposal pid →
      1 ≤ args.approvalThreshold ∧ args.approvalThreshold ≤ args.approvers.length ∧
      ∃ p, s.props.lookup pid = some p ∧ p.approvers = args.approvers ∧
        p.approvalThreshold = args.approvalThreshold ∧
        (args.approvalThreshold ≤ args.approvers.toFinset.card →
          ((∀ a ∈ args.approvers, 0 < approvals tr pid a) → Reached tr pid) ∧
          (p.status = .pending →
            (∀ a ∈ args.approvers,
              (requirePermission s.acl a permissionApprove : Result Unit) = .ok ()) →
            ∀ l : List Address, (∀ a ∈ args.approvers, a ∈ l) →
              ∃ q, (approveEach s pid l).props.lookup pid = some q ∧ q.status = .approved)) ∧
        (∀ a s', approveProposal s pid a = .ok s' → a ∈ args.approvers) ∧
        (∀ a, (∃ s', rejectProposal s pid a = .ok s') ↔ p.status = .pending ∧
          (requirePermission s.acl a permissionApprove : Result Unit) = .ok ()) := by
  intro c hc args pid hcall hret
  have hi := inv_run h
  obtain ⟨p, hp, hpass⟩ := passable_run h c hc args pid hcall hret
  have hf := hi.stored _ _ hp
  refine ⟨hpass.positive, hpass.short, p, hp, hpass.approvers, hpass.threshold, fun hle => ⟨?_, ?_⟩,
    ?_, fun a => reject_ok_iff hp⟩
  · intro hall
    have hby : ∀ a ∈ args.approvers, a ∈ approvedBy s pid := by
      intro a ha
      have hpos := hall a ha
      rw [hi.approvals] at hpos
      by_contra hnot
      rw [if_neg hnot] at hpos
      exact absurd hpos (lt_irrefl 0)
    have hcount := distinct_le_count hf hby
    have hthr := hpass.threshold
    exact hpass.reached (by omega)
  · intro hst hperm l hl
    refine approveEach_approved hf hp hst (hpass.waiting hst) ?_ ?_ ?_
    · rw [hpass.threshold, hpass.approvers]; exact hle
    · rw [hpass.approvers]; exact hperm
    · rw [hpass.approvers]; exact hl
  · intro a s' hx
    rw [← hpass.approvers]
    exact ((approve_ok_iff hp).mp hx).2.2.1

/-- Two of the addresses 2 and 3, of which 2 is listed twice. -/
def twoOfTwo : List (Env × Call) :=
  let env (t : Nat) : Env := ⟨⟨0, true⟩, t, 0, []⟩
  [(env 10, .propose ⟨1, "hash", 7, "upgrade", 2, [2, 3, 2], 100⟩),
    (env 20, .approve 1 2), (env 30, .approve 1 3)]

/-- Both have approved it, and it has been approved. -/
theorem accepted_passes_two_of_two :
    ∃ (tr : Trace) (s : State), Run (machine ⟨0, true⟩) tr s ∧
      (∀ a ∈ [2, 3, 2], 0 < approvals tr 1 a) ∧ Reached tr 1 := by
  have hinit : (machine ⟨0, true⟩).init { acl := initGovernanceRoles {} 1 [2, 3] 4 } :=
    ⟨rfl, rfl, rfl⟩
  obtain ⟨tr, s, hrun, hok⟩ := Machine.exists_run_of_replay hinit twoOfTwo
    (fun tr _ => decide ((∀ a ∈ ([2, 3, 2] : List Address), 0 < approvals tr 1 a) ∧
      ∃ c ∈ tr, c.call = .propose ⟨1, "hash", 7, "upgrade", 2, [2, 3, 2], 100⟩ ∧
        c.ret = .proposal 1))
    (by decide) (by decide) (by decide)
  obtain ⟨hall, c, hc, hcall, hret⟩ := of_decide_eq_true hok
  obtain ⟨-, -, p, -, -, -, hpass, -⟩ := accepted_passes hrun c hc _ 1 hcall hret
  exact ⟨tr, s, hrun, hall, (hpass (by decide)).1 hall⟩

/-- The proposal 1 lists the address 2 twice and asks for two approvals, proposal 2
lists it once; 2 and 3 are approvers. -/
def listedTwice : List (Env × Call) :=
  let env (t : Nat) : Env := ⟨⟨0, true⟩, t, 0, []⟩
  [(env 10, .propose ⟨1, "hash", 7, "upgrade", 2, [2, 2], 100⟩),
    (env 10, .propose ⟨1, "hash", 7, "upgrade", 1, [2], 100⟩), (env 20, .approve 1 2)]

/-- **An approver who is not listed rejects**, and a threshold of two is accepted for a
single address. -/
theorem accepted_passes_overruled :
    (¬ ∀ (d : Deployment) (tr : Trace) (s : State), Run (machine d) tr s →
      ∀ c ∈ tr, ∀ args pid, c.call = .propose args → c.ret = .proposal pid →
        ∀ a, a ∉ args.approvers → ∀ s', rejectProposal s pid a ≠ .ok s') ∧
    (¬ ∀ (d : Deployment) (tr : Trace) (s : State), Run (machine d) tr s →
      ∀ c ∈ tr, ∀ args, c.call = .propose args →
        args.approvalThreshold ≤ args.approvers.toFinset.card) := by
  have hinit : (machine ⟨0, true⟩).init { acl := initGovernanceRoles {} 1 [2, 3] 4 } :=
    ⟨rfl, rfl, rfl⟩
  obtain ⟨tr, s, hrun, hok⟩ := Machine.exists_run_of_replay hinit listedTwice
    (fun tr s => decide (((∃ c ∈ tr, c.call = .propose ⟨1, "hash", 7, "upgrade", 1, [2], 100⟩ ∧
        c.ret = .proposal 2) ∧
      ∃ c ∈ tr, c.call = .propose ⟨1, "hash", 7, "upgrade", 2, [2, 2], 100⟩) ∧
      (rejectProposal s 2 3).isOk = true))
    (by decide) (by decide) (by decide)
  obtain ⟨⟨⟨c, hc, hcall, hret⟩, c', hc', hcall'⟩, hrej⟩ := of_decide_eq_true hok
  constructor
  · intro hclaim
    cases hx : rejectProposal s 2 3 with
    | ok s' => exact hclaim _ _ _ hrun c hc _ _ hcall hret 3 (by decide) s' hx
    | error f => rw [hx] at hrej; cases hrej
  · intro hclaim
    exact absurd (hclaim _ _ _ hrun c' hc' _ hcall') (by decide)

end Stellara.Governance
