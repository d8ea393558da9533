import Stellara.Router.ProofBinding

/-!
# Who administers the router

    Run (machine sha256 d) tr s → ((∀ e ∈ tr, Authorized e) ↔ ∀ e ∈ tr, Sanctioned e)
                                                                          (administration_iff)

`Authorized`: once there is an administrator, a call that changes the administrator or the chain
id has the administrator's signature.  `slash_validator` asks for it.  `init` asks for no
signature and does not look at the flag that it sets, and `set_chain_id` asks for that of the
address it is given: so `Sanctioned` has to say that nobody else uses the two for a change.
-/

namespace Stellara.Router

open Outcome

variable {Digest : Type} [DecidableEq Digest] {sha256 : Bytes → Digest} {d : Deployment}

/-- The call changes the administrator or the chain id. -/
def Readministers (e : Event Env (Call Digest) (Reply Digest) (State Digest)) : Prop :=
  e.after.admin ≠ e.before.admin ∨ e.after.nonces.chain ≠ e.before.nonces.chain

/-- **Authorization** by the administrator stored before the call. -/
def Authorized (e : Event Env (Call Digest) (Reply Digest) (State Digest)) : Prop :=
  ∀ admin, e.before.admin = some admin → Readministers e → admin ∈ e.env.signers

/-- The call would store something new under one of the two keys. -/
def Call.Renames (s : State Digest) : Call Digest → Prop
  | .init admin => s.admin ≠ some admin
  | .setChainId _ chainId => s.nonces.chain ≠ some chainId
  | _ => False

/-- **The condition.**  `init` with another address and `set_chain_id` with another id have the
stored administrator's signature. -/
def Sanctioned (e : Event Env (Call Digest) (Reply Digest) (State Digest)) : Prop :=
  ∀ admin, e.before.admin = some admin → e.call.Renames e.before → admin ∈ e.env.signers

section Step

variable {env : Env} {call : Call Digest} {r : Reply Digest} {s s' : State Digest}

/-- What a call does to the two keys is said by its arguments. -/
theorem exec_keys (hx : exec sha256 env call s = .ok (r, s')) :
    (∃ admin, call = .init admin ∧ s'.admin = some admin ∧ s'.nonces = s.nonces) ∨
    (∃ admin chainId, call = .setChainId admin chainId ∧ s'.admin = s.admin ∧
      s'.nonces = NonceManager.setChainId s.nonces chainId) ∨
    ((∀ admin, call ≠ .init admin) ∧ ¬ call.Renames s ∧ s'.admin = s.admin ∧
      s'.nonces = s.nonces) := by
  cases call with
  | init admin =>
    cases hx
    exact .inl ⟨admin, rfl, rfl, rfl⟩
  | setChainId admin chainId =>
    obtain rfl := setChainId_ok (answer_eq_ok.mp hx).1
    exact .inr (.inl ⟨admin, chainId, rfl, rfl, rfl⟩)
  | initiateMessage sourceChain destChain sender recipient payload =>
    obtain ⟨messageId, hx, -⟩ := answerWith_eq_ok.mp hx
    obtain ⟨-, rfl⟩ := initiateMessage_ok hx
    exact .inr (.inr ⟨by simp, id, rfl, rfl⟩)
  | verifyMessage messageId header proof =>
    obtain ⟨b, hx, -⟩ := answerWith_eq_ok.mp hx
    rcases verifyMessage_ok hx with ⟨-, messages, -, rfl⟩ | ⟨-, rfl⟩
    · exact .inr (.inr ⟨by simp, id, rfl, rfl⟩)
    · exact .inr (.inr ⟨by simp, id, rfl, rfl⟩)
  | registerValidator validatorAddress stakedAmount =>
    obtain ⟨b, hx, -⟩ := answerWith_eq_ok.mp hx
    rcases registerValidator_ok hx with ⟨-, rfl⟩ | ⟨-, rfl⟩
    · exact .inr (.inr ⟨by simp, id, rfl, rfl⟩)
    · exact .inr (.inr ⟨by simp, id, rfl, rfl⟩)
  | slashValidator validatorAddress slashPercentage =>
    obtain ⟨x, hx, -⟩ := answerWith_eq_ok.mp hx
    obtain ⟨validators, -, rfl⟩ := slashValidator_ok hx
    exact .inr (.inr ⟨by simp, id, rfl, rfl⟩)
  | updateLightClient header =>
    obtain ⟨b, hx, -⟩ := answerWith_eq_ok.mp hx
    obtain rfl := updateLightClient_ok hx
    exact .inr (.inr ⟨by simp, id, rfl, rfl⟩)

/-- A call changes one of the keys exactly if its arguments say so. -/
theorem readministers_iff (hx : exec sha256 env call s = .ok (r, s')) :
    Readministers ⟨env, call, r, s, s'⟩ ↔ call.Renames s := by
  unfold Readministers
  rcases exec_keys hx with ⟨admin, rfl, ha, hn⟩ | ⟨admin, chainId, rfl, ha, hn⟩ |
      ⟨-, hsame, ha, hn⟩
  · rw [ha, hn]
    show (some admin ≠ s.admin ∨ _) ↔ s.admin ≠ some admin
    rw [or_iff_left (fun h => h rfl), ne_comm]
  · rw [ha, hn]
    show (_ ∨ some chainId ≠ s.nonces.chain) ↔ s.nonces.chain ≠ some chainId
    rw [or_iff_right (fun h => h rfl), ne_comm]
  · rw [ha, hn]
    exact iff_of_false (fun h => h.elim (fun h => h rfl) (fun h => h rfl)) hsame

end Step

/-- There is an administrator once `init` has been called. -/
theorem admin_stored_iff {tr : Trace Digest} {s : State Digest} (h : Run (machine sha256 d) tr s) :
    s.admin.isSome ↔ ∃ e ∈ tr, ∃ admin, e.call = .init admin := by
  refine h.invariant_trace (I := fun tr s => s.admin.isSome ↔
    ∃ e ∈ tr, ∃ admin, e.call = .init admin) ?_ ?_
  · rintro s rfl
    simp
  · intro tr env call r s s' _ _ hi hx
    rw [List.exists_mem_cons_iff]
    rcases exec_keys hx with ⟨admin, rfl, ha, -⟩ | ⟨admin, chainId, rfl, ha, -⟩ | ⟨hne, -, ha, -⟩
    · rw [ha]
      exact iff_of_true rfl (.inl ⟨admin, rfl⟩)
    · rw [ha, hi]
      exact (or_iff_right (fun ⟨_, h⟩ => nomatch h)).symm
    · rw [ha, hi]
      exact (or_iff_right (fun ⟨admin, h⟩ => hne admin h)).symm

/-- **Router administration.**  There is an administrator from the first `init` on.  From then on
the administrator and the chain id change only in calls that the administrator of that moment has
signed, exactly if nobody else calls `init` with another address or `set_chain_id` with another
id. -/
theorem administration_iff {tr : Trace Digest} {s : State Digest}
    (h : Run (machine sha256 d) tr s) :
    (s.admin.isSome ↔ ∃ e ∈ tr, ∃ admin, e.call = .init admin) ∧
    ((∀ e ∈ tr, Authorized e) ↔ ∀ e ∈ tr, Sanctioned e) := by
  refine ⟨admin_stored_iff h, forall₂_congr fun e he => ?_⟩
  obtain ⟨tr', -, -, hx⟩ := h.of_mem he
  refine forall₂_congr fun admin _ => ?_
  exact imp_congr_left (readministers_iff hx)

/-- The administrator 1 gives way to `next` in a second `init` that `signers` sign, and 3 sets
the chain id. -/
def secondInit (next : Address) (signers : List Address) : List (Env × Call Nat) :=
  let env (t : Nat) (signers : List Address) : Env := ⟨⟨0, true⟩, t, 0, signers⟩
  [(env 10 [1], .init 1), (env 20 [1], .setChainId 1 7), (env 30 signers, .init next),
    (env 40 [3], .setChainId 3 7)]

theorem administration_iff_handed_over :
    ∃ (tr : Trace Nat) (s : State Nat), Run (machine sampleHash ⟨0, true⟩) tr s ∧
      s.admin = some 2 ∧ (s.admin.isSome ↔ ∃ e ∈ tr, ∃ admin, e.call = .init admin) ∧
      ((∀ e ∈ tr, Authorized e) ↔ ∀ e ∈ tr, Sanctioned e) := by
  obtain ⟨tr, s, hrun, hok⟩ := Machine.exists_run_of_replay
    (m := machine sampleHash ⟨0, true⟩) rfl (secondInit 2 [1])
    (fun _ s => s.admin = some 2) (by decide) (by decide) (by decide)
  exact ⟨tr, s, hrun, of_decide_eq_true hok, administration_iff hrun⟩

/-- In a call that 1 has not signed, another administrator takes the place of 1. -/
def takesOver (tr : Trace Nat) : Bool :=
  tr.any fun e => e.before.admin = some 1 && !e.env.signers.contains 1 && e.after.admin = some 2

/-- **A second `init`**: nobody signs it, and 2 is the administrator. -/
theorem administration_iff_taken_over :
    ¬ ∀ (tr : Trace Nat) (s : State Nat), Run (machine sampleHash ⟨0, true⟩) tr s →
      ∀ e ∈ tr, Authorized e := by
  intro hclaim
  obtain ⟨tr, s, hrun, hok⟩ := Machine.exists_run_of_replay
    (m := machine sampleHash ⟨0, true⟩) rfl (secondInit 2 [])
    (fun tr _ => takesOver tr) (by decide) (by decide) (by decide)
  obtain ⟨e, he, htake⟩ := List.any_eq_true.mp hok
  simp only [Bool.and_eq_true, decide_eq_true_eq, Bool.not_eq_true'] at htake
  obtain ⟨⟨hbefore, hunsigned⟩, hafter⟩ := htake
  have hsigned := hclaim _ _ hrun e he 1 hbefore (.inl (by rw [hbefore, hafter]; decide))
  rw [List.contains_iff_mem.mpr hsigned] at hunsigned
  cases hunsigned

end Stellara.Router
