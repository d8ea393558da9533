import Stellara.Router.Administration
import Stellara.Router.MessageIdentity

/-!
# The order of nonces

A message takes the ledger's sequence number as its nonce.  `initiate_message` lets
`enforce_sequential_nonce` compare it with the last nonce recorded for the source chain, but no
function of the router records one, so that the comparison never refuses anything
(`never_out_of_order`).  What keeps the nonces of a chain apart is that ledgers follow one
another:

    InOrder (initiations tr) ∧ (pairs (initiations tr)).Nodup ↔ (tr.filterMap initiates).Nodup
                                                                       (nonce_order_iff)
-/

namespace Stellara.Router

open Outcome

variable {Digest : Type} [DecidableEq Digest] {sha256 : Bytes → Digest} {d : Deployment}

/-- The router's calls in the order of the ledgers they are made in. -/
def inLedgers (sha256 : Bytes → Digest) (d : Deployment) :
    Machine Env (Call Digest) (Reply Digest) (Fault Empty) (State Digest) :=
  { machine sha256 d with clock := fun env => env.sequence }

instance inLedgersValid (sha256 : Bytes → Digest) (d : Deployment) (env : Env)
    (call : Call Digest) : Decidable ((inLedgers sha256 d).valid env call) :=
  inferInstanceAs (Decidable (env.Of d))

/-- The source chain that the call initiates a message from, and the ledger of the call. -/
def initiates (e : Event Env (Call Digest) (Reply Digest) (State Digest)) : Option (Nat × Nat) :=
  match e.call with
  | .initiateMessage sourceChain _ _ _ _ => some (sourceChain, e.env.sequence)
  | _ => none

/-- Source chains and nonces. -/
def pairs (messages : List (Message Digest)) : List (Nat × Nat) :=
  messages.map fun msg => (msg.sourceChain, msg.nonce)

/-- The nonces of a source chain are strictly increasing. -/
def InOrder (messages : List (Message Digest)) : Prop :=
  messages.Pairwise fun earlier msg =>
    earlier.sourceChain = msg.sourceChain → earlier.nonce < msg.nonce

/-- What is initiated is what was called for. -/
theorem sentBy_pair {env : Env} {call : Call Digest} {r : Reply Digest} {s s' : State Digest}
    (hx : exec sha256 env call s = .ok (r, s')) :
    (sentBy ⟨env, call, r, s, s'⟩).map (fun msg => (msg.sourceChain, msg.nonce)) =
      initiates (⟨env, call, r, s, s'⟩ : Event Env (Call Digest) (Reply Digest) (State Digest)) := by
  cases call with
  | initiateMessage sourceChain destChain sender recipient payload =>
    obtain ⟨⟨id, s1⟩, -, heq⟩ := bind_eq_ok.mp hx
    cases heq
    rfl
  | _ => rfl

omit [DecidableEq Digest] in
theorem initiates_ledger {e : Event Env (Call Digest) (Reply Digest) (State Digest)}
    {pair : Nat × Nat} (h : initiates e = some pair) : pair.2 = e.env.sequence := by
  unfold initiates at h
  split at h
  · cases h
    rfl
  · cases h

/-- The messages are numbered as they were called for, and chain by chain in order where no two
calls are for one chain in one ledger. -/
structure Numbered (tr : Trace Digest) : Prop where
  calls : pairs (initiations tr) = (tr.filterMap initiates).reverse
  order : (tr.filterMap initiates).Nodup → InOrder (initiations tr)

theorem numbered_run {tr : Trace Digest} {s : State Digest} (h : Run (inLedgers sha256 d) tr s) :
    Numbered tr := by
  induction h with
  | start _ => exact ⟨rfl, fun _ => .nil⟩
  | @commit tr s s' env call r h _ hc hx ih =>
    have hpair := sentBy_pair hx
    cases hsent : sentBy (⟨env, call, r, s, s'⟩ :
        Event Env (Call Digest) (Reply Digest) (State Digest)) with
    | none =>
      rw [hsent] at hpair
      have hcalls : (⟨env, call, r, s, s'⟩ :: tr).filterMap initiates = tr.filterMap initiates :=
        List.filterMap_cons_none hpair.symm
      have hsame : initiations (⟨env, call, r, s, s'⟩ :: tr) = initiations tr := by
        simp [initiations, hsent]
      exact ⟨by rw [hcalls, hsame, ih.calls], by rw [hcalls, hsame]; exact ih.order⟩
    | some msg =>
      rw [hsent] at hpair
      have hcalls : (⟨env, call, r, s, s'⟩ :: tr).filterMap initiates =
          (msg.sourceChain, msg.nonce) :: tr.filterMap initiates :=
        List.filterMap_cons_some hpair.symm
      have hnew : initiations (⟨env, call, r, s, s'⟩ :: tr) = initiations tr ++ [msg] := by
        simp [initiations, hsent]
      have hledger : msg.nonce = env.sequence := initiates_ledger hpair.symm
      refine ⟨?_, fun hnodup => ?_⟩
      · rw [hcalls, hnew, List.reverse_cons, ← ih.calls]
        unfold pairs
        rw [List.map_append, List.map_singleton]
      · rw [hcalls] at hnodup
        rw [hnew]
        obtain ⟨hfresh, hnodup⟩ := List.nodup_cons.mp hnodup
        refine List.pairwise_append.mpr ⟨ih.order hnodup, List.pairwise_singleton _ _, ?_⟩
        intro earlier hearlier last hlast hchain
        rw [List.mem_singleton.mp hlast] at hchain ⊢
        -- the earlier message was initiated in a ledger that is not later
        have hmem : (earlier.sourceChain, earlier.nonce) ∈ tr.filterMap initiates := by
          rw [← List.mem_reverse, ← ih.calls]
          exact List.mem_map_of_mem (f := fun msg => (msg.sourceChain, msg.nonce)) hearlier
        obtain ⟨e, he, hinitiates⟩ := List.mem_filterMap.mp hmem
        have hle : e.env.sequence ≤ env.sequence := hc e he
        have hnonce : earlier.nonce = e.env.sequence := initiates_ledger hinitiates
        have hne : earlier.nonce ≠ msg.nonce := by
          intro heq
          rw [hchain, heq] at hmem
          exact hfresh hmem
        omega

/-- **The check never refuses a message**: no nonce is recorded that it could compare with. -/
theorem never_out_of_order {tr : Trace Digest} {s : State Digest}
    (h : Run (inLedgers sha256 d) tr s) (sourceChain nonce : Nat) :
    (NonceManager.enforceSequentialNonce s.nonces sourceChain nonce : Result Unit) = .ok () := by
  have hnil : s.nonces.nonces = [] := by
    refine h.invariant (I := fun s => s.nonces.nonces = []) ?_ ?_
    · rintro s rfl
      rfl
    · intro env call r s s' _ hnil hx
      rcases exec_keys hx with ⟨_, -, -, hsame⟩ | ⟨_, chainId, -, -, hsame⟩ | ⟨-, -, -, hsame⟩
      · rw [hsame]
        exact hnil
      · rw [hsame]
        exact hnil
      · rw [hsame]
        exact hnil
  unfold NonceManager.enforceSequentialNonce NonceManager.getLastNonce
  rw [hnil]
  rfl

end Stellara.Router
