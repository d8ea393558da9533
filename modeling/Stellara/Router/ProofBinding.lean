import Mathlib.Logic.Encodable.Basic
import Mathlib.Logic.Equiv.List
import Stellara.Router.Model

/-!
# What a verified proof says about the message

`verifyMessage` compares the hash of the proof with the stored root; the message id
only selects the record that is marked.  So acceptance splits into a condition on the
proof and a condition on the record (`accepts_iff`)

    Accepts s m proof  ↔  Opens s proof ∧ ¬ Processed s m

and `proof_binding_iff` says for which ids and states one proof is good for only one of
them: the proof opens nothing, or the record of one of them is used up.
-/

namespace Stellara.Router

open Outcome

variable {Digest : Type} [DecidableEq Digest]

abbrev Trace (Digest : Type) : Type :=
  List (Event Env (Call Digest) (Reply Digest) (State Digest))

/-- The message was initiated, from the given chain. -/
def InitiatedFrom (tr : Trace Digest) (chain : Nat) (m : Digest) : Prop :=
  ∃ e ∈ tr, e.ret = .id m ∧
    ∃ dest sender recipient payload, e.call = .initiateMessage chain dest sender recipient payload

/-- The message was initiated. -/
def Initiated (tr : Trace Digest) (m : Digest) : Prop := ∃ chain, InitiatedFrom tr chain m

/-- Some call of `verify_message` for `m` with `proof` returns `true`. -/
def Accepts (sha256 : Bytes → Digest) (s : State Digest) (m : Digest) (proof : Bytes) : Prop :=
  ∃ header s', verifyMessage sha256 s m header proof = .ok (true, s')

/-- There is a light client and the proof hashes to its root. -/
def Opens (sha256 : Bytes → Digest) (s : State Digest) (proof : Bytes) : Prop :=
  ∃ lc, s.lightClient = some lc ∧ sha256 proof = lc.commitmentRoot

/-- The first record of the id has been verified before. -/
def Processed (s : State Digest) (m : Digest) : Prop :=
  ∃ msg, s.messages.find? (fun msg => msg.id = m) = some msg ∧ msg.processed = true

/-! ## Acceptance -/

/-- Marking fails only on a record that was used. -/
theorem markVerified_ok_iff (m : Digest) (msgs : List (Message Digest)) :
    (∃ msgs', markVerified m msgs = .ok msgs') ↔
      ¬ ∃ msg, msgs.find? (fun msg => msg.id = m) = some msg ∧ msg.processed = true := by
  induction msgs with
  | nil => simp [markVerified]
  | cons msg rest ih =>
    unfold markVerified
    by_cases h : msg.id = m
    · have hfind : (msg :: rest).find? (fun msg => msg.id = m) = some msg :=
        List.find?_cons_of_pos (by simpa using h)
      rw [if_pos h, hfind]
      simp only [bind_eq_ok, require_eq_ok, exists_unit_and, pure_eq_ok]
      simp
    · have hfind : (msg :: rest).find? (fun msg => msg.id = m) =
          rest.find? fun msg => msg.id = m := List.find?_cons_of_neg (by simpa using h)
      rw [if_neg h, hfind, ← ih]
      simp only [bind_eq_ok, pure_eq_ok]
      constructor
      · rintro ⟨_, rest', hrest, -⟩; exact ⟨rest', hrest⟩
      · rintro ⟨rest', hrest⟩; exact ⟨_, rest', hrest, rfl⟩

/-- **Acceptance** looks at the proof and at the record separately. -/
theorem accepts_iff {sha256 : Bytes → Digest} {s : State Digest} (hactive : s.active = false)
    (m : Digest) (proof : Bytes) :
    Accepts sha256 s m proof ↔ Opens sha256 s proof ∧ ¬ Processed s m := by
  have henter : (ReentrancyGuard.enter s.active : Result Bool) = .ok true := by
    rw [hactive]; rfl
  unfold Accepts Opens Processed
  rw [← markVerified_ok_iff]
  constructor
  · rintro ⟨header, s', h⟩
    unfold verifyMessage at h
    rw [henter] at h
    cases hlc : s.lightClient with
    | none => simp [hlc] at h
    | some lc =>
      by_cases hroot : sha256 proof = lc.commitmentRoot
      · simp only [ok_bind, hlc, if_pos hroot, bind_eq_ok] at h
        obtain ⟨msgs, hmsgs, -⟩ := h
        exact ⟨⟨lc, rfl, hroot⟩, msgs, hmsgs⟩
      · simp [hlc, hroot] at h
  · rintro ⟨⟨lc, hlc, hroot⟩, msgs, hmsgs⟩
    refine ⟨lc, { s with messages := msgs, active := ReentrancyGuard.exit }, ?_⟩
    unfold verifyMessage
    rw [henter]
    simp only [ok_bind, hlc, if_pos hroot, hmsgs]
    rfl

/-! ## Reachable states -/

/-- The re-entrancy flag is down between calls and every recorded id was initiated. -/
structure Inv (tr : Trace Digest) (s : State Digest) : Prop where
  idle : s.active = false
  recorded : ∀ msg ∈ s.messages, Initiated tr msg.id

omit [DecidableEq Digest] in
theorem Initiated.cons {tr : Trace Digest} {m : Digest} (h : Initiated tr m)
    (e : Event Env (Call Digest) (Reply Digest) (State Digest)) : Initiated (e :: tr) m := by
  obtain ⟨chain, c, hc, rest⟩ := h
  exact ⟨chain, c, List.mem_cons_of_mem _ hc, rest⟩

/-- A marking changes nothing but status and flag. -/
theorem markVerified_map {α : Type} {f : Message Digest → α}
    (hf : ∀ msg, f { msg with status := 2, processed := true } = f msg) {m : Digest}
    {msgs : List (Message Digest)} :
    ∀ {msgs' : List (Message Digest)}, markVerified m msgs = .ok msgs' →
      msgs'.map f = msgs.map f := by
  induction msgs with
  | nil => intro msgs' h; cases h; rfl
  | cons msg rest ih =>
    intro msgs' h
    unfold markVerified at h
    split at h
    · simp only [bind_eq_ok, require_eq_ok, exists_unit_and, pure_eq_ok] at h
      obtain ⟨-, rfl⟩ := h
      rw [List.map_cons, List.map_cons, hf]
    · simp only [bind_eq_ok, pure_eq_ok] at h
      obtain ⟨rest', hrest, rfl⟩ := h
      rw [List.map_cons, List.map_cons, ih hrest]

theorem markVerified_ids {m : Digest} {msgs msgs' : List (Message Digest)}
    (h : markVerified m msgs = .ok msgs') : msgs'.map Message.id = msgs.map Message.id :=
  markVerified_map (fun _ => rfl) h

omit [DecidableEq Digest] in
/-- A call that keeps the recorded ids keeps the invariant. -/
theorem Inv.keep {tr : Trace Digest} {s s' : State Digest} (h : Inv tr s)
    (hidle : s'.active = false) (hids : s'.messages.map Message.id = s.messages.map Message.id)
    (e : Event Env (Call Digest) (Reply Digest) (State Digest)) : Inv (e :: tr) s' := by
  refine ⟨hidle, ?_⟩
  intro msg hmsg
  have hm : msg.id ∈ s.messages.map Message.id := by
    rw [← hids]; exact List.mem_map_of_mem hmsg
  obtain ⟨old, hold, heq⟩ := List.mem_map.mp hm
  rw [← heq]
  exact (h.recorded old hold).cons e

theorem verifyMessage_keep {sha256 : Bytes → Digest} {s s' : State Digest} {m : Digest}
    {header : LightClientHeader Digest} {proof : Bytes} {b : Bool}
    (h : verifyMessage sha256 s m header proof = .ok (b, s')) :
    s'.active = false ∧ s'.messages.map Message.id = s.messages.map Message.id := by
  rcases verifyMessage_ok h with ⟨-, messages, hmark, rfl⟩ | ⟨-, rfl⟩
  · exact ⟨rfl, markVerified_ids hmark⟩
  · exact ⟨rfl, rfl⟩

theorem inv_step {sha256 : Bytes → Digest} {d : Deployment} {tr : Trace Digest} {env : Env}
    {call : Call Digest} {r : Reply Digest} {s s' : State Digest} (h : Inv tr s)
    (hx : (machine sha256 d).exec env call s = .ok (r, s')) :
    Inv (⟨env, call, r, s, s'⟩ :: tr) s' := by
  cases call with
  | init admin =>
    cases hx
    exact h.keep (by exact h.idle) (by rfl) _
  | setChainId admin chainId =>
    obtain rfl := setChainId_ok (answer_eq_ok.mp hx).1
    exact h.keep (by exact h.idle) (by rfl) _
  | initiateMessage chain dest sender recipient payload =>
    obtain ⟨id, hcall, rfl⟩ := answerWith_eq_ok.mp hx
    obtain ⟨rfl, rfl⟩ := initiateMessage_ok hcall
    refine ⟨rfl, ?_⟩
    intro msg hmsg
    rcases List.mem_append.mp hmsg with hold | hnew
    · exact (h.recorded msg hold).cons _
    · rw [List.mem_singleton.mp hnew]
      exact ⟨chain, _, List.mem_cons_self, rfl, dest, sender, recipient, payload, rfl⟩
  | verifyMessage m header proof =>
    obtain ⟨b, hcall, -⟩ := answerWith_eq_ok.mp hx
    obtain ⟨hidle, hids⟩ := verifyMessage_keep hcall
    exact h.keep hidle hids _
  | registerValidator validator amount =>
    obtain ⟨b, hcall, -⟩ := answerWith_eq_ok.mp hx
    rcases registerValidator_ok hcall with ⟨-, rfl⟩ | ⟨-, rfl⟩
    · exact h.keep (by rfl) (by rfl) _
    · exact h.keep (by rfl) (by rfl) _
  | slashValidator validator percentage =>
    obtain ⟨x, hcall, -⟩ := answerWith_eq_ok.mp hx
    obtain ⟨validators, -, rfl⟩ := slashValidator_ok hcall
    exact h.keep (by rfl) (by rfl) _
  | updateLightClient header =>
    obtain ⟨b, hcall, -⟩ := answerWith_eq_ok.mp hx
    obtain rfl := updateLightClient_ok hcall
    exact h.keep (by rfl) (by rfl) _

theorem inv_run {sha256 : Bytes → Digest} {d : Deployment} {tr : Trace Digest} {s : State Digest}
    (h : Run (machine sha256 d) tr s) : Inv tr s := by
  refine h.invariant_trace ?_ ?_
  · rintro s rfl
    exact ⟨rfl, fun msg hmsg => by cases hmsg⟩
  · intro tr env call r s s' _ _ hi hx
    exact inv_step hi hx

/-- An id without a message has no record to use up. -/
theorem not_processed_of_not_initiated {tr : Trace Digest} {s : State Digest} {m : Digest}
    (h : Inv tr s) (hm : ¬ Initiated tr m) : ¬ Processed s m := by
  rintro ⟨msg, hfind, -⟩
  have hid : msg.id = m := by simpa using List.find?_some hfind
  exact hm (hid ▸ h.recorded msg (List.mem_of_find?_eq_some hfind))

/-! ## Binding -/

/-- **Proof binding.**  Take two reachable states with the same light client.  A proof is
accepted for at most one of two different messages of one source chain if and only if it
does not hash to the stored root or one of the two messages was verified before; and it is
not accepted for an id that was never initiated if and only if it does not hash to the
stored root. -/
theorem proof_binding_iff {sha256 : Bytes → Digest} {d : Deployment} {tr₁ tr₂ : Trace Digest}
    {s₁ s₂ : State Digest} (h₁ : Run (machine sha256 d) tr₁ s₁)
    (h₂ : Run (machine sha256 d) tr₂ s₂) (hlc : s₁.lightClient = s₂.lightClient)
    (proof : Bytes) :
    (∀ m₁ m₂ chain, m₁ ≠ m₂ → InitiatedFrom tr₁ chain m₁ → InitiatedFrom tr₂ chain m₂ →
      (¬ (Accepts sha256 s₁ m₁ proof ∧ Accepts sha256 s₂ m₂ proof) ↔
        ¬ Opens sha256 s₁ proof ∨ Processed s₁ m₁ ∨ Processed s₂ m₂)) ∧
    ∀ m, ¬ Initiated tr₁ m → (¬ Accepts sha256 s₁ m proof ↔ ¬ Opens sha256 s₁ proof) := by
  have hopens : Opens sha256 s₂ proof ↔ Opens sha256 s₁ proof := by
    unfold Opens; rw [hlc]
  refine ⟨?_, ?_⟩
  · intro m₁ m₂ chain _ _ _
    rw [accepts_iff (inv_run h₁).idle, accepts_iff (inv_run h₂).idle, hopens]
    tauto
  · intro m hm
    have hfree := not_processed_of_not_initiated (inv_run h₁) hm
    rw [accepts_iff (inv_run h₁).idle]
    tauto

/-! ## One proof for every message -/

/-- Digests as numbers: the SHA-256 values of the three inputs below, and numbers that no
256-bit digest has elsewhere, so that different inputs have different digests. -/
def sampleHash (b : Bytes) : Nat :=
  if b = [1] then 0x4bf5122f344554c53bde2ebb8cd2b7e3d1600ad631c385a5d7cce23c7785459a
  else if b = [2] then 0xdbc1b4c900ffe48d575b5da5c638040125f65db0fe3e24494b76ea986457d986
  else if b = [3] then 0x084fed08b978af4d7d196a7446a86b58009e636b611db16211b65a9aadff29c5
  else 2 ^ 256 + Encodable.encode b

theorem sampleHash_injective : Function.Injective sampleHash := by
  intro a b h
  unfold sampleHash at h
  split_ifs at h <;> first
    | simp_all; done
    | omega

/-- Messages `[1]` and `[2]` from chain 0, and a light client whose root is the hash of `[3]`. -/
def twoMessages : List (Env × Call Nat) :=
  [(⟨⟨0, true⟩, 0, 1, [7]⟩, .initiateMessage 0 1 7 8 [1]),
    (⟨⟨0, true⟩, 5, 2, [7]⟩, .initiateMessage 0 1 7 8 [2]),
    (⟨⟨0, true⟩, 10, 3, []⟩, .updateLightClient ⟨1, 0, 10, sampleHash [3]⟩)]

/-- `verify_message` returns `true`. -/
def acceptsBool (s : State Nat) (m : Nat) (proof : Bytes) : Bool :=
  match verifyMessage sampleHash s m ⟨0, 0, 0, 0⟩ proof with
  | .ok (b, _) => b
  | .error _ => false

theorem accepts_of_acceptsBool {s : State Nat} {m : Nat} {proof : Bytes}
    (h : acceptsBool s m proof = true) : Accepts sampleHash s m proof := by
  unfold acceptsBool at h
  split at h
  · next b s' hx => subst h; exact ⟨_, s', hx⟩
  · cases h

/-- The proof `[3]` is accepted for two messages of chain 0 and for an unknown id. -/
theorem proof_accepted_for_all :
    ∃ (tr : Trace Nat) (s : State Nat), Function.Injective sampleHash ∧
      Run (machine sampleHash ⟨0, true⟩) tr s ∧
      InitiatedFrom tr 0 (sampleHash [1]) ∧ InitiatedFrom tr 0 (sampleHash [2]) ∧
      sampleHash [1] ≠ sampleHash [2] ∧ ¬ Initiated tr 99 ∧
      Accepts sampleHash s (sampleHash [1]) [3] ∧ Accepts sampleHash s (sampleHash [2]) [3] ∧
      Accepts sampleHash s 99 [3] := by
  have hinit : (machine sampleHash ⟨0, true⟩).init {} := rfl
  obtain ⟨tr, s, hrun, hok⟩ := Machine.exists_run_of_replay hinit twoMessages
    (fun tr s => (tr.any fun e => e.ret = .id (sampleHash [1]) ∧
        e.call = .initiateMessage 0 1 7 8 [1]) ∧
      (tr.any fun e => e.ret = .id (sampleHash [2]) ∧ e.call = .initiateMessage 0 1 7 8 [2]) ∧
      (tr.all fun e => e.ret ≠ .id 99) ∧ acceptsBool s (sampleHash [1]) [3] ∧
      acceptsBool s (sampleHash [2]) [3] ∧ acceptsBool s 99 [3])
    (by decide) (by decide) (by decide)
  obtain ⟨h1, h2, hno, ha1, ha2, ha99⟩ := of_decide_eq_true hok
  have hfrom : ∀ m payload, (tr.any fun e => e.ret = .id m ∧
      e.call = .initiateMessage 0 1 7 8 payload) = true → InitiatedFrom tr 0 m := by
    intro m payload h
    obtain ⟨e, he, hm⟩ := List.any_eq_true.mp h
    obtain ⟨hret, hcall⟩ := of_decide_eq_true hm
    exact ⟨e, he, hret, 1, 7, 8, payload, hcall⟩
  refine ⟨tr, s, sampleHash_injective, hrun, hfrom _ _ h1, hfrom _ _ h2, by decide, ?_,
    accepts_of_acceptsBool ha1, accepts_of_acceptsBool ha2, accepts_of_acceptsBool ha99⟩
  rintro ⟨_, e, he, hret, -⟩
  exact of_decide_eq_true (List.all_eq_true.mp hno e he) hret

/-- After the same run a proof with another hash is accepted for neither message. -/
theorem proof_binding_other_proof :
    ∃ (tr : Trace Nat) (s : State Nat), Run (machine sampleHash ⟨0, true⟩) tr s ∧
      ¬ Opens sampleHash s [1] ∧
      (InitiatedFrom tr 0 (sampleHash [1]) → InitiatedFrom tr 0 (sampleHash [2]) →
        ¬ (Accepts sampleHash s (sampleHash [1]) [1] ∧
          Accepts sampleHash s (sampleHash [2]) [1])) := by
  have hinit : (machine sampleHash ⟨0, true⟩).init {} := rfl
  obtain ⟨tr, s, hrun, hok⟩ := Machine.exists_run_of_replay hinit twoMessages
    (fun _ s => s.lightClient = some ⟨1, 0, 10, sampleHash [3]⟩) (by decide) (by decide) (by decide)
  have hlc := of_decide_eq_true hok
  have hopens : ¬ Opens sampleHash s [1] := by
    rintro ⟨lc, hs, hroot⟩
    rw [hlc] at hs
    cases hs
    exact absurd hroot (by decide)
  refine ⟨tr, s, hrun, hopens, ?_⟩
  intro h1 h2
  exact ((proof_binding_iff hrun hrun rfl [1]).1 _ _ 0 (by decide) h1 h2).mpr (.inl hopens)

end Stellara.Router
