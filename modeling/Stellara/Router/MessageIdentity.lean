import Stellara.Router.ProofBinding

/-!
# Message identity

The id of a message is the hash of its payload.  `initiations` lists the messages that a
run initiated; the router stores all of them, in order (`Log.stored`).  The id is also what
a verification looks for, and it marks the first record that has it: two messages with one
payload share one id and one verification.

* `message_identity_iff`: distinct ids, no loss and one verification for each message hold
  in a reachable state exactly when no payload was sent twice.
-/

namespace Stellara.Router

open Outcome

variable {Digest : Type} [DecidableEq Digest] {sha256 : Bytes → Digest} {d : Deployment}

/-! ## The messages of a run -/

/-- The message that the call initiated. -/
def sentBy (e : Event Env (Call Digest) (Reply Digest) (State Digest)) : Option (Message Digest) :=
  match e.call, e.ret with
  | .initiateMessage sourceChain destChain sender recipient payload, .id id =>
    some ⟨id, sourceChain, destChain, sender, recipient, payload, e.env.sequence, 0, false⟩
  | _, _ => none

/-- The messages initiated so far, in the order of their initiation. -/
def initiations : Trace Digest → List (Message Digest)
  | [] => []
  | e :: tr => initiations tr ++ (sentBy e).toList

/-- The record as it was before any verification. -/
def Message.sent (msg : Message Digest) : Message Digest :=
  { msg with status := 0, processed := false }

/-- The record after its verification. -/
def Message.verified (msg : Message Digest) : Message Digest :=
  { msg with status := 2, processed := true }

/-- A verification of the id was successful when the message was already the record `i`. -/
def Verified (tr : Trace Digest) (i : Nat) (id : Digest) : Prop :=
  ∃ e ∈ tr, (∃ header proof, e.call = .verifyMessage id header proof) ∧ e.ret = .flag true ∧
    i < e.before.messages.length

/-- The first verification of the record `i` succeeds and marks this record, the next one is
rejected as a replay. -/
def VerifiableOnce (sha256 : Bytes → Digest) (tr : Trace Digest) (s : State Digest) (i : Nat) :
    Prop :=
  ∀ msg header proof, s.messages[i]? = some msg → Opens sha256 s proof →
    (¬ Verified tr i msg.id → ∃ s', verifyMessage sha256 s msg.id header proof = .ok (true, s') ∧
      s'.messages = s.messages.set i msg.verified) ∧
    (Verified tr i msg.id →
      verifyMessage sha256 s msg.id header proof = .error (.panic "REPLAY_DETECTED"))

/-! ## Marking -/

/-- The loop stops at the first record of the id. -/
theorem markVerified_split {m : Digest} {msg : Message Digest} {rest : List (Message Digest)}
    (hmsg : msg.id = m) (before : List (Message Digest)) (hbefore : ∀ x ∈ before, x.id ≠ m) :
    markVerified m (before ++ msg :: rest) =
      if msg.processed = false then .ok (before ++ msg.verified :: rest)
      else .error (.panic "REPLAY_DETECTED") := by
  induction before with
  | nil =>
    rw [List.nil_append, markVerified, if_pos hmsg]
    by_cases hp : msg.processed = false
    · rw [if_pos hp, require_pos _ hp]; rfl
    · rw [if_neg hp, require_neg _ hp]; rfl
  | cons b before ih =>
    rw [List.forall_mem_cons] at hbefore
    rw [List.cons_append, markVerified, if_neg hbefore.1, ih hbefore.2]
    split <;> rfl

/-- With distinct ids a record is the first one that has its id. -/
theorem markVerified_nodup {msgs : List (Message Digest)} (hnodup : (msgs.map Message.id).Nodup)
    {i : Nat} {msg : Message Digest} (hi : msgs[i]? = some msg) :
    markVerified msg.id msgs =
      if msg.processed = false then .ok (msgs.set i msg.verified)
      else .error (.panic "REPLAY_DETECTED") := by
  obtain ⟨hlt, hget⟩ := List.getElem?_eq_some_iff.mp hi
  have hsplit : msgs = msgs.take i ++ msg :: msgs.drop (i + 1) := by
    rw [← hget, List.cons_getElem_drop_succ, List.take_append_drop]
  have hset : msgs.set i msg.verified = msgs.take i ++ msg.verified :: msgs.drop (i + 1) :=
    List.set_eq_take_append_cons_drop ▸ by rw [if_pos hlt]
  have hbefore : ∀ x ∈ msgs.take i, x.id ≠ msg.id := by
    rw [hsplit, List.map_append, List.map_cons] at hnodup
    intro x hx heq
    have hdisj := (List.nodup_append.mp hnodup).2.2
    exact hdisj _ (List.mem_map_of_mem hx) _ List.mem_cons_self heq
  rw [hset]
  conv_lhs => rw [hsplit]
  exact markVerified_split rfl (msgs.take i) hbefore

theorem markVerified_sent {m : Digest} {msgs msgs' : List (Message Digest)}
    (h : markVerified m msgs = .ok msgs') : msgs'.map Message.sent = msgs.map Message.sent :=
  markVerified_map (fun _ => rfl) h

/-- Records with another id stay as they are. -/
theorem markVerified_other {m : Digest} {msgs : List (Message Digest)} {msg : Message Digest}
    (hmsg : msg.id ≠ m) :
    ∀ {msgs' : List (Message Digest)} {i : Nat}, markVerified m msgs = .ok msgs' →
      msgs[i]? = some msg → msgs'[i]? = some msg := by
  induction msgs with
  | nil => intro msgs' i _ hi; cases hi
  | cons x rest ih =>
    intro msgs' i h hi
    unfold markVerified at h
    split at h
    · next hx =>
      simp only [bind_eq_ok, require_eq_ok, exists_unit_and, pure_eq_ok] at h
      obtain ⟨-, rfl⟩ := h
      cases i with
      | zero => cases hi; exact absurd hx hmsg
      | succ i => exact hi
    · simp only [bind_eq_ok, pure_eq_ok] at h
      obtain ⟨rest', hrest, rfl⟩ := h
      cases i with
      | zero => exact hi
      | succ i =>
        show rest'[i]? = some msg
        exact ih hrest hi

/-! ## What the storage says about the run -/

/-- The stored records are the initiated messages, in order; an id is the hash of the payload;
and with distinct ids the flag of a record says whether the message was verified. -/
structure Log (sha256 : Bytes → Digest) (tr : Trace Digest) (s : State Digest) : Prop where
  idle : s.active = false
  stored : s.messages.map Message.sent = initiations tr
  ids : ∀ msg ∈ initiations tr, msg.id = sha256 msg.payload
  grown : ∀ e ∈ tr, e.before.messages.length ≤ s.messages.length
  flags : (s.messages.map Message.id).Nodup → ∀ i msg, s.messages[i]? = some msg →
    (msg.processed = true ↔ Verified tr i msg.id)

omit [DecidableEq Digest] in
theorem Log.ids_eq {tr : Trace Digest} {s : State Digest} (h : Log sha256 tr s) :
    s.messages.map Message.id = (initiations tr).map Message.id := by
  rw [← h.stored, List.map_map]
  rfl

omit [DecidableEq Digest] in
theorem verified_cons_iff {tr : Trace Digest}
    {e : Event Env (Call Digest) (Reply Digest) (State Digest)} {i : Nat} {id : Digest} :
    Verified (e :: tr) i id ↔
      ((∃ header proof, e.call = .verifyMessage id header proof) ∧ e.ret = .flag true ∧
        i < e.before.messages.length) ∨ Verified tr i id := by
  unfold Verified
  simp

omit [DecidableEq Digest] in
/-- A call that neither initiates nor successfully verifies changes nothing. -/
theorem Log.keep {tr : Trace Digest} {s s' : State Digest}
    {e : Event Env (Call Digest) (Reply Digest) (State Digest)} (h : Log sha256 tr s)
    (hidle : s'.active = false) (hmsgs : s'.messages = s.messages) (hbefore : e.before = s)
    (hsent : sentBy e = none)
    (hno : (∃ id header proof, e.call = .verifyMessage id header proof) → e.ret ≠ .flag true) :
    Log sha256 (e :: tr) s' := by
  have hinit : initiations (e :: tr) = initiations tr := by
    simp [initiations, hsent]
  refine ⟨hidle, ?_, ?_, ?_, ?_⟩
  · rw [hmsgs, hinit]; exact h.stored
  · rw [hinit]; exact h.ids
  · rw [hmsgs, List.forall_mem_cons, hbefore]
    exact ⟨le_refl _, h.grown⟩
  · rw [hmsgs]
    intro hnodup i msg hi
    rw [h.flags hnodup i msg hi, verified_cons_iff]
    constructor
    · intro hv; exact .inr hv
    · rintro (⟨⟨header, proof, hcall⟩, hret, -⟩ | hv)
      · exact absurd hret (hno ⟨msg.id, header, proof, hcall⟩)
      · exact hv

omit [DecidableEq Digest] in
/-- A new record goes to the end; nobody has verified it. -/
theorem Log.initiate {tr : Trace Digest} {s s' : State Digest}
    {e : Event Env (Call Digest) (Reply Digest) (State Digest)} {msg : Message Digest}
    (h : Log sha256 tr s) (hidle : s'.active = false) (hmsgs : s'.messages = s.messages ++ [msg])
    (hbefore : e.before = s) (hsent : sentBy e = some msg) (hid : msg.id = sha256 msg.payload)
    (hfresh : msg.sent = msg) (hno : ∀ id header proof, e.call ≠ .verifyMessage id header proof) :
    Log sha256 (e :: tr) s' := by
  have hinit : initiations (e :: tr) = initiations tr ++ [msg] := by
    simp [initiations, hsent]
  have hgrown : ∀ c ∈ e :: tr, c.before.messages.length ≤ s.messages.length := by
    rw [List.forall_mem_cons, hbefore]
    exact ⟨le_refl _, h.grown⟩
  have hverified : ∀ i id, Verified (e :: tr) i id ↔ Verified tr i id := by
    intro i id
    rw [verified_cons_iff]
    constructor
    · rintro (⟨⟨header, proof, hcall⟩, -⟩ | hv)
      · exact absurd hcall (hno id header proof)
      · exact hv
    · exact .inr
  refine ⟨hidle, ?_, ?_, ?_, ?_⟩
  · rw [hmsgs, hinit, List.map_append, h.stored, List.map_singleton, hfresh]
  · rw [hinit]
    intro x hx
    rcases List.mem_append.mp hx with hx | hx
    · exact h.ids x hx
    · rw [List.mem_singleton.mp hx]; exact hid
  · intro c hc
    have := hgrown c hc
    rw [hmsgs, List.length_append]
    omega
  · rw [hmsgs]
    intro hnodup i x hi
    rw [hverified]
    rw [List.map_append] at hnodup
    by_cases hlt : i < s.messages.length
    · rw [List.getElem?_append_left hlt] at hi
      exact h.flags (List.nodup_append.mp hnodup).1 i x hi
    · -- the new record: it was not there at any earlier call
      rw [List.getElem?_append_right (by omega)] at hi
      have hx : x = msg := by
        have := List.mem_of_getElem? hi
        simpa using this
      constructor
      · intro hp
        rw [hx, ← hfresh] at hp
        cases hp
      · rintro ⟨c, hc, -, -, hlen⟩
        have := h.grown c hc
        omega

/-- A successful verification marks the record of its id, if there is one. -/
theorem Log.verify {tr : Trace Digest} {s s' : State Digest} {m : Digest}
    {header : LightClientHeader Digest} {proof : Bytes} {msgs : List (Message Digest)} {env : Env}
    (h : Log sha256 tr s) (hidle : s'.active = false) (hmark : markVerified m s.messages = .ok msgs)
    (hmsgs : s'.messages = msgs) :
    Log sha256 (⟨env, .verifyMessage m header proof, .flag true, s, s'⟩ :: tr) s' := by
  have hlen : msgs.length = s.messages.length := by
    have := congrArg List.length (markVerified_sent hmark)
    simpa using this
  have hinit : initiations (⟨env, .verifyMessage m header proof, .flag true, s, s'⟩ :: tr) =
      initiations tr := by
    simp [initiations, sentBy]
  refine ⟨hidle, ?_, ?_, ?_, ?_⟩
  · rw [hmsgs, hinit, markVerified_sent hmark]; exact h.stored
  · rw [hinit]; exact h.ids
  · rw [hmsgs, hlen, List.forall_mem_cons]
    exact ⟨le_refl _, h.grown⟩
  · rw [hmsgs, markVerified_ids hmark]
    intro hnodup i x hi
    have hilt : i < s.messages.length := by
      rw [← hlen]; exact (List.getElem?_eq_some_iff.mp hi).1
    obtain ⟨old, hold⟩ : ∃ old, s.messages[i]? = some old := ⟨_, List.getElem?_eq_getElem hilt⟩
    have hid : x.id = old.id := by
      have hmap := congrArg (fun l => l[i]?) (markVerified_ids hmark)
      simpa [List.getElem?_map, hi, hold] using hmap
    rw [verified_cons_iff]
    by_cases hm : old.id = m
    · -- the record of the id: it was not marked before and is marked now
      have hmarked := markVerified_nodup hnodup hold
      rw [hm, hmark] at hmarked
      split at hmarked
      · have heq := Except.ok.inj hmarked
        rw [heq, List.getElem?_set_self hilt] at hi
        obtain rfl := Option.some.inj hi
        refine ⟨fun _ => .inl ⟨⟨header, proof, ?_⟩, rfl, hilt⟩, fun _ => rfl⟩
        rw [hid, hm]
      · cases hmarked
    · -- another record stays as it was
      rw [markVerified_other hm hmark hold] at hi
      obtain rfl := Option.some.inj hi
      rw [h.flags hnodup i old hold]
      constructor
      · exact .inr
      · rintro (⟨⟨header', proof', hcall⟩, -⟩ | hv)
        · injection hcall with hm'
          exact absurd hm'.symm hm
        · exact hv

theorem log_step {tr : Trace Digest} {env : Env} {call : Call Digest} {r : Reply Digest}
    {s s' : State Digest} (h : Log sha256 tr s)
    (hx : (machine sha256 d).exec env call s = .ok (r, s')) :
    Log sha256 (⟨env, call, r, s, s'⟩ :: tr) s' := by
  have hkeep : s'.active = false → s'.messages = s.messages →
      sentBy (⟨env, call, r, s, s'⟩ : Event Env (Call Digest) (Reply Digest) (State Digest)) = none →
      ((∃ id header proof, call = .verifyMessage id header proof) → r ≠ .flag true) →
      Log sha256 (⟨env, call, r, s, s'⟩ :: tr) s' := fun hidle hmsgs hsent hno =>
    h.keep hidle hmsgs rfl hsent hno
  cases call with
  | init admin =>
    cases hx
    exact hkeep h.idle rfl rfl (by rintro ⟨_, _, _, hc⟩; cases hc)
  | setChainId admin chainId =>
    obtain rfl := setChainId_ok (answer_eq_ok.mp hx).1
    exact hkeep h.idle rfl rfl (by rintro ⟨_, _, _, hc⟩; cases hc)
  | initiateMessage chain dest sender recipient payload =>
    obtain ⟨id, hcall, rfl⟩ := answerWith_eq_ok.mp hx
    obtain ⟨rfl, rfl⟩ := initiateMessage_ok hcall
    exact h.initiate rfl rfl rfl rfl rfl rfl (fun _ _ _ hc => by cases hc)
  | verifyMessage m header proof =>
    obtain ⟨b, hcall, rfl⟩ := answerWith_eq_ok.mp hx
    rcases verifyMessage_ok hcall with ⟨rfl, messages, hmark, rfl⟩ | ⟨rfl, rfl⟩
    · exact h.verify rfl hmark rfl
    · exact hkeep rfl rfl rfl (fun _ hc => by cases hc)
  | registerValidator validator amount =>
    obtain ⟨b, hcall, -⟩ := answerWith_eq_ok.mp hx
    have hsame : s'.active = false ∧ s'.messages = s.messages := by
      rcases registerValidator_ok hcall with ⟨-, rfl⟩ | ⟨-, rfl⟩
      · exact ⟨rfl, rfl⟩
      · exact ⟨rfl, rfl⟩
    exact hkeep hsame.1 hsame.2 rfl (by rintro ⟨_, _, _, hc⟩; cases hc)
  | slashValidator validator percentage =>
    obtain ⟨x, hcall, -⟩ := answerWith_eq_ok.mp hx
    obtain ⟨validators, -, rfl⟩ := slashValidator_ok hcall
    exact hkeep rfl rfl rfl (by rintro ⟨_, _, _, hc⟩; cases hc)
  | updateLightClient header =>
    obtain ⟨b, hcall, -⟩ := answerWith_eq_ok.mp hx
    obtain rfl := updateLightClient_ok hcall
    exact hkeep rfl rfl rfl (by rintro ⟨_, _, _, hc⟩; cases hc)

theorem log_run {tr : Trace Digest} {s : State Digest} (h : Run (machine sha256 d) tr s) :
    Log sha256 tr s := by
  refine h.invariant_trace ?_ ?_
  · rintro s rfl
    refine ⟨rfl, rfl, ?_, ?_, ?_⟩
    · intro msg hmsg; cases hmsg
    · intro e he; cases he
    · intro _ i msg hi; cases hi
  · intro tr env call r s s' _ _ hi hx
    exact log_step hi hx

/-! ## Identity -/

/-- What `verify_message` does when the proof opens the root. -/
theorem verifyMessage_of_opens {s : State Digest} {m : Digest} {header : LightClientHeader Digest}
    {proof : Bytes} (hidle : s.active = false) (hopens : Opens sha256 s proof) :
    verifyMessage sha256 s m header proof =
      (do let messages ← markVerified m s.messages
          pure (true, { s with messages, active := ReentrancyGuard.exit })) := by
  obtain ⟨lc, hlc, hroot⟩ := hopens
  have henter : (ReentrancyGuard.enter s.active : Result Bool) = .ok true := by
    rw [hidle]; rfl
  unfold verifyMessage
  rw [henter]
  simp only [ok_bind, hlc, if_pos hroot]

/-- Distinct ids let every record be verified once. -/
theorem Log.verifiableOnce {tr : Trace Digest} {s : State Digest} (h : Log sha256 tr s)
    (hnodup : (s.messages.map Message.id).Nodup) (i : Nat) : VerifiableOnce sha256 tr s i := by
  intro msg header proof hi hopens
  have hflag := h.flags hnodup i msg hi
  rw [verifyMessage_of_opens h.idle hopens, markVerified_nodup hnodup hi]
  constructor
  · intro hnot
    have hp : msg.processed = false := by
      by_contra hp
      exact hnot (hflag.mp (by simpa using hp))
    rw [if_pos hp]
    exact ⟨_, rfl, rfl⟩
  · intro hver
    rw [hflag.mpr hver]
    rfl

/-- **Message identity.**  In every reachable state the initiated messages have distinct ids,
all of them are stored as they were sent, and each can be verified exactly once, if and only
if no two of them have the same payload. -/
theorem message_identity_iff {tr : Trace Digest} {s : State Digest}
    (hsha : Function.Injective sha256) (h : Run (machine sha256 d) tr s) :
    (((initiations tr).map Message.id).Nodup ∧ s.messages.map Message.sent = initiations tr ∧
      ∀ i < s.messages.length, VerifiableOnce sha256 tr s i) ↔
      ((initiations tr).map Message.payload).Nodup := by
  have hlog := log_run h
  have hids : (initiations tr).map Message.id =
      ((initiations tr).map Message.payload).map sha256 := by
    rw [List.map_map]
    exact List.map_congr_left hlog.ids
  constructor
  · rintro ⟨hnodup, -, -⟩
    rw [hids] at hnodup
    exact hnodup.of_map _
  · intro hnodup
    have hdistinct : ((initiations tr).map Message.id).Nodup := by
      rw [hids]
      exact hnodup.map hsha
    refine ⟨hdistinct, hlog.stored, fun i _ => hlog.verifiableOnce ?_ i⟩
    rw [hlog.ids_eq]
    exact hdistinct

/-! ## One payload, two messages -/

/-- Accounts 7 and 8 send the payload `[1]` in different ledgers, from different chains, to
different recipients; then a light client comes in whose root is the hash of `[3]`, and the id
is verified. -/
def samePayload : List (Env × Call Nat) :=
  [(⟨⟨0, true⟩, 0, 1, [7]⟩, .initiateMessage 0 1 7 5 [1]),
    (⟨⟨0, true⟩, 5, 2, [8]⟩, .initiateMessage 2 3 8 6 [1]),
    (⟨⟨0, true⟩, 10, 3, []⟩, .updateLightClient ⟨1, 0, 10, sampleHash [3]⟩),
    (⟨⟨0, true⟩, 15, 4, []⟩, .verifyMessage (sampleHash [1]) ⟨0, 0, 0, 0⟩ [3])]

/-- Both messages get one id, and the second one, which was never verified, is rejected as a
replay of the first. -/
theorem second_message_rejected :
    ∃ (tr : Trace Nat) (s : State Nat) (first second : Message Nat),
      Run (machine sampleHash ⟨0, true⟩) tr s ∧ initiations tr = [first, second] ∧
      first.sender ≠ second.sender ∧ first.id = second.id ∧ Opens sampleHash s [3] ∧
      s.messages[1]? = some second ∧ second.processed = false ∧
      verifyMessage sampleHash s second.id ⟨0, 0, 0, 0⟩ [3] =
        .error (.panic "REPLAY_DETECTED") := by
  have hinit : (machine sampleHash ⟨0, true⟩).init {} := rfl
  obtain ⟨tr, s, hrun, hok⟩ := Machine.exists_run_of_replay hinit samePayload
    (fun tr s => initiations tr = [⟨sampleHash [1], 0, 1, 7, 5, [1], 1, 0, false⟩,
        ⟨sampleHash [1], 2, 3, 8, 6, [1], 2, 0, false⟩] ∧
      s.lightClient = some ⟨1, 0, 10, sampleHash [3]⟩ ∧
      s.messages[1]? = some ⟨sampleHash [1], 2, 3, 8, 6, [1], 2, 0, false⟩ ∧
      failsWith (verifyMessage sampleHash s (sampleHash [1]) ⟨0, 0, 0, 0⟩ [3])
        (.panic "REPLAY_DETECTED"))
    (by decide) (by decide) (by decide)
  obtain ⟨hlist, hlc, hsecond, hpanic⟩ := of_decide_eq_true hok
  exact ⟨tr, s, _, _, hrun, hlist, by decide, rfl, ⟨_, hlc, rfl⟩, hsecond, rfl,
    eq_of_failsWith hpanic⟩

/-- Two messages with different payloads are told apart. -/
theorem message_identity_two_payloads :
    ∃ (tr : Trace Nat) (s : State Nat), Run (machine sampleHash ⟨0, true⟩) tr s ∧
      (initiations tr).map Message.payload = [[1], [2]] ∧
      ((initiations tr).map Message.id).Nodup ∧
      ∀ i < s.messages.length, VerifiableOnce sampleHash tr s i := by
  have hinit : (machine sampleHash ⟨0, true⟩).init {} := rfl
  obtain ⟨tr, s, hrun, hok⟩ := Machine.exists_run_of_replay hinit twoMessages
    (fun tr _ => (initiations tr).map Message.payload = [[1], [2]]) (by decide) (by decide)
    (by decide)
  have hpayloads := of_decide_eq_true hok
  have hidentity := (message_identity_iff sampleHash_injective hrun).mpr (by rw [hpayloads]; decide)
  exact ⟨tr, s, hrun, hpayloads, hidentity.1, hidentity.2.2⟩

end Stellara.Router
