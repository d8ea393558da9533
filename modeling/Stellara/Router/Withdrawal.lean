import Mathlib.Data.Finset.Card
import Mathlib.Data.Finset.Dedup
import Mathlib.Tactic.Tauto
import Stellara.Router.Bridge

/-!
# What a withdrawal is accepted on

`valid sig hash v` says that the bytes `sig` are a signature of `hash` by the validator
`v`.  The bridge never asks: a withdrawal passes on the length of the list (`accepts_iff`)

    Accepts s … sigs  ↔  Ready s chain nonce ∧ threshold s ≤ sigs.length

Which validators are registered is read from the calls made so far (`Registered`); the
list in the storage has each of them once (`registry_run`).  `withdraw_authorized_iff`
says for which lists, and for which states whatever the list, acceptance nevertheless
implies enough signers.
-/

namespace Stellara.Bridge

open Outcome Router

variable {Digest : Type} {sha256 : Bytes → Digest} {toXdr : ScVal → Bytes} {d : Deployment}

abbrev Trace (Digest : Type) : Type := List (Event Env Call (Reply Digest) State)

/-- The validator was added, and not removed since. -/
def Registered (v : Address) : Trace Digest → Prop
  | [] => False
  | e :: tr =>
    match e.call with
    | .addValidator w => w = v ∨ Registered v tr
    | .removeValidator w => w ≠ v ∧ Registered v tr
    | _ => Registered v tr

/-- At least `n` different registered validators have `P`. -/
def Enough (tr : Trace Digest) (P : Address → Prop) (n : Nat) : Prop :=
  ∃ vs : Finset Address, n ≤ vs.card ∧ ∀ v ∈ vs, Registered v tr ∧ P v

/-- The list holds a valid signature of the hash by the validator. -/
def SignedBy (valid : Signature → Digest → Address → Prop) (sigs : List Signature) (hash : Digest)
    (v : Address) : Prop := ∃ sig ∈ sigs, valid sig hash v

/-- The configured threshold. -/
def threshold (s : State) : Nat := (s.config.map BridgeConfig.validatorThreshold).getD 0

/-- The withdrawal goes through. -/
def Accepts (sha256 : Bytes → Digest) (toXdr : ScVal → Bytes) (s : State) (to' asset : Address)
    (amount : Int) (sourceChain nonce : Nat) (sigs : List Signature) : Prop :=
  ∃ r s', withdraw sha256 toXdr s to' asset amount sourceChain nonce sigs = .ok (r, s')

/-- The bridge is set up and not paused, there are as many validators as the threshold asks
for, and the nonce is new. -/
def Ready (s : State) (sourceChain nonce : Nat) : Prop :=
  (∃ config, s.config = some config ∧ config.isPaused = false) ∧
    threshold s ≤ s.validators.length ∧ s.nonces.lookup (sourceChain, nonce) = none

/-- **Acceptance** looks at the number of entries only. -/
theorem accepts_iff {s : State} {to' asset : Address} {amount : Int} {sourceChain nonce : Nat}
    {sigs : List Signature} :
    Accepts sha256 toXdr s to' asset amount sourceChain nonce sigs ↔
      Ready s sourceChain nonce ∧ threshold s ≤ sigs.length := by
  unfold Accepts Ready threshold
  simp only [withdraw, getConfigInternal, verifyValidatorSignatures, bind_eq_ok, require_eq_ok,
    exists_unit_and, ofOption_eq_ok, pure_eq_ok]
  constructor
  · rintro ⟨r, s', config, hconfig, hpaused, ⟨hsigs, hvals⟩, hnonce, -⟩
    rw [hconfig]
    exact ⟨⟨⟨config, rfl, hpaused⟩, hvals, hnonce⟩, hsigs⟩
  · rintro ⟨⟨⟨config, hconfig, hpaused⟩, hvals, hnonce⟩, hsigs⟩
    rw [hconfig] at hvals hsigs
    exact ⟨_, _, config, hconfig, hpaused, ⟨hsigs, hvals⟩, hnonce, rfl⟩

/-! ## The registry -/

/-- The stored list holds every registered validator, once. -/
structure Registry (tr : Trace Digest) (s : State) : Prop where
  nodup : s.validators.Nodup
  mem : ∀ v, v ∈ s.validators ↔ Registered v tr

theorem Registry.keep {tr : Trace Digest} {s s' : State}
    {e : Event Env Call (Reply Digest) State} (h : Registry tr s)
    (hs : s'.validators = s.validators) (he : ∀ v, Registered v (e :: tr) ↔ Registered v tr) :
    Registry (e :: tr) s' := by
  refine ⟨by rw [hs]; exact h.nodup, ?_⟩
  intro v
  rw [hs, he]
  exact h.mem v

theorem done_ok {x : Result State} {r : Reply Digest} {s' : State} :
    done x = .ok (r, s') ↔ x = .ok s' ∧ r = .done := answer_eq_ok

theorem replyId_ok {x : Result (Digest × State)} {r : Reply Digest} {s' : State}
    (h : replyId x = .ok (r, s')) : ∃ id, x = .ok (id, s') ∧ r = .id id := answerWith_eq_ok.mp h

/-! ### The functions, taken apart -/

section Parts

variable {env : Env} {s s' : State}

theorem initBridge_ok {admin feeCollector : Address} {validatorThreshold chainId : Nat}
    (h : initBridge s admin feeCollector validatorThreshold chainId = .ok s') :
    s' = { s with config := some ⟨admin, feeCollector, false, validatorThreshold, chainId⟩ } := by
  simp only [initBridge, bind_eq_ok, require_eq_ok, exists_unit_and, pure_eq_ok] at h
  exact h.2.symm

/-- A deposit stores only what it takes of the limit. -/
theorem deposit_ok {sender asset recipient : Address} {amount : Int} {destChain : Nat} {id : Digest}
    (h : deposit sha256 toXdr env s sender asset amount destChain recipient = .ok (id, s')) :
    checkRateLimit env s asset amount = .ok s' := by
  simp only [deposit, bind_eq_ok, require_eq_ok, requireAuth_eq_ok, exists_unit_and, pure_eq_ok] at h
  obtain ⟨-, _, -, -, s1, hlimit, heq⟩ := h
  obtain ⟨-, rfl⟩ := Prod.mk.inj heq
  exact hlimit

theorem withdraw_ok {to' asset : Address} {amount : Int} {sourceChain nonce : Nat}
    {signatures : List Signature} {id : Digest}
    (h : withdraw sha256 toXdr s to' asset amount sourceChain nonce signatures = .ok (id, s')) :
    s' = { s with nonces := s.nonces.insert (sourceChain, nonce) true } := by
  simp only [withdraw, bind_eq_ok, require_eq_ok, exists_unit_and, pure_eq_ok] at h
  obtain ⟨_, -, -, -, -, heq⟩ := h
  exact (Prod.mk.inj heq).2.symm

theorem addValidator_ok {validator : Address} (h : addValidator env s validator = .ok s') :
    s' = if validator ∈ s.validators then s
      else { s with validators := s.validators ++ [validator] } := by
  simp only [addValidator, bind_eq_ok, pure_eq_ok] at h
  obtain ⟨_, -, rfl⟩ := h
  rfl

theorem removeValidator_ok {validator : Address} (h : removeValidator env s validator = .ok s') :
    s' = { s with validators := s.validators.filter fun v => v ≠ validator } := by
  simp only [removeValidator, bind_eq_ok, pure_eq_ok] at h
  obtain ⟨_, -, rfl⟩ := h
  rfl

theorem setRateLimit_ok {asset : Address} {limit : Int} {window : Nat}
    (h : setRateLimit env s asset limit window = .ok s') :
    s' = { s with rateLimits := s.rateLimits.insert asset ⟨limit, window, 0, env.timestamp⟩ } := by
  simp only [setRateLimit, bind_eq_ok, pure_eq_ok] at h
  obtain ⟨_, -, rfl⟩ := h
  rfl

theorem setPaused_ok {paused : Bool} (h : setPaused env s paused = .ok s') :
    ∃ config, s' = { s with config } := by
  simp only [setPaused, bind_eq_ok, pure_eq_ok] at h
  obtain ⟨_, -, rfl⟩ := h
  exact ⟨_, rfl⟩

end Parts

theorem checkRateLimit_validators {env : Env} {s s' : State} {asset : Address} {amount : Int}
    (h : checkRateLimit env s asset amount = .ok s') : s'.validators = s.validators := by
  unfold checkRateLimit at h
  split at h
  · cases h; rfl
  · simp only [bind_eq_ok, require_eq_ok, exists_unit_and, pure_eq_ok] at h
    obtain ⟨_, -, _, -, -, rfl⟩ := h
    rfl

theorem registry_step {tr : Trace Digest} {env : Env} {call : Call} {r : Reply Digest}
    {s s' : State} (h : Registry tr s)
    (hx : (machine sha256 toXdr d).exec env call s = .ok (r, s')) :
    Registry (⟨env, call, r, s, s'⟩ :: tr) s' := by
  cases call with
  | initBridge admin feeCollector validatorThreshold chainId =>
    obtain rfl := initBridge_ok (done_ok.mp hx).1
    exact h.keep rfl fun v => Iff.rfl
  | deposit sender asset amount destChain recipient =>
    obtain ⟨id, hcall, -⟩ := replyId_ok hx
    exact h.keep (checkRateLimit_validators (deposit_ok hcall)) fun v => Iff.rfl
  | withdraw to' asset amount sourceChain nonce sigs =>
    obtain ⟨id, hcall, -⟩ := replyId_ok hx
    obtain rfl := withdraw_ok hcall
    exact h.keep rfl fun v => Iff.rfl
  | addValidator w =>
    obtain rfl := addValidator_ok (done_ok.mp hx).1
    by_cases hw : w ∈ s.validators
    · rw [if_pos hw]
      refine ⟨h.nodup, ?_⟩
      intro v
      constructor
      · intro hv; exact .inr ((h.mem v).mp hv)
      · rintro (rfl | hv)
        · exact hw
        · exact (h.mem v).mpr hv
    · rw [if_neg hw]
      refine ⟨?_, ?_⟩
      · exact List.nodup_append.mpr ⟨h.nodup, List.nodup_singleton w, by
          intro a ha b hb; rw [List.mem_singleton.mp hb]; rintro rfl; exact hw ha⟩
      · intro v
        simp only [List.mem_append, List.mem_singleton, h.mem v, Registered]
        constructor
        · rintro (hv | rfl)
          · exact .inr hv
          · exact .inl rfl
        · rintro (rfl | hv)
          · exact .inr rfl
          · exact .inl hv
  | removeValidator w =>
    obtain rfl := removeValidator_ok (done_ok.mp hx).1
    refine ⟨h.nodup.filter _, ?_⟩
    intro v
    simp only [List.mem_filter, h.mem v, Registered]
    constructor
    · rintro ⟨hv, hne⟩; exact ⟨fun he => of_decide_eq_true hne he.symm, hv⟩
    · rintro ⟨hne, hv⟩; exact ⟨hv, decide_eq_true (Ne.symm hne)⟩
  | setRateLimit asset limit window =>
    obtain rfl := setRateLimit_ok (done_ok.mp hx).1
    exact h.keep rfl fun v => Iff.rfl
  | setPaused paused =>
    obtain ⟨config, rfl⟩ := setPaused_ok (done_ok.mp hx).1
    exact h.keep rfl fun v => Iff.rfl

theorem registry_run {tr : Trace Digest} {s : State} (h : Run (machine sha256 toXdr d) tr s) :
    Registry tr s := by
  refine h.invariant_trace ?_ ?_
  · rintro s rfl
    exact ⟨List.nodup_nil, fun v => by simp [Registered]⟩
  · intro tr env call r s s' _ _ hi hx
    exact registry_step hi hx

/-- The length of the stored list counts different validators. -/
theorem Registry.enough_iff {tr : Trace Digest} {s : State} (h : Registry tr s) (n : Nat) :
    Enough tr (fun _ => True) n ↔ n ≤ s.validators.length := by
  have hcard : s.validators.toFinset.card = s.validators.length :=
    List.toFinset_card_of_nodup h.nodup
  constructor
  · rintro ⟨vs, hn, hvs⟩
    have hsub : vs ⊆ s.validators.toFinset := by
      intro v hv
      exact List.mem_toFinset.mpr ((h.mem v).mpr (hvs v hv).1)
    have := Finset.card_le_card hsub
    omega
  · intro hn
    refine ⟨s.validators.toFinset, by omega, ?_⟩
    intro v hv
    exact ⟨(h.mem v).mp (List.mem_toFinset.mp hv), trivial⟩

/-! ## Authorisation -/

/-- The list holds valid signatures of the hash by as many different registered validators
as the threshold asks for. -/
def Authorized (valid : Signature → Digest → Address → Prop) (tr : Trace Digest) (s : State)
    (sigs : List Signature) (hash : Digest) : Prop :=
  Enough tr (SignedBy valid sigs hash) (threshold s)

/-- Some list of signatures can pass: the bridge is set up and not paused, as many different
validators are registered as the threshold asks for, and the nonce is new. -/
def Open (tr : Trace Digest) (s : State) (sourceChain nonce : Nat) : Prop :=
  (∃ config, s.config = some config ∧ config.isPaused = false) ∧
    Enough tr (fun _ => True) (threshold s) ∧ s.nonces.lookup (sourceChain, nonce) = none

theorem Registry.ready_iff {tr : Trace Digest} {s : State} (h : Registry tr s)
    (sourceChain nonce : Nat) : Ready s sourceChain nonce ↔ Open tr s sourceChain nonce := by
  unfold Ready Open
  rw [h.enough_iff]

theorem enough_zero (tr : Trace Digest) (P : Address → Prop) : Enough tr P 0 :=
  ⟨∅, by simp, by simp⟩

theorem not_enough_of_none {tr : Trace Digest} {P : Address → Prop} {n : Nat} (hn : n ≠ 0)
    (hP : ∀ v, ¬ P v) : ¬ Enough tr P n := by
  rintro ⟨vs, hcard, hvs⟩
  have hempty : vs = ∅ := Finset.eq_empty_of_forall_notMem fun v hv => hP v (hvs v hv).2
  rw [hempty, Finset.card_empty] at hcard
  omega

/-- Bytes that nobody signed with, as often as one likes, are nobody's signatures. -/
theorem not_signedBy_replicate {valid : Signature → Digest → Address → Prop} {junk : Signature}
    (hjunk : ∀ hash v, ¬ valid junk hash v) (n : Nat) (hash : Digest) (v : Address) :
    ¬ SignedBy valid (List.replicate n junk) hash v := by
  rintro ⟨sig, hsig, hv⟩
  rw [List.eq_of_mem_replicate hsig] at hv
  exact hjunk hash v hv

/-- **Withdrawal authorisation.**  Some bytes are nobody's signature (sixty-four bytes whose
second half is not a reduced scalar).  In every reachable state, for every withdrawal: a
given list is accepted only when authorised exactly if the state lets nothing pass, the list
is too short, or it is authorised; and that is so for all lists, and no list that was
rejected is turned into an accepted one without a further validator's signature, exactly if
the state lets nothing pass or the threshold is zero. -/
theorem withdraw_authorized_iff {tr : Trace Digest} {s : State}
    (h : Run (machine sha256 toXdr d) tr s) (valid : Signature → Digest → Address → Prop)
    (hjunk : ∃ junk, ∀ hash v, ¬ valid junk hash v) (to' asset : Address) (amount : Int)
    (sourceChain nonce : Nat) :
    let hash := messageHash sha256 toXdr to' asset amount sourceChain nonce
    let accepts := Accepts sha256 toXdr s to' asset amount sourceChain nonce
    (∀ sigs, (accepts sigs → Authorized valid tr s sigs hash) ↔
      ¬ Open tr s sourceChain nonce ∨ sigs.length < threshold s ∨
        Authorized valid tr s sigs hash) ∧
    (((∀ sigs, accepts sigs → Authorized valid tr s sigs hash) ∧
      ∀ sigs sigs', ¬ accepts sigs → accepts sigs' →
        ∃ v, Registered v tr ∧ SignedBy valid sigs' hash v ∧ ¬ SignedBy valid sigs hash v) ↔
      ¬ Open tr s sourceChain nonce ∨ threshold s = 0) := by
  intro hash accepts
  have hopen := (registry_run h).ready_iff sourceChain nonce
  have haccepts : ∀ sigs, accepts sigs ↔ Open tr s sourceChain nonce ∧ threshold s ≤ sigs.length := by
    intro sigs
    rw [← hopen]
    exact accepts_iff
  refine ⟨?_, ?_, ?_⟩
  · intro sigs
    rw [haccepts, ← not_le]
    tauto
  · rintro ⟨hall, -⟩
    by_cases hpass : Open tr s sourceChain nonce
    · right
      by_contra hzero
      -- as many entries of junk as the threshold asks for
      obtain ⟨junk, hjunk⟩ := hjunk
      have hacc := (haccepts (List.replicate (threshold s) junk)).mpr ⟨hpass, by simp⟩
      exact not_enough_of_none hzero (not_signedBy_replicate hjunk _ hash) (hall _ hacc)
    · exact .inl hpass
  · intro hcond
    have hzero : ∀ sigs, accepts sigs → threshold s = 0 := by
      intro sigs hacc
      rcases hcond with hshut | hz
      · exact absurd ((haccepts sigs).mp hacc).1 hshut
      · exact hz
    refine ⟨?_, ?_⟩
    · intro sigs hacc
      unfold Authorized
      rw [hzero sigs hacc]
      exact enough_zero _ _
    · intro sigs sigs' hrej hacc
      have hz := hzero sigs' hacc
      exact absurd ((haccepts sigs).mpr ⟨((haccepts sigs').mp hacc).1, by omega⟩) hrej

/-! ## Nobody signed -/

/-- `k` bytes, the most significant one first. -/
def bigEndian : Nat → Nat → Bytes
  | 0, _ => []
  | k + 1, n => Fin.ofNat 256 (n / 256 ^ k) :: bigEndian k n

/-- The XDR of the values; an address is a contract with that number as its id. -/
def sampleXdr : ScVal → Bytes
  | .u32 n => bigEndian 4 3 ++ bigEndian 4 n
  | .u64 n => bigEndian 4 5 ++ bigEndian 8 n
  | .i128 x => bigEndian 4 10 ++ bigEndian 16 (asU128 x)
  | .address a => bigEndian 4 18 ++ bigEndian 4 1 ++ bigEndian 32 a

/-- The SHA-256 value of the withdrawal of 500 below. -/
def sampleDigest (b : Bytes) : Nat :=
  if b = sampleXdr (.address 3) ++ sampleXdr (.address 4) ++ sampleXdr (.i128 500) ++
    sampleXdr (.u32 1) ++ sampleXdr (.u64 7) then
    0x07935b76bac646ff7f376e0840f2a4b1375769647f91fbecb80910c4d23dfb1c
  else 0

/-- Sixty-four times the same byte. -/
def fill (b : Fin 256) : Signature := Vector.replicate 64 b

/-- A signature scheme for the runs below: validator `v` signs with the byte `v`, and a zero
byte is no signature. -/
def sampleValid (sig : Signature) (_hash : Nat) (v : Address) : Prop := v ≠ 0 ∧ sig[0].val = v

theorem sampleValid_junk : ∃ junk, ∀ hash v, ¬ sampleValid junk hash v := by
  refine ⟨fill 0, ?_⟩
  rintro hash v ⟨hv, hbyte⟩
  exact hv (by simpa [fill] using hbyte.symm)

/-- Administrator 9 asks for two of the validators 5 and 6; calls are signed by `signers`. -/
def twoValidators : List (Env × Call) :=
  [(⟨⟨0, true⟩, 0, 1, []⟩, .initBridge 9 8 2 0), (⟨⟨0, true⟩, 1, 2, [9]⟩, .addValidator 5),
    (⟨⟨0, true⟩, 2, 3, [9]⟩, .addValidator 6)]

/-- `withdraw` succeeds. -/
def acceptsBool (s : State) (to' asset : Address) (amount : Int) (sourceChain nonce : Nat)
    (sigs : List Signature) : Bool :=
  (withdraw sampleDigest sampleXdr s to' asset amount sourceChain nonce sigs).toBool

theorem accepts_of_acceptsBool {s : State} {to' asset : Address} {amount : Int}
    {sourceChain nonce : Nat} {sigs : List Signature}
    (h : acceptsBool s to' asset amount sourceChain nonce sigs = true) :
    Accepts sampleDigest sampleXdr s to' asset amount sourceChain nonce sigs := by
  obtain ⟨r, hr⟩ := exists_of_toBool h
  exact ⟨r.1, r.2, hr⟩

/-- Two entries of zero bytes, which no validator signed, let a withdrawal of 500 through; one
entry alone is rejected. -/
theorem unsigned_withdrawal_accepted :
    ∃ (tr : Trace Nat) (s : State), Run (machine sampleDigest sampleXdr ⟨0, true⟩) tr s ∧
      threshold s = 2 ∧ Accepts sampleDigest sampleXdr s 3 4 500 1 7 [fill 0, fill 0] ∧
      ¬ Accepts sampleDigest sampleXdr s 3 4 500 1 7 [fill 0] ∧
      ¬ Authorized sampleValid tr s [fill 0, fill 0]
        (messageHash sampleDigest sampleXdr 3 4 500 1 7) := by
  have hinit : (machine sampleDigest sampleXdr ⟨0, true⟩).init {} := rfl
  obtain ⟨tr, s, hrun, hok⟩ := Machine.exists_run_of_replay hinit twoValidators
    (fun _ s => threshold s = 2 ∧ acceptsBool s 3 4 500 1 7 [fill 0, fill 0]) (by decide)
    (by decide) (by decide)
  obtain ⟨hthreshold, hacc⟩ := of_decide_eq_true hok
  refine ⟨tr, s, hrun, hthreshold, accepts_of_acceptsBool hacc, ?_, ?_⟩
  · rw [accepts_iff, hthreshold]
    rintro ⟨-, hlen⟩
    exact absurd hlen (by decide)
  · unfold Authorized
    rw [hthreshold]
    refine not_enough_of_none (by decide) ?_
    rintro v ⟨sig, hsig, hv, hbyte⟩
    have hfill : sig = fill 0 := by simpa using hsig
    subst hfill
    exact hv (by simpa [fill] using hbyte.symm)

/-- After the same calls a list that both validators signed is authorised. -/
theorem withdraw_authorized_two_signers :
    ∃ (tr : Trace Nat) (s : State), Run (machine sampleDigest sampleXdr ⟨0, true⟩) tr s ∧
      Accepts sampleDigest sampleXdr s 3 4 500 1 7 [fill 5, fill 6] ∧
      Authorized sampleValid tr s [fill 5, fill 6]
        (messageHash sampleDigest sampleXdr 3 4 500 1 7) := by
  have hinit : (machine sampleDigest sampleXdr ⟨0, true⟩).init {} := rfl
  obtain ⟨tr, s, hrun, hok⟩ := Machine.exists_run_of_replay hinit twoValidators
    (fun _ s => threshold s = 2 ∧ s.validators = [5, 6] ∧
      acceptsBool s 3 4 500 1 7 [fill 5, fill 6]) (by decide) (by decide) (by decide)
  obtain ⟨hthreshold, hvals, hok⟩ := of_decide_eq_true hok
  have hacc := accepts_of_acceptsBool hok
  refine ⟨tr, s, hrun, hacc, ?_⟩
  refine ((withdraw_authorized_iff hrun sampleValid sampleValid_junk 3 4 500 1 7).1
    [fill 5, fill 6]).mpr (.inr (.inr ?_)) hacc
  unfold Authorized
  rw [hthreshold]
  refine ⟨{5, 6}, by decide, ?_⟩
  have hreg : ∀ v ∈ s.validators, Registered v tr := fun v hv => ((registry_run hrun).mem v).mp hv
  rw [hvals] at hreg
  intro v hv
  rcases Finset.mem_insert.mp hv with rfl | hv
  · exact ⟨hreg 5 (by simp), fill 5, by simp, by decide, rfl⟩
  · rw [Finset.mem_singleton.mp hv]
    exact ⟨hreg 6 (by simp), fill 6, by simp, by decide, rfl⟩

end Stellara.Bridge
