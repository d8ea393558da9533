import Stellara.Shared.Guards

/-!
# The last nonce and the greatest one (`shared/src/nonce.rs`)

`record_and_verify` accepts every nonce that was not recorded yet and appends it to one list for
all chains.  `get_last_nonce` goes through the list and ends with the nonce that was recorded
last, in a variable called `max_nonce`:

    Throughout (fun e tr => Monotone (e :: tr) e.after) tr ↔ Throughout Increasing tr
                                                                        (monotone_iff)

so that it is the greatest nonce in every state of a run exactly if every recording exceeds
those of its chain before it, which is what `enforce_sequential_nonce` is there to check.
-/

namespace Stellara.NonceManager

open Outcome

variable {ε : Type}

/-! ## One recording -/

/-- No record is left unused: `record_and_verify` only ever adds used ones. -/
def AllUsed (records : List NonceRecord) : Prop := ∀ r ∈ records, r.used = true

/-- With all records used, a nonce that is accepted is a new one and goes to the end. -/
theorem useNonce_ok {chainId nonce : Nat} {records records' : List NonceRecord}
    (hall : AllUsed records)
    (h : (useNonce chainId nonce records : Except (Fault ε) _) = .ok records') :
    records' = records ++ [⟨chainId, nonce, true⟩] ∧
      ∀ r ∈ records, ¬ (r.chainId = chainId ∧ r.nonce = nonce) := by
  induction records generalizing records' with
  | nil => exact ⟨(Except.ok.inj h).symm, by simp⟩
  | cons r rs ih =>
    have hr : r.used = true := hall r List.mem_cons_self
    have hrs : AllUsed rs := fun r' hr' => hall r' (List.mem_cons_of_mem _ hr')
    unfold useNonce at h
    split at h
    · simp only [bind_eq_ok, require_eq_ok, exists_unit_and] at h
      rw [hr] at h
      cases h.1
    · next hnew =>
      simp only [bind_eq_ok, pure_eq_ok] at h
      obtain ⟨rs', hrs', rfl⟩ := h
      obtain ⟨heq, hothers⟩ := ih hrs hrs'
      exact ⟨by rw [heq]; rfl, List.forall_mem_cons.mpr ⟨hnew, hothers⟩⟩

theorem recordAndVerify_ok {n n' : State} {chainId nonce : Nat} (hall : AllUsed n.nonces)
    (h : (recordAndVerify n chainId nonce : Except (Fault ε) _) = .ok n') :
    n'.nonces = n.nonces ++ [⟨chainId, nonce, true⟩] ∧
      ∀ r ∈ n.nonces, ¬ (r.chainId = chainId ∧ r.nonce = nonce) := by
  simp only [recordAndVerify, bind_eq_ok, require_eq_ok, exists_unit_and, pure_eq_ok] at h
  obtain ⟨-, records, hrec, rfl⟩ := h
  exact useNonce_ok hall hrec

theorem AllUsed.append {records : List NonceRecord} (hall : AllUsed records)
    (chainId nonce : Nat) : AllUsed (records ++ [⟨chainId, nonce, true⟩]) := by
  intro r hr
  rcases List.mem_append.mp hr with hr | hr
  · exact hall r hr
  · obtain rfl := List.mem_singleton.mp hr
    rfl

/-- The nonces of one chain, in the order of the list. -/
def noncesOf (chainId : Nat) (records : List NonceRecord) : List Nat :=
  (records.filter fun r => r.chainId = chainId).map NonceRecord.nonce

theorem noncesOf_append (chainId : Nat) (records : List NonceRecord) (r : NonceRecord) :
    noncesOf chainId (records ++ [r]) =
      if r.chainId = chainId then noncesOf chainId records ++ [r.nonce]
      else noncesOf chainId records := by
  unfold noncesOf
  rw [List.filter_append, List.map_append, List.filter_singleton]
  split <;> simp_all

/-- What `get_last_nonce` returns is the last nonce of the chain. -/
theorem getLastNonce_eq (n : State) (chainId : Nat) :
    getLastNonce n chainId = (noncesOf chainId n.nonces).getLast? := by
  unfold getLastNonce
  induction n.nonces using List.reverseRecOn with
  | nil => rfl
  | append_singleton records r ih =>
    rw [List.foldl_append, noncesOf_append, List.foldl_cons, List.foldl_nil, ih]
    split
    · rw [List.getLast?_concat]
    · rfl

/-- The same nonce a second time is out of order. -/
theorem enforce_again {n : State} {chainId nonce : Nat}
    (h : getLastNonce n chainId = some nonce) :
    (enforceSequentialNonce n chainId nonce : Except (Fault ε) Unit) =
      .error (.panic "NONCE_OUT_OF_ORDER") := by
  unfold enforceSequentialNonce
  rw [h]
  exact require_neg _ (lt_irrefl nonce)

theorem getLastNonce_append (n : State) (records : List NonceRecord)
    (chainId nonce : Nat) (used : Bool) (h : n.nonces = records ++ [⟨chainId, nonce, used⟩]) :
    getLastNonce n chainId = some nonce := by
  rw [getLastNonce_eq, h, noncesOf_append, if_pos rfl, List.getLast?_concat]

theorem enforce_eq_ok {n : State} {chainId nonce : Nat} {u : Unit} :
    (enforceSequentialNonce n chainId nonce : Except (Fault ε) Unit) = .ok u ↔
      ∀ last, getLastNonce n chainId = some last → last < nonce := by
  unfold enforceSequentialNonce
  cases getLastNonce n chainId with
  | none => simp
  | some last => simp

/-! ## Sequences of recordings -/

inductive Call
  | setChainId (chainId : Nat)
  | recordAndVerify (chainId nonce : Nat)
deriving DecidableEq, Repr

def exec : Call → State → Except (Fault Empty) (Unit × State)
  | .setChainId chainId, s => .ok ((), setChainId s chainId)
  | .recordAndVerify chainId nonce, s => do pure ((), ← recordAndVerify s chainId nonce)

/-- Successful calls in any order, from an empty list of nonces. -/
def machine : Machine Unit Call Unit (Fault Empty) State where
  init s := s.nonces = []
  valid _ _ := True
  clock _ := 0
  exec _ call s := exec call s

instance machineValid (env : Unit) (call : Call) : Decidable (machine.valid env call) :=
  inferInstanceAs (Decidable True)

abbrev Trace : Type := List (Event Unit Call Unit State)

/-- The nonces recorded for a chain, newest first. -/
def recorded (chainId : Nat) : Trace → List Nat
  | [] => []
  | e :: tr =>
    match e.call with
    | .recordAndVerify chain nonce =>
      if chain = chainId then nonce :: recorded chainId tr else recorded chainId tr
    | .setChainId _ => recorded chainId tr

/-- The last nonce of every chain is the greatest one recorded for it, and a nonce in sequence
is greater than all of them. -/
structure Monotone (tr : Trace) (s : State) : Prop where
  last : ∀ chainId, getLastNonce s chainId = (recorded chainId tr).max?
  sequential : ∀ chainId nonce,
    (enforceSequentialNonce s chainId nonce : Except (Fault Empty) Unit) = .ok () →
      ∀ earlier ∈ recorded chainId tr, earlier < nonce

/-- A recording exceeds all those of its chain before it. -/
def Increasing (e : Event Unit Call Unit State) (tr : Trace) : Prop :=
  match e.call with
  | .recordAndVerify chainId nonce => ∀ earlier ∈ recorded chainId tr, earlier < nonce
  | .setChainId _ => True

instance increasingDecidable (e : Event Unit Call Unit State) (tr : Trace) :
    Decidable (Increasing e tr) := by
  obtain ⟨env, call, ret, before, after⟩ := e
  induction call using Call.casesOn <;> unfold Increasing <;> infer_instance

/-- The list is what was recorded. -/
structure Kept (tr : Trace) (s : State) : Prop where
  used : AllUsed s.nonces
  nonces : ∀ chainId, noncesOf chainId s.nonces = (recorded chainId tr).reverse

section Step

variable {tr : Trace} {s s' : State} {env : Unit} {r : Unit}

theorem Kept.last (h : Kept tr s) (chainId : Nat) :
    getLastNonce s chainId = (recorded chainId tr).head? := by
  rw [getLastNonce_eq, h.nonces, List.getLast?_reverse]

/-- The second property follows from the first. -/
theorem monotone_of_last (h : ∀ chainId, getLastNonce s chainId = (recorded chainId tr).max?) :
    Monotone tr s := by
  refine ⟨h, fun chainId nonce hnonce earlier hmem => ?_⟩
  have hne : recorded chainId tr ≠ [] := List.ne_nil_of_mem hmem
  obtain ⟨last, hlast⟩ := Option.isSome_iff_exists.mp (List.isSome_max?_iff.mpr hne)
  have hlt : last < nonce := enforce_eq_ok.mp hnonce last ((h chainId).trans hlast)
  have hle : earlier ≤ last := (List.max?_eq_some_iff.mp hlast).2 earlier hmem
  omega

/-- A recording is appended, and was not made before. -/
theorem Kept.record {chainId nonce : Nat} (h : Kept tr s)
    (hx : (recordAndVerify s chainId nonce : Except (Fault Empty) State) = .ok s') :
    Kept (⟨env, .recordAndVerify chainId nonce, r, s, s'⟩ :: tr) s' ∧
      nonce ∉ recorded chainId tr := by
  obtain ⟨hnonces, hnew⟩ := recordAndVerify_ok h.used hx
  refine ⟨⟨?_, fun chain => ?_⟩, fun hmem => ?_⟩
  · rw [hnonces]
    exact h.used.append _ _
  · rw [hnonces, noncesOf_append, h.nonces chain]
    show _ = (if chainId = chain then nonce :: recorded chain tr else recorded chain tr).reverse
    split
    · rw [List.reverse_cons]
    · rfl
  · rw [← List.mem_reverse, ← h.nonces] at hmem
    obtain ⟨record, hrecord, heq⟩ := List.mem_map.mp hmem
    obtain ⟨hrecord, hchain⟩ := List.mem_filter.mp hrecord
    exact hnew record hrecord ⟨of_decide_eq_true hchain, heq⟩

/-- **One recording** leaves the greatest nonce last exactly if it exceeds the others. -/
theorem monotone_record {chainId nonce : Nat} (h : Kept tr s) (hmono : Monotone tr s)
    (hx : (recordAndVerify s chainId nonce : Except (Fault Empty) State) = .ok s') :
    Monotone (⟨env, .recordAndVerify chainId nonce, r, s, s'⟩ :: tr) s' ↔
      ∀ earlier ∈ recorded chainId tr, earlier < nonce := by
  obtain ⟨hkept, hnew⟩ : Kept (⟨env, .recordAndVerify chainId nonce, r, s, s'⟩ :: tr) s' ∧ _ :=
    h.record hx
  have hown : recorded chainId (⟨env, .recordAndVerify chainId nonce, r, s, s'⟩ :: tr) =
      nonce :: recorded chainId tr := if_pos rfl
  constructor
  · intro hmono' earlier hmem
    have hlast := hmono'.last chainId
    rw [hkept.last, hown, List.head?_cons] at hlast
    have hle : earlier ≤ nonce := (List.max?_eq_some_iff.mp hlast.symm).2 earlier
      (List.mem_cons_of_mem _ hmem)
    have hne : earlier ≠ nonce := fun heq => hnew (heq ▸ hmem)
    omega
  · intro hless
    refine monotone_of_last fun chain => ?_
    rw [hkept.last]
    by_cases hchain : chainId = chain
    · subst hchain
      rw [hown, List.head?_cons]
      refine (List.max?_eq_some_iff.mpr ⟨List.mem_cons_self, ?_⟩).symm
      rw [List.forall_mem_cons]
      exact ⟨le_rfl, fun earlier hmem => (hless earlier hmem).le⟩
    · have hother : recorded chain (⟨env, .recordAndVerify chainId nonce, r, s, s'⟩ :: tr) =
          recorded chain tr := if_neg hchain
      rw [hother, ← h.last, hmono.last]

end Step

/-- **The last nonce is the greatest** in every state of a run if and only if every recording
exceeds those of its chain before it. -/
theorem monotone_iff {tr : Trace} {s : State} (h : Run machine tr s) :
    Throughout (fun e tr => Monotone (e :: tr) e.after) tr ↔ Throughout Increasing tr := by
  refine h.throughout_iff (I := fun tr s => Kept tr s ∧ Monotone tr s) ?_ ?_
  · intro s hnil
    have hnil : s.nonces = [] := hnil
    have hkept : Kept [] s := by
      refine ⟨fun r hr => ?_, fun chainId => ?_⟩
      · rw [hnil] at hr
        cases hr
      · rw [hnil]
        rfl
    exact ⟨hkept, monotone_of_last hkept.last⟩
  · rintro tr env call r s s' _ _ _ ⟨hkept, hmono⟩ hx
    cases call with
    | setChainId chainId =>
      have hx : setChainId s chainId = s' := (Prod.mk.inj (Except.ok.inj hx)).2
      subst hx
      have hkept' : Kept (⟨env, .setChainId chainId, r, s, setChainId s chainId⟩ :: tr)
          (setChainId s chainId) := ⟨hkept.used, hkept.nonces⟩
      have hmono' : Monotone (⟨env, .setChainId chainId, r, s, setChainId s chainId⟩ :: tr)
          (setChainId s chainId) := ⟨hmono.last, hmono.sequential⟩
      exact ⟨⟨fun _ => trivial, fun _ => hmono'⟩, fun _ => ⟨hkept', hmono'⟩⟩
    | recordAndVerify chainId nonce =>
      have hx : recordAndVerify s chainId nonce = .ok s' := (answer_eq_ok.mp hx).1
      exact ⟨monotone_record hkept hmono hx, fun hQ => ⟨(hkept.record hx).1, hQ⟩⟩

/-- Two chains, each in order. -/
theorem monotone_two_chains :
    ∃ (tr : Trace) (s : State), Run machine tr s ∧ recorded 1 tr = [4, 2] ∧ recorded 2 tr = [3] ∧
      Throughout (fun e tr => Monotone (e :: tr) e.after) tr := by
  obtain ⟨tr, s, hrun, hok⟩ := Machine.exists_run_of_replay (m := machine) (s := {}) rfl
    [((), .recordAndVerify 1 2), ((), .recordAndVerify 2 3), ((), .recordAndVerify 1 4)]
    (fun tr _ => recorded 1 tr = [4, 2] ∧ recorded 2 tr = [3] ∧ Throughout Increasing tr)
    (by decide) (by decide) (by decide)
  obtain ⟨h1, h2, hinc⟩ := of_decide_eq_true hok
  exact ⟨tr, s, hrun, h1, h2, (monotone_iff hrun).mpr hinc⟩

/-- The nonces 5 and 3, recorded in this order: the last is 3, and 4 passes for a nonce in
sequence. -/
theorem last_nonce_falls :
    ∃ (tr : Trace) (s : State), Run machine tr s ∧ recorded 1 tr = [3, 5] ∧
      getLastNonce s 1 = some 3 ∧
      (enforceSequentialNonce s 1 4 : Except (Fault Empty) Unit) = .ok () := by
  obtain ⟨tr, s, hrun, hok⟩ := Machine.exists_run_of_replay (m := machine) (s := {}) rfl
    [((), .recordAndVerify 1 5), ((), .recordAndVerify 1 3)]
    (fun tr s => recorded 1 tr = [3, 5] ∧ getLastNonce s 1 = some 3)
    (by decide) (by decide) (by decide)
  obtain ⟨hrecorded, hlast⟩ := of_decide_eq_true hok
  refine ⟨tr, s, hrun, hrecorded, hlast, enforce_eq_ok.mpr fun last h => ?_⟩
  rw [hlast] at h
  cases h
  decide

end Stellara.NonceManager
