import Stellara.Tcr.Model

/-!
# Listings and challenges under one key

The counters of listings and of challenges both start at zero and count into the same
numbers.  `Separate` says what should hold after every call: listings stay readable and are
left alone by calls on other numbers, challenges stay bound to their listings, and a
challenged listing can be resolved once.

A challenge needs a listing, so number 1 is a listing when the first challenge is made, and
the challenge is stored over it (`first_challenge`).  `records_separate_iff`: the records are
separate along a run exactly if nothing is challenged.
-/

namespace Stellara.Tcr

open Outcome

/-! ## What the calls do -/

section Calls

variable {env : Env} {s s' : State}

theorem getListing_ok {id : Nat} {listing : Listing} :
    getListing s id = .ok listing ↔ s.records.lookup id = some (.listing listing) := by
  unfold getListing
  split <;> simp_all

theorem getChallenge_ok {id : Nat} {ch : Challenge} :
    getChallenge s id = .ok ch ↔ s.records.lookup id = some (.challenge ch) := by
  unfold getChallenge
  split <;> simp_all

theorem apply_ok {applicant : Address} {deposit : Int} {metadata : Symbol} {id : Nat}
    (h : apply env s applicant deposit metadata = .ok (id, s')) :
    ∃ listing : Listing, listing.status = .pending ∧ id = s.listingCount + 1 ∧
      s' = { s with records := s.records.insert id (.listing listing), listingCount := id } := by
  simp only [apply, bind_eq_ok, pure_eq_ok, exists_unit_and, Prod.mk.injEq] at h
  obtain ⟨-, expiry, -, rfl, rfl⟩ := h
  exact ⟨_, rfl, rfl, rfl⟩

theorem challenge_ok {challenger : Address} {listingId : Nat} {deposit : Int} {id : Nat}
    (h : challenge env s challenger listingId deposit = .ok (id, s')) :
    ∃ (listing : Listing) (ch : Challenge), s.records.lookup listingId = some (.listing listing) ∧
      ch.votesFor = 0 ∧ ch.votesAgainst = 0 ∧ id = s.challengeCount + 1 ∧
      s' = { s with
        records := (s.records.insert listingId
          (.listing { listing with status := .challenged, challengeId := id })).insert id
            (.challenge ch),
        challengeCount := id } := by
  simp only [challenge, bind_eq_ok, pure_eq_ok, require_eq_ok, exists_unit_and, Prod.mk.injEq,
    getListing_ok] at h
  obtain ⟨-, listing, hlisting, -, -, endTime, -, rfl, rfl⟩ := h
  exact ⟨listing, _, hlisting, rfl, rfl, rfl, rfl⟩

/-- Only a stored challenge is voted on. -/
theorem vote_ok {voter : Address} {challengeId : Nat} {side : Bool} {amount : Int}
    (h : vote env s voter challengeId side amount = .ok s') :
    ∃ ch ch' : Challenge, s.records.lookup challengeId = some (.challenge ch) ∧
      countVote env ch side amount = .ok ch' ∧
      ∃ stake, (env.i128 ((s.stakes.lookup (voter, challengeId)).getD 0 + amount) : Result Int) =
          .ok stake ∧
        s' = { setChallenge s challengeId ch' with
          stakes := s.stakes.insert (voter, challengeId) stake } := by
  simp only [vote, bind_eq_ok, pure_eq_ok, require_eq_ok, exists_unit_and, getChallenge_ok] at h
  obtain ⟨-, ch, hch, -, -, ch', hcount, stake, hstake, rfl⟩ := h
  exact ⟨ch, ch', hch, hcount, stake, hstake, rfl⟩

/-- A listing that is not challenged is accepted or left as it is. -/
theorem resolve_ok {listingId : Nat} (h : resolve env s listingId = .ok s') :
    ∃ listing : Listing, s.records.lookup listingId = some (.listing listing) ∧
      (listing.status ≠ .challenged →
        s' = s ∨ s' = setListing s listingId { listing with status := .approved }) := by
  simp only [resolve, bind_eq_ok, getListing_ok] at h
  obtain ⟨listing, hlisting, h⟩ := h
  refine ⟨listing, hlisting, fun hstatus => ?_⟩
  split at h
  · next hc => exact absurd hc hstatus
  · simp only [bind_eq_ok, require_eq_ok, exists_unit_and, pure_eq_ok] at h
    exact .inr h.2.symm
  · exact .inl (Except.ok.inj h).symm
  · exact .inl (Except.ok.inj h).symm

end Calls

/-! ## Separate records -/

/-- `apply` has handed out the number. -/
def Listed (s : State) (id : Nat) : Prop := 0 < id ∧ id ≤ s.listingCount

/-- The listing that a call operates on. -/
def Call.listing : Call → Option Nat
  | .challenge _ listingId _ => some listingId
  | .resolve listingId => some listingId
  | .apply .. | .vote .. => none

/-- The challenge and its listing point at each other. -/
def Bound (s : State) (id : Nat) : Prop :=
  ∃ (ch : Challenge) (listing : Listing), getChallenge s id = .ok ch ∧
    getListing s ch.listingId = .ok listing ∧ listing.challengeId = id

/-- The first call to resolve the listing after the vote approves or rejects it, and later
ones change nothing. -/
def ResolvableOnce (s : State) (id : Nat) (listing : Listing) : Prop :=
  ∃ ch, getChallenge s listing.challengeId = .ok ch ∧ ch.listingId = id ∧
    ∀ env : Env, ch.endTime ≤ env.timestamp →
      ∃ (s' : State) (listing' : Listing), resolve env s id = .ok s' ∧
        getListing s' id = .ok listing' ∧
        (listing'.status = .approved ∨ listing'.status = .rejected) ∧
        ∀ env' : Env, resolve env' s' id = .ok s'

/-- **Listings and challenges do not interfere** in the call. -/
structure Separate (e : Event Env Call Reply State) : Prop where
  readable : ∀ id, Listed e.after id → ∃ listing, getListing e.after id = .ok listing
  untouched : ∀ id, Listed e.before id → e.call.listing ≠ some id →
    getListing e.after id = getListing e.before id
  bound : ∀ id, 0 < id → id ≤ e.after.challengeCount → Bound e.after id
  rebound : ∀ id ch, getChallenge e.before id = .ok ch →
    ∃ ch', getChallenge e.after id = .ok ch' ∧ ch'.listingId = ch.listingId
  resolvable : ∀ id listing, getListing e.after id = .ok listing →
    listing.status = .challenged → ResolvableOnce e.after id listing

/-! ## Runs without a challenge -/

def Call.isChallenge : Call → Bool
  | .challenge .. => true
  | .apply .. | .vote .. | .resolve _ => false

/-- Every record is a listing that nobody has challenged. -/
structure Unchallenged (s : State) : Prop where
  none : s.challengeCount = 0
  listing : ∀ id record, s.records.lookup id = some record → ∃ listing : Listing,
    record = .listing listing ∧ listing.status ≠ .challenged ∧ Listed s id
  listed : ∀ id, Listed s id → ∃ listing : Listing, s.records.lookup id = some (.listing listing)

variable {d : Deployment} {env : Env} {call : Call} {r : Reply} {s s' : State}

theorem unchallenged_start : Unchallenged {} where
  none := rfl
  listing _ _ h := absurd h Store.lookup_empty_ne
  listed id h := by
    obtain ⟨h0, h1⟩ := h
    have : id ≤ 0 := h1
    omega

/-- Nothing is stored under the number as a challenge. -/
theorem Unchallenged.no_challenge (h : Unchallenged s) {id : Nat} {ch : Challenge} :
    s.records.lookup id ≠ some (.challenge ch) := by
  intro hch
  obtain ⟨listing, heq, -⟩ := h.listing id _ hch
  cases heq

/-- A listing that nobody has challenged is written under one number. -/
theorem Unchallenged.write {id : Nat} {listing : Listing} (h : Unchallenged s)
    (hcount : s'.challengeCount = s.challengeCount)
    (hrecords : s'.records = s.records.insert id (.listing listing))
    (hstatus : listing.status ≠ .challenged)
    (hlisted : ∀ k, Listed s' k ↔ k = id ∨ Listed s k) : Unchallenged s' := by
  refine ⟨hcount.trans h.none, ?_, ?_⟩
  · intro k record hk
    rw [hrecords, Store.lookup_insert_eq] at hk
    split at hk
    · next heq =>
      cases hk
      exact ⟨listing, rfl, hstatus, (hlisted k).mpr (.inl heq)⟩
    · obtain ⟨old, rfl, hold, hk⟩ := h.listing k record hk
      exact ⟨old, rfl, hold, (hlisted k).mpr (.inr hk)⟩
  · intro k hk
    rw [hrecords, Store.lookup_insert_eq]
    split
    · exact ⟨listing, rfl⟩
    · next hne => exact h.listed k (((hlisted k).mp hk).resolve_left hne)

theorem Unchallenged.apply {applicant : Address} {deposit : Int} {metadata : Symbol} {id : Nat}
    (h : Unchallenged s) (hx : apply env s applicant deposit metadata = .ok (id, s')) :
    Unchallenged s' := by
  obtain ⟨listing, hstatus, rfl, rfl⟩ := apply_ok hx
  refine h.write rfl rfl (by rw [hstatus]; decide) fun k => ?_
  show 0 < k ∧ k ≤ s.listingCount + 1 ↔ _
  unfold Listed
  omega

theorem Unchallenged.resolve {id : Nat} (h : Unchallenged s) (hx : resolve env s id = .ok s') :
    Unchallenged s' := by
  obtain ⟨listing, hlisting, hs⟩ := resolve_ok hx
  obtain ⟨_, ⟨⟩, hstatus, hlisted⟩ := h.listing id _ hlisting
  rcases hs hstatus with rfl | rfl
  · exact h
  · refine h.write rfl rfl nofun fun k => ?_
    constructor
    · exact .inr
    · rintro (rfl | hk)
      · exact hlisted
      · exact hk

/-- A call on one number leaves the records under the others. -/
theorem records_untouched (h : Unchallenged s) (hx : exec env call s = .ok (r, s'))
    (hcall : call.isChallenge = false) {id : Nat} (hid : Listed s id)
    (hne : call.listing ≠ some id) : s'.records.lookup id = s.records.lookup id := by
  cases call with
  | apply applicant deposit metadata =>
    obtain ⟨n, hcall, rfl⟩ := replyId_ok.mp hx
    obtain ⟨listing, -, rfl, rfl⟩ := apply_ok hcall
    have hne : id ≠ s.listingCount + 1 := by
      have := hid.2
      omega
    show (s.records.insert _ _).lookup id = _
    rw [Store.lookup_insert_eq, if_neg hne]
  | challenge challenger listingId deposit => cases hcall
  | vote voter challengeId side amount =>
    obtain ⟨hcall, -⟩ := done_ok.mp hx
    obtain ⟨ch, -, hch, -⟩ := vote_ok hcall
    exact absurd hch h.no_challenge
  | resolve listingId =>
    obtain ⟨hcall, -⟩ := done_ok.mp hx
    obtain ⟨listing, hlisting, hs⟩ := resolve_ok hcall
    obtain ⟨_, ⟨⟩, hstatus, -⟩ := h.listing listingId _ hlisting
    have hne : id ≠ listingId := fun heq => hne (by rw [heq]; rfl)
    rcases hs hstatus with rfl | rfl
    · rfl
    · show (s.records.insert _ _).lookup id = _
      rw [Store.lookup_insert_eq, if_neg hne]

theorem unchallenged_step (h : Unchallenged s) (hx : exec env call s = .ok (r, s'))
    (hcall : call.isChallenge = false) : Unchallenged s' := by
  cases call with
  | apply applicant deposit metadata =>
    obtain ⟨n, hcall, -⟩ := replyId_ok.mp hx
    exact h.apply hcall
  | challenge challenger listingId deposit => cases hcall
  | vote voter challengeId side amount =>
    obtain ⟨hcall, -⟩ := done_ok.mp hx
    obtain ⟨ch, -, hch, -⟩ := vote_ok hcall
    exact absurd hch h.no_challenge
  | resolve listingId =>
    obtain ⟨hcall, -⟩ := done_ok.mp hx
    exact h.resolve hcall

theorem separate_of_unchallenged (h : Unchallenged s) (hx : exec env call s = .ok (r, s'))
    (hcall : call.isChallenge = false) : Separate ⟨env, call, r, s, s'⟩ := by
  have h' := unchallenged_step h hx hcall
  refine ⟨?_, ?_, ?_, ?_, ?_⟩
  · intro id hid
    obtain ⟨listing, hlisting⟩ := h'.listed id hid
    exact ⟨listing, getListing_ok.mpr hlisting⟩
  · intro id hid hne
    show getListing s' id = getListing s id
    unfold getListing
    rw [records_untouched h hx hcall hid hne]
  · intro id h0 h1
    have hnone : s'.challengeCount = 0 := h'.none
    have h1 : id ≤ s'.challengeCount := h1
    omega
  · intro id ch hch
    exact absurd (getChallenge_ok.mp hch) h.no_challenge
  · intro id listing hlisting hstatus
    obtain ⟨_, ⟨⟩, hne, -⟩ := h'.listing id _ (getListing_ok.mp hlisting)
    exact absurd hstatus hne

/-! ## The first challenge -/

/-- The first challenge is stored over the first listing. -/
theorem first_challenge {challenger : Address} {listingId : Nat} {deposit : Int} {id : Nat}
    (h : Unchallenged s) (hx : challenge env s challenger listingId deposit = .ok (id, s')) :
    Listed s' 1 ∧ ∃ ch, s'.records.lookup 1 = some (.challenge ch) := by
  obtain ⟨listing, ch, hlisting, -, -, rfl, rfl⟩ := challenge_ok hx
  obtain ⟨_, ⟨⟩, -, h0, h1⟩ := h.listing listingId _ hlisting
  refine ⟨⟨Nat.one_pos, ?_⟩, ch, ?_⟩
  · show 1 ≤ s.listingCount
    omega
  · show (AList.insert (s.challengeCount + 1) _ _).lookup 1 = _
    rw [h.none]
    exact AList.lookup_insert _

theorem not_separate_of_challenge (h : Unchallenged s) (hx : exec env call s = .ok (r, s'))
    (hcall : call.isChallenge = true) : ¬ Separate ⟨env, call, r, s, s'⟩ := by
  intro hsep
  cases call with
  | challenge challenger listingId deposit =>
    obtain ⟨n, hcall, -⟩ := replyId_ok.mp hx
    obtain ⟨hlisted, ch, hch⟩ := first_challenge h hcall
    obtain ⟨listing, hlisting⟩ := hsep.readable 1 hlisted
    rw [getListing_ok, hch] at hlisting
    cases hlisting
  | apply applicant deposit metadata => cases hcall
  | vote voter challengeId side amount => cases hcall
  | resolve listingId => cases hcall

/-! ## Every run -/

/-- **Separate records.**  Along a run listings and challenges do not interfere if and only if
nothing is challenged. -/
theorem records_separate_iff {tr : Trace} (h : Run (machine d) tr s) :
    (∀ e ∈ tr, Separate e) ↔ ∀ e ∈ tr, e.call.isChallenge = false := by
  refine h.forall_event_iff (I := Unchallenged) ?_ ?_
  · rintro s rfl
    exact unchallenged_start
  · intro tr env call r s s' _ _ hI hx
    by_cases hcall : call.isChallenge = false
    · have hsep := separate_of_unchallenged hI hx hcall
      exact ⟨⟨fun _ => hcall, fun _ => hsep⟩, fun _ => unchallenged_step hI hx hcall⟩
    · have hsep := not_separate_of_challenge hI hx (by simpa using hcall)
      exact ⟨⟨fun hq => absurd hq hsep, fun hp => absurd hp hcall⟩, fun hq => absurd hq hsep⟩

/-- Contract 0; calls are signed by `signers`. -/
def callAt (t : Nat) (signers : List Address) : Env := ⟨⟨0, true⟩, t, 0, signers⟩

/-- User 1 applies, user 2 challenges the listing, and the vote is over. -/
def challenged : List (Env × Call) :=
  [(callAt 0 [1], .apply 1 10 "project"), (callAt 5 [2], .challenge 2 1 10)]

/-- The challenge has replaced the listing, which can no longer be resolved. -/
theorem listing_overwritten :
    ∃ (tr : Trace) (s : State), Run (machine ⟨0, true⟩) tr s ∧ (¬ ∀ e ∈ tr, Separate e) ∧
      resolve (callAt (5 + period) []) s 1 = .error (.panic "conversion failed") := by
  obtain ⟨tr, s, hrun, hok⟩ := Machine.exists_run_of_replay (m := machine ⟨0, true⟩) rfl challenged
    (fun tr s => (tr.any fun e => e.after.listingCount = 1 ∧
        failsWith (getListing e.after 1) (.panic "conversion failed")) ∧
      failsWith (resolve (callAt (5 + period) []) s 1) (.panic "conversion failed"))
    (by decide) (by decide) (by decide)
  obtain ⟨hlost, hresolve⟩ := of_decide_eq_true hok
  refine ⟨tr, s, hrun, fun hall => ?_, eq_of_failsWith hresolve⟩
  obtain ⟨e, he, hcheck⟩ := List.any_eq_true.mp hlost
  obtain ⟨hcount, hfails⟩ := of_decide_eq_true hcheck
  obtain ⟨listing, hlisting⟩ := (hall e he).readable 1 ⟨Nat.one_pos, hcount.ge⟩
  rw [eq_of_failsWith hfails] at hlisting
  cases hlisting

/-- Two listings, one of them accepted when its week is over. -/
theorem records_separate_two :
    ∃ (tr : Trace) (s : State), Run (machine ⟨0, true⟩) tr s ∧ s.listingCount = 2 ∧
      ∀ e ∈ tr, Separate e := by
  obtain ⟨tr, s, hrun, hok⟩ := Machine.exists_run_of_replay (m := machine ⟨0, true⟩) rfl
    [(callAt 0 [1], .apply 1 10 "project"), (callAt 5 [2], .apply 2 20 "wallet"),
      (callAt period [], .resolve 1)]
    (fun tr s => s.listingCount = 2 ∧ tr.all fun e => decide (e.call.isChallenge = false))
    (by decide) (by decide) (by decide)
  obtain ⟨hcount, hall⟩ := of_decide_eq_true hok
  refine ⟨tr, s, hrun, hcount, (records_separate_iff hrun).mpr ?_⟩
  intro e he
  exact of_decide_eq_true (List.all_eq_true.mp hall e he)

end Stellara.Tcr
