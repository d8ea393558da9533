import Stellara.Tcr.Interference

/-!
# The tallies of a challenge

    Throughout Counted tr ↔ Throughout Weighed tr                              (counted_iff)

`vote` adds a signed amount to the tally of a side and to the voter's stake.  `Counted` says of
a vote what one expects: a weight that is not negative is added to both, the other tally stays,
the side that was ahead because of its votes does not fall behind by one more, and the tallies
are what was cast.  It is so exactly along the runs whose votes have amounts that are not
negative and fit (`Weighed`): a vote of `-30` for a listing has it rejected.
-/

namespace Stellara.Tcr

open Outcome

/-! ## Tallies -/

/-- The tally of a side. -/
def Challenge.tally (ch : Challenge) : Bool → Int
  | true => ch.votesFor
  | false => ch.votesAgainst

/-- How `resolve` decides the challenge. -/
def Challenge.outcome (ch : Challenge) : ListingStatus :=
  if ch.votesAgainst < ch.votesFor then .approved else .rejected

/-- The outcome that the votes of a side are for. -/
def wanted : Bool → ListingStatus
  | true => .approved
  | false => .rejected

/-- The challenge under a number. -/
def State.challengeAt (s : State) (id : Nat) : Option Challenge :=
  match s.records.lookup id with
  | some (.challenge ch) => some ch
  | _ => none

/-- What a voter has on a challenge. -/
def State.stakeAt (s : State) (voter : Address) (id : Nat) : Int :=
  (s.stakes.lookup (voter, id)).getD 0

/-- What was cast for a side of the challenge since it was made. -/
def cast (id : Nat) (side : Bool) : Trace → Int
  | [] => 0
  | e :: tr =>
    match e.call, e.ret with
    | .vote _ id' side' amount, _ =>
      if id' = id ∧ side' = side then cast id side tr + amount else cast id side tr
    | .challenge .., .id id' => if id' = id then 0 else cast id side tr
    | _, _ => cast id side tr

/-- A vote of weight `weight` for `side`: it is added to the tally of the side and to the voter's
stake and turns nothing against the side. -/
structure VoteCounted (before after : State) (ch ch' : Challenge) (voter : Address) (id : Nat)
    (side : Bool) (weight : Int) : Prop where
  nonneg : 0 ≤ weight
  stake : after.stakeAt voter id = before.stakeAt voter id + weight
  tally : ch'.tally side = ch.tally side + weight
  other : ch'.tally (!side) = ch.tally (!side)
  outcome : ch.outcome = wanted side → ch'.outcome = wanted side

/-- **The property** of a call: if it is a vote, it is counted with some weight, and the tallies
are what was cast. -/
def Counted (e : Event Env Call Reply State) (tr : Trace) : Prop :=
  match e.call with
  | .vote voter id side _ =>
    ∀ ch, e.before.challengeAt id = some ch → ∃ ch', e.after.challengeAt id = some ch' ∧
      (∃ weight, VoteCounted e.before e.after ch ch' voter id side weight) ∧
      ∀ side, ch'.tally side = cast id side (e :: tr)
  | _ => True

/-- **The condition**: the amount is not negative, and adds up with the tally and the stake to an
`i128`. -/
def Weighed (e : Event Env Call Reply State) (_tr : Trace) : Prop :=
  match e.call with
  | .vote voter id side amount =>
    ∀ ch, e.before.challengeAt id = some ch →
      0 ≤ amount ∧ ch.tally side + amount ≤ i128Max ∧ e.before.stakeAt voter id + amount ≤ i128Max
  | _ => True

/-- The amount of a vote is an `i128`. -/
def AmountInRange (e : Event Env Call Reply State) : Prop :=
  match e.call with
  | .vote _ _ _ amount => InI128 amount
  | _ => True

instance weighedDecidable (e : Event Env Call Reply State) (tr : Trace) :
    Decidable (Weighed e tr) := by
  obtain ⟨env, call, ret, before, after⟩ := e
  induction call using Call.casesOn <;> unfold Weighed <;> infer_instance

instance amountInRangeDecidable (e : Event Env Call Reply State) :
    Decidable (AmountInRange e) := by
  obtain ⟨env, call, ret, before, after⟩ := e
  induction call using Call.casesOn <;> unfold AmountInRange <;> infer_instance

/-! ## What a call does to the tallies -/

section Calls

variable {env : Env} {s s' : State} {id : Nat}

theorem challengeAt_eq {ch : Challenge} :
    s.challengeAt id = some ch ↔ s.records.lookup id = some (.challenge ch) := by
  unfold State.challengeAt
  split <;> simp_all

/-- `resolve` decides by the outcome. -/
theorem resolve_outcome {listing : Listing} (h : resolve env s id = .ok s')
    (hlisting : s.records.lookup id = some (.listing listing))
    (hstatus : listing.status = .challenged) :
    ∃ ch, s.challengeAt listing.challengeId = some ch ∧
      s'.records.lookup id = some (.listing { listing with status := ch.outcome }) := by
  simp only [resolve, bind_eq_ok, getListing_ok] at h
  obtain ⟨listing', hlisting', h⟩ := h
  rw [hlisting] at hlisting'
  cases hlisting'
  rw [hstatus] at h
  simp only [bind_eq_ok, require_eq_ok, exists_unit_and, pure_eq_ok, getChallenge_ok] at h
  obtain ⟨ch, hch, -, -, rfl⟩ := h
  exact ⟨ch, challengeAt_eq.mpr hch, AList.lookup_insert _⟩

theorem countVote_ok {ch ch' : Challenge} {side : Bool} {amount : Int}
    (h : countVote env ch side amount = .ok ch') :
    (env.i128 (ch.tally side + amount) : Result Int) = .ok (ch'.tally side) ∧
      ch'.tally (!side) = ch.tally (!side) := by
  cases side <;>
    (simp only [countVote, Bool.false_eq_true, if_true, if_false, bind_eq_ok, pure_eq_ok] at h
     obtain ⟨votes, hvotes, rfl⟩ := h
     exact ⟨hvotes, rfl⟩)

theorem challengeAt_setListing (s : State) (id id' : Nat) (listing : Listing) :
    (setListing s id listing).challengeAt id' = if id' = id then none else s.challengeAt id' := by
  unfold State.challengeAt setListing
  rw [Store.lookup_insert_eq]
  by_cases hid : id' = id
  · rw [if_pos hid, if_pos hid]
  · rw [if_neg hid, if_neg hid]

theorem challengeAt_setChallenge (s : State) (id id' : Nat) (ch : Challenge) :
    (setChallenge s id ch).challengeAt id' = if id' = id then some ch else s.challengeAt id' := by
  unfold State.challengeAt setChallenge
  rw [Store.lookup_insert_eq]
  by_cases hid : id' = id
  · rw [if_pos hid, if_pos hid]
  · rw [if_neg hid, if_neg hid]

theorem resolve_stakes (h : resolve env s id = .ok s') : s'.stakes = s.stakes := by
  simp only [resolve, bind_eq_ok, getListing_ok] at h
  obtain ⟨listing, -, h⟩ := h
  split at h
  · simp only [bind_eq_ok, require_eq_ok, exists_unit_and, pure_eq_ok, getChallenge_ok] at h
    obtain ⟨_, -, -, -, rfl⟩ := h
    rfl
  · simp only [bind_eq_ok, require_eq_ok, exists_unit_and, pure_eq_ok] at h
    obtain ⟨-, rfl⟩ := h
    rfl
  · cases h
    rfl
  · cases h
    rfl

/-- Resolving changes no tally. -/
theorem resolve_tallies {ch : Challenge} {id' : Nat} (h : resolve env s id = .ok s')
    (hch : s'.challengeAt id' = some ch) :
    ∃ ch', s.challengeAt id' = some ch' ∧ ch.tally = ch'.tally := by
  have hlisting : ∀ listing, (setListing s id listing).challengeAt id' = some ch →
      s.challengeAt id' = some ch := by
    intro listing hch
    rw [challengeAt_setListing] at hch
    split at hch
    · cases hch
    · exact hch
  simp only [resolve, bind_eq_ok, getListing_ok] at h
  obtain ⟨listing, -, h⟩ := h
  split at h
  · simp only [bind_eq_ok, require_eq_ok, exists_unit_and, pure_eq_ok, getChallenge_ok] at h
    obtain ⟨ch0, hch0, -, -, rfl⟩ := h
    rw [challengeAt_setListing, challengeAt_setChallenge] at hch
    split at hch
    · cases hch
    · split at hch
      · next hid =>
        cases hch
        exact ⟨ch0, by rw [hid]; exact challengeAt_eq.mpr hch0, by funext side; cases side <;> rfl⟩
      · exact ⟨ch, hch, rfl⟩
  · simp only [bind_eq_ok, require_eq_ok, exists_unit_and, pure_eq_ok] at h
    obtain ⟨-, rfl⟩ := h
    exact ⟨ch, hlisting _ hch, rfl⟩
  · cases h
    exact ⟨ch, hch, rfl⟩
  · cases h
    exact ⟨ch, hch, rfl⟩

end Calls

/-! ## Along a run -/

/-- No tally and no stake is negative, and the tallies are what was cast. -/
structure Tallied (tr : Trace) (s : State) : Prop where
  tallies : ∀ id ch side, s.challengeAt id = some ch →
    0 ≤ ch.tally side ∧ ch.tally side ≤ i128Max ∧ ch.tally side = cast id side tr
  stakes : ∀ voter id, 0 ≤ s.stakeAt voter id ∧ s.stakeAt voter id ≤ i128Max

section Step

variable {tr : Trace} {env : Env} {call : Call} {r : Reply} {s s' : State} {voter : Address}
  {id : Nat} {side : Bool} {amount : Int}

/-- More votes for a side keep the outcome that it wants. -/
theorem outcome_kept {ch ch' : Challenge} (hnonneg : 0 ≤ amount)
    (htally : ch'.tally side = ch.tally side + amount)
    (hother : ch'.tally (!side) = ch.tally (!side)) (h : ch.outcome = wanted side) :
    ch'.outcome = wanted side := by
  unfold Challenge.outcome at h ⊢
  cases side with
  | true =>
    have htally : ch'.votesFor = ch.votesFor + amount := htally
    have hother : ch'.votesAgainst = ch.votesAgainst := hother
    have hahead : ch.votesAgainst < ch.votesFor := by
      by_contra hbehind
      rw [if_neg hbehind] at h
      cases h
    rw [if_pos (by omega)]
    rfl
  | false =>
    have htally : ch'.votesAgainst = ch.votesAgainst + amount := htally
    have hother : ch'.votesFor = ch.votesFor := hother
    have hbehind : ¬ ch.votesAgainst < ch.votesFor := by
      intro hahead
      rw [if_pos hahead] at h
      cases h
    rw [if_neg (by omega)]
    rfl

/-- What one vote casts. -/
theorem cast_vote (id' : Nat) (side' : Bool) :
    cast id' side' (⟨env, .vote voter id side amount, r, s, s'⟩ :: tr) =
      if id = id' ∧ side = side' then cast id' side' tr + amount else cast id' side' tr := rfl

/-- **One vote** is counted exactly if it is of an amount that is not negative and fits; then the
tallies are again what was cast. -/
theorem counted_vote (h : Tallied tr s) (hamount : InI128 amount)
    (hx : vote env s voter id side amount = .ok s') :
    (Counted ⟨env, .vote voter id side amount, r, s, s'⟩ tr ↔
      Weighed ⟨env, .vote voter id side amount, r, s, s'⟩ tr) ∧
    (Counted ⟨env, .vote voter id side amount, r, s, s'⟩ tr →
      Tallied (⟨env, .vote voter id side amount, r, s, s'⟩ :: tr) s') := by
  obtain ⟨ch, ch', hrecord, hcount, stake, hstake, hafter⟩ := vote_ok hx
  obtain ⟨htally, hother⟩ := countVote_ok hcount
  have hch : s.challengeAt id = some ch := challengeAt_eq.mpr hrecord
  have hchallenges : ∀ id', s'.challengeAt id' = if id' = id then some ch' else s.challengeAt id' := by
    intro id'
    rw [hafter]
    exact challengeAt_setChallenge s id id' ch'
  have hstakes : ∀ voter' id', s'.stakeAt voter' id' =
      if (voter', id') = (voter, id) then stake else s.stakeAt voter' id' := by
    intro voter' id'
    rw [hafter]
    show ((s.stakes.insert (voter, id) stake).lookup (voter', id')).getD 0 = _
    rw [Store.lookup_insert_eq]
    split <;> rfl
  have hch' : s'.challengeAt id = some ch' := by rw [hchallenges, if_pos rfl]
  have hstake' : s'.stakeAt voter id = stake := by rw [hstakes, if_pos rfl]
  obtain ⟨htally0, htallyMax, -⟩ := h.tallies id ch side hch
  obtain ⟨hstake0, hstakeMax⟩ := h.stakes voter id
  have hstake : (env.i128 (s.stakeAt voter id + amount) : Result Int) = .ok stake := hstake
  have hgrows := i128_grows_iff htally0 htallyMax hamount htally
  have hstakeGrows := i128_grows_iff hstake0 hstakeMax hamount hstake
  -- what a vote that meets the condition adds
  have hexact : 0 ≤ amount → ch.tally side + amount ≤ i128Max →
      s.stakeAt voter id + amount ≤ i128Max →
      ch'.tally side = ch.tally side + amount ∧ stake = s.stakeAt voter id + amount := by
    intro hpos hfits hstakeFits
    exact ⟨i128_exact htally (inI128_iff.mpr ⟨by omega, hfits⟩),
      i128_exact hstake (inI128_iff.mpr ⟨by omega, hstakeFits⟩)⟩
  have hcast : ch'.tally side = ch.tally side + amount → ∀ side', ch'.tally side' =
      cast id side' (⟨env, .vote voter id side amount, r, s, s'⟩ :: tr) := by
    intro hadded side'
    rw [cast_vote]
    by_cases hside : side = side'
    · rw [if_pos ⟨rfl, hside⟩, ← hside, hadded, (h.tallies id ch side hch).2.2]
    · have hside' : side' = !side := by
        cases side <;> cases side' <;> simp_all
      rw [if_neg (fun hboth => hside hboth.2), hside', hother, (h.tallies id ch _ hch).2.2]
  have hiff : Counted ⟨env, .vote voter id side amount, r, s, s'⟩ tr ↔
      Weighed ⟨env, .vote voter id side amount, r, s, s'⟩ tr := by
    constructor
    · intro hQ ch0 hch0
      obtain ⟨ch1, hch1, ⟨weight, hvote⟩, -⟩ := hQ ch0 hch0
      have hch0 : s.challengeAt id = some ch0 := hch0
      have hch1 : s'.challengeAt id = some ch1 := hch1
      rw [hch] at hch0
      rw [hch'] at hch1
      cases hch0
      cases hch1
      have hnonneg := hvote.nonneg
      have hadded : ch'.tally side = ch.tally side + weight := hvote.tally
      have hstaked : s'.stakeAt voter id = s.stakeAt voter id + weight := hvote.stake
      rw [hstake'] at hstaked
      have hgrown : ch.tally side ≤ ch'.tally side := by omega
      have hstakeGrown : s.stakeAt voter id ≤ stake := by omega
      exact ⟨(hgrows.mp hgrown).1, (hgrows.mp hgrown).2, (hstakeGrows.mp hstakeGrown).2⟩
    · intro hP ch0 hch0
      have hch0 : s.challengeAt id = some ch0 := hch0
      obtain ⟨hpos, hfits, hstakeFits⟩ := hP ch0 hch0
      rw [hch] at hch0
      cases hch0
      obtain ⟨hadded, hstaked⟩ := hexact hpos hfits hstakeFits
      refine ⟨ch', hch', ⟨amount, hpos, ?_, hadded, hother, outcome_kept hpos hadded hother⟩,
        hcast hadded⟩
      show s'.stakeAt voter id = s.stakeAt voter id + amount
      rw [hstake', hstaked]
  refine ⟨hiff, fun hQ => ?_⟩
  obtain ⟨hpos, hfits, hstakeFits⟩ := hiff.mp hQ ch hch
  obtain ⟨hadded, hstaked⟩ := hexact hpos hfits hstakeFits
  refine ⟨fun id' ch0 side' hch0 => ?_, fun voter' id' => ?_⟩
  · rw [hchallenges] at hch0
    by_cases hid : id' = id
    · rw [if_pos hid] at hch0
      cases hch0
      rw [hid, ← hcast hadded side']
      by_cases hside : side' = side
      · rw [hside, hadded]
        exact ⟨by omega, hfits, rfl⟩
      · have hside' : side' = !side := by
          cases side <;> cases side' <;> simp_all
        rw [hside', hother]
        obtain ⟨h0, hmax, -⟩ := h.tallies id ch (!side) hch
        exact ⟨h0, hmax, rfl⟩
    · rw [if_neg hid] at hch0
      rw [cast_vote, if_neg (fun hboth => hid hboth.1.symm)]
      exact h.tallies id' ch0 side' hch0
  · rw [hstakes]
    split
    · rw [hstaked]
      have hle : s.stakeAt voter id + amount ≤ i128Max := hstakeFits
      exact ⟨by omega, hle⟩
    · exact h.stakes voter' id'

/-- The other calls keep the tallies of the challenges they keep; a new challenge has none. -/
theorem Tallied.other (h : Tallied tr s) (hx : exec env call s = .ok (r, s'))
    (hvote : ∀ voter id side amount, call ≠ .vote voter id side amount) :
    Tallied (⟨env, call, r, s, s'⟩ :: tr) s' := by
  cases call with
  | apply applicant deposit metadata =>
    obtain ⟨n, hcall, rfl⟩ := replyId_ok.mp hx
    obtain ⟨listing, -, rfl, rfl⟩ := apply_ok hcall
    refine ⟨fun id ch side hch => ?_, h.stakes⟩
    have hch : (setListing s (s.listingCount + 1) listing).challengeAt id = some ch := hch
    rw [challengeAt_setListing] at hch
    split at hch
    · cases hch
    · exact h.tallies id ch side hch
  | challenge challenger listingId deposit =>
    obtain ⟨n, hcall, rfl⟩ := replyId_ok.mp hx
    obtain ⟨listing, ch', -, hfor, hagainst, rfl, rfl⟩ := challenge_ok hcall
    refine ⟨fun id ch side hch => ?_, h.stakes⟩
    have hch : (setChallenge (setListing s listingId { listing with
        status := .challenged, challengeId := s.challengeCount + 1 })
        (s.challengeCount + 1) ch').challengeAt id = some ch := hch
    rw [challengeAt_setChallenge, challengeAt_setListing] at hch
    show _ ∧ _ ∧ _ = if s.challengeCount + 1 = id then 0 else cast id side tr
    by_cases hid : id = s.challengeCount + 1
    · rw [if_pos hid] at hch
      cases hch
      have hzero : ch'.tally side = 0 := by cases side <;> assumption
      rw [if_pos hid.symm, hzero]
      exact ⟨le_rfl, zero_le_i128Max, rfl⟩
    · rw [if_neg hid] at hch
      rw [if_neg (Ne.symm hid)]
      split at hch
      · cases hch
      · exact h.tallies id ch side hch
  | vote voter id side amount => exact absurd rfl (hvote voter id side amount)
  | resolve listingId =>
    obtain ⟨hcall, rfl⟩ := done_ok.mp hx
    refine ⟨fun id ch side hch => ?_, ?_⟩
    · obtain ⟨ch', hch', heq⟩ := resolve_tallies hcall hch
      rw [heq]
      exact h.tallies id ch' side hch'
    · unfold State.stakeAt
      rw [resolve_stakes hcall]
      exact h.stakes

end Step

/-- **Votes are counted** along a run if and only if their amounts are not negative and fit. -/
theorem counted_iff {d : Deployment} {tr : Trace} {s : State} (h : Run (machine d) tr s)
    (hamounts : ∀ e ∈ tr, AmountInRange e) : Throughout Counted tr ↔ Throughout Weighed tr := by
  refine h.throughout_iff_of (I := Tallied) hamounts ?_ ?_
  · rintro s rfl
    exact ⟨fun id ch side hch => absurd (challengeAt_eq.mp hch) Store.lookup_empty_ne,
      fun voter id => ⟨le_rfl, zero_le_i128Max⟩⟩
  · intro tr env call r s s' _ _ _ htallied hx hamount
    cases call with
    | vote voter id side amount =>
      exact counted_vote htallied hamount (done_ok.mp hx).1
    | apply applicant deposit metadata =>
      exact ⟨Iff.rfl, fun _ => htallied.other hx (by simp)⟩
    | challenge challenger listingId deposit =>
      exact ⟨Iff.rfl, fun _ => htallied.other hx (by simp)⟩
    | resolve listingId =>
      exact ⟨Iff.rfl, fun _ => htallied.other hx (by simp)⟩

/-! ## Runs -/

/-- Account 3 challenges the second of two listings; 5 and 6 vote. -/
def votes (amount : Int) : List (Env × Call) :=
  [(callAt 0 [1], .apply 1 100 "a"), (callAt 0 [2], .apply 2 100 "b"),
    (callAt 10 [3], .challenge 3 2 100), (callAt 20 [5], .vote 5 1 true 10),
    (callAt 30 [6], .vote 6 1 true amount)]

theorem counted_two_votes :
    ∃ (tr : Trace) (s : State), Run (machine ⟨0, true⟩) tr s ∧
      (s.challengeAt 1).map Challenge.votesFor = some 14 ∧ Throughout Counted tr := by
  obtain ⟨tr, s, hrun, hok⟩ := Machine.exists_run_of_replay (m := machine ⟨0, true⟩) (s := {}) rfl
    (votes 4)
    (fun tr s => (s.challengeAt 1).map Challenge.votesFor = some 14 ∧
      (∀ e ∈ tr, AmountInRange e) ∧ Throughout Weighed tr)
    (by decide) (by decide) (by decide)
  obtain ⟨hfor, hamounts, hweighed⟩ := of_decide_eq_true hok
  exact ⟨tr, s, hrun, hfor, (counted_iff hrun hamounts).mpr hweighed⟩

/-- Account 6 votes `-30` for the listing: the tally falls from 10 to -20, and a listing that
was to be approved is rejected. -/
theorem vote_turns_outcome :
    ∃ (tr : Trace) (s s' : State), Run (machine ⟨0, true⟩) tr s ∧
      InI128 (-30) ∧ vote (callAt 30 [6]) s 6 1 true (-30) = .ok s' ∧
      (s.challengeAt 1).map Challenge.outcome = some .approved ∧
      (s'.challengeAt 1).map (fun ch => ch.tally true) = some (-20) ∧
      (s'.challengeAt 1).map Challenge.outcome = some .rejected := by
  obtain ⟨tr, s, hrun, hok⟩ := Machine.exists_run_of_replay (m := machine ⟨0, true⟩) (s := {}) rfl
    ((votes (-30)).take 4)
    (fun _ s => (s.challengeAt 1).map Challenge.outcome = some .approved ∧
      (vote (callAt 30 [6]) s 6 1 true (-30)).toOption.isSome ∧
      ∀ s', (vote (callAt 30 [6]) s 6 1 true (-30)).toOption = some s' →
        (s'.challengeAt 1).map (fun ch => ch.tally true) = some (-20) ∧
        (s'.challengeAt 1).map Challenge.outcome = some .rejected)
    (by decide) (by decide) (by decide)
  obtain ⟨hbefore, hdone, hafter⟩ := of_decide_eq_true hok
  obtain ⟨s', hx⟩ := Option.isSome_iff_exists.mp hdone
  exact ⟨tr, s, s', hrun, by decide, eq_ok_of_toOption hx, hbefore, hafter s' hx⟩

end Stellara.Tcr
