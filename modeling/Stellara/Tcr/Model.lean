import Stellara.Host

/-!
# The token-curated registry (`contracts/tcr/src/lib.rs`)

Listings and challenges are numbered by two counters and stored in the contract's instance
storage under the bare number, so a number is the key of one record of either kind.
Reading it as the other kind traps: the stored map has other fields.

`vote` moves no tokens; what a voter has put on a challenge is stored under
`(voter, challenge_id)`.
-/

namespace Stellara.Tcr

open Outcome

inductive ListingStatus
  | pending
  | challenged
  | approved
  | rejected
deriving DecidableEq, Repr

structure Listing where
  applicant : Address
  deposit : Int
  metadata : Symbol
  status : ListingStatus
  challengeId : Nat
  expiry : Nat
deriving DecidableEq, Repr

structure Challenge where
  challenger : Address
  listingId : Nat
  deposit : Int
  votesFor : Int
  votesAgainst : Int
  endTime : Nat
  resolved : Bool
deriving DecidableEq, Repr

/-- What is stored under a number. -/
inductive Record
  | listing (listing : Listing)
  | challenge (challenge : Challenge)
deriving DecidableEq, Repr

structure State where
  /-- the records under `u32` keys -/
  records : Store Nat Record := ∅
  /-- `L_COUNT` -/
  listingCount : Nat := 0
  /-- `C_COUNT` -/
  challengeCount : Nat := 0
  /-- the stakes under `(voter, challenge_id)` -/
  stakes : Store (Address × Nat) Int := ∅

/-- Every failure is a panic. -/
abbrev Result (α : Type) : Type := Except (Fault Empty) α

/-- `604800`, a week. -/
def period : Nat := 604800

/-- `get::<u32, Listing>(&id).expect("Listing not found")`. -/
def getListing (s : State) (id : Nat) : Result Listing :=
  match s.records.lookup id with
  | some (.listing listing) => .ok listing
  | some (.challenge _) => .error (.panic "conversion failed")
  | none => .error (.panic "Listing not found")

/-- `get::<u32, Challenge>(&id).expect("Challenge not found")`. -/
def getChallenge (s : State) (id : Nat) : Result Challenge :=
  match s.records.lookup id with
  | some (.challenge challenge) => .ok challenge
  | some (.listing _) => .error (.panic "conversion failed")
  | none => .error (.panic "Challenge not found")

def setListing (s : State) (id : Nat) (listing : Listing) : State :=
  { s with records := s.records.insert id (.listing listing) }

def setChallenge (s : State) (id : Nat) (challenge : Challenge) : State :=
  { s with records := s.records.insert id (.challenge challenge) }

def apply (env : Env) (s : State) (applicant : Address) (deposit : Int) (metadata : Symbol) :
    Result (Nat × State) := do
  env.requireAuth applicant
  let listingCount := s.listingCount + 1
  let expiry ← env.u64 (env.timestamp + period)
  let s := setListing s listingCount
    { applicant, deposit, metadata, status := .pending, challengeId := 0, expiry }
  pure (listingCount, { s with listingCount })

def challenge (env : Env) (s : State) (challenger : Address) (listingId : Nat) (deposit : Int) :
    Result (Nat × State) := do
  env.requireAuth challenger
  let listing ← getListing s listingId
  require (listing.status = .pending) (.panic "Cannot challenge non-pending listing")
  require (listing.deposit ≤ deposit) (.panic "Insufficient challenge deposit")
  let challengeCount := s.challengeCount + 1
  let endTime ← env.u64 (env.timestamp + period)
  let challenge : Challenge :=
    { challenger, listingId, deposit, votesFor := 0, votesAgainst := 0, endTime, resolved := false }
  let s := setListing s listingId
    { listing with status := .challenged, challengeId := challengeCount }
  let s := setChallenge s challengeCount challenge
  pure (challengeCount, { s with challengeCount })

/-- The challenge with the vote counted on its side. -/
def countVote (env : Env) (challenge : Challenge) (side : Bool) (amount : Int) : Result Challenge :=
  if side then do
    let votesFor ← env.i128 (challenge.votesFor + amount)
    pure { challenge with votesFor }
  else do
    let votesAgainst ← env.i128 (challenge.votesAgainst + amount)
    pure { challenge with votesAgainst }

def vote (env : Env) (s : State) (voter : Address) (challengeId : Nat) (side : Bool)
    (amount : Int) : Result State := do
  env.requireAuth voter
  let challenge ← getChallenge s challengeId
  require (challenge.resolved = false) (.panic "Challenge already resolved")
  require (env.timestamp < challenge.endTime) (.panic "Voting period ended")
  let challenge ← countVote env challenge side amount
  let s := setChallenge s challengeId challenge
  let currentStake := (s.stakes.lookup (voter, challengeId)).getD 0
  let stake ← env.i128 (currentStake + amount)
  pure { s with stakes := s.stakes.insert (voter, challengeId) stake }

/-- A listing that is neither challenged nor pending is left as it is. -/
def resolve (env : Env) (s : State) (listingId : Nat) : Result State := do
  let listing ← getListing s listingId
  match listing.status with
  | .challenged => do
    let challenge ← getChallenge s listing.challengeId
    require (challenge.endTime ≤ env.timestamp) (.panic "Voting period active")
    require (challenge.resolved = false) (.panic "Already resolved")
    let status := if challenge.votesAgainst < challenge.votesFor then .approved else .rejected
    let s := setChallenge s listing.challengeId { challenge with resolved := true }
    pure (setListing s listingId { listing with status })
  | .pending => do
    require (listing.expiry ≤ env.timestamp) (.panic "Challenge period active")
    pure (setListing s listingId { listing with status := .approved })
  | .approved | .rejected => pure s

/-! ## The contract as a machine -/

inductive Call
  | apply (applicant : Address) (deposit : Int) (metadata : Symbol)
  | challenge (challenger : Address) (listingId : Nat) (deposit : Int)
  | vote (voter : Address) (challengeId : Nat) (side : Bool) (amount : Int)
  | resolve (listingId : Nat)
deriving DecidableEq, Repr

inductive Reply
  | done
  | id (id : Nat)
deriving DecidableEq, Repr

def exec (env : Env) : Call → State → Result (Reply × State)
  | .apply applicant deposit metadata, s => do
    let (id, s) ← apply env s applicant deposit metadata
    pure (.id id, s)
  | .challenge challenger listingId deposit, s => do
    let (id, s) ← challenge env s challenger listingId deposit
    pure (.id id, s)
  | .vote voter challengeId side amount, s => do
    pure (.done, ← vote env s voter challengeId side amount)
  | .resolve listingId, s => do pure (.done, ← resolve env s listingId)

/-- Runs start with nothing stored. -/
def machine (d : Deployment) : Machine Env Call Reply (Fault Empty) State where
  init s := s = {}
  valid env _ := env.Of d
  clock env := env.timestamp
  exec env call s := exec env call s

instance (d : Deployment) (env : Env) (call : Call) : Decidable ((machine d).valid env call) :=
  inferInstanceAs (Decidable (_ ∧ _))

abbrev Trace : Type := List (Event Env Call Reply State)

theorem done_ok {x : Result State} {r : Reply} {s' : State} :
    (do pure (Reply.done, ← x) : Result (Reply × State)) = .ok (r, s') ↔
      x = .ok s' ∧ r = .done :=
  answer_eq_ok

theorem replyId_ok {x : Result (Nat × State)} {r : Reply} {s' : State} :
    (do let (id, s) ← x; pure (Reply.id id, s) : Result (Reply × State)) = .ok (r, s') ↔
      ∃ id, x = .ok (id, s') ∧ r = .id id :=
  answerWith_eq_ok

end Stellara.Tcr
