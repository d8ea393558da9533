import Stellara.Reserve.Model

/-!
# The daily cap on redemptions

    Run (machine d) tr s → processedOn day tr ≤ (getRedemptionConfig s).maxDailyRedemption
                                                                              (daily_cap)

The cap holds along every run of the contract because no redemption is ever processed: without
a list of requests none is accepted (`unlisted`).  It is not the check that keeps it:
`request_redemption` compares the cap with what has been processed of the requests made that
day, and nothing is compared when a request is processed.  Where the list of requests is
there, the cap holds along a run exactly if the comparison that is missing in
`process_redemption` would have come out well each time (`capped_iff`).
-/

namespace Stellara.Reserve

open Outcome Governance

/-! ## What was processed on a day -/

/-- The amount of the request that an id leads to. -/
def amountOf (s : State) (requestId : Nat) : Nat :=
  ((findRequest (s.redemptionRequests.getD []) requestId).map RedemptionRequest.amount).getD 0

/-- The amounts processed on the day that starts at `day`. -/
def processedOn (day : Nat) : Trace → Nat
  | [] => 0
  | e :: tr =>
    match e.call with
    | .processRedemption requestId =>
      (if startOfDay e.env.timestamp = day then amountOf e.before requestId else 0) +
        processedOn day tr
    | _ => processedOn day tr

theorem processedOn_other {env : CallEnv} {call : Call} {r : Reply} {s s' : State} (day : Nat)
    (tr : Trace) (h : ∀ id, call ≠ .processRedemption id) :
    processedOn day (⟨env, call, r, s, s'⟩ :: tr) = processedOn day tr := by
  cases call with
  | processRedemption id => exact absurd rfl (h id)
  | _ => rfl

/-- What a stored request says it has redeemed on a day. -/
def redeemedOn (day : Nat) (request : RedemptionRequest) : Nat :=
  match request.processedTime with
  | some time => if startOfDay time = day then request.amount else 0
  | none => 0

/-- What the stored requests say has been processed on a day. -/
def storedOn (day : Nat) (s : State) : Nat :=
  ((s.redemptionRequests.getD []).map (redeemedOn day)).sum

/-- What has been processed on the day of the call stays within the maximum in force. -/
def Capped (e : Event CallEnv Call Reply State) (tr : Trace) : Prop :=
  ∀ requestId, e.call = .processRedemption requestId →
    processedOn (startOfDay e.env.timestamp) (e :: tr) ≤
      (getRedemptionConfig e.before).maxDailyRedemption

/-- The comparison that `process_redemption` does not make: by the times stored with the
requests there is room for one more. -/
def Roomy (e : Event CallEnv Call Reply State) (_tr : Trace) : Prop :=
  ∀ requestId, e.call = .processRedemption requestId →
    storedOn (startOfDay e.env.timestamp) e.before + amountOf e.before requestId ≤
      (getRedemptionConfig e.before).maxDailyRedemption

/-- A sum over the requests when the first one with an id is replaced. -/
theorem sum_setRequest (w : RedemptionRequest → Nat) (request' : RedemptionRequest)
    {requestId : Nat} {request : RedemptionRequest} {requests : List RedemptionRequest}
    (h : findRequest requests requestId = some request) :
    ((setRequest requestId request' requests).map w).sum + w request =
      (requests.map w).sum + w request' := by
  unfold findRequest at h
  induction requests with
  | nil => cases h
  | cons req rest ih =>
    rw [List.find?_cons] at h
    unfold setRequest
    by_cases hid : getRequestId req = requestId
    · rw [decide_eq_true hid] at h
      cases h
      rw [if_pos hid, List.map_cons, List.map_cons, List.sum_cons, List.sum_cons]
      omega
    · rw [decide_eq_false hid] at h
      rw [if_neg hid, List.map_cons, List.map_cons, List.sum_cons, List.sum_cons, Nat.add_assoc,
        ih h, Nat.add_assoc]

theorem mem_setRequest {requestId : Nat} {request' req : RedemptionRequest}
    {requests : List RedemptionRequest} (h : req ∈ setRequest requestId request' requests) :
    req = request' ∨ req ∈ requests := by
  induction requests with
  | nil => cases h
  | cons req0 rest ih =>
    unfold setRequest at h
    split at h
    · rcases List.mem_cons.mp h with h | h
      · exact .inl h
      · exact .inr (List.mem_cons_of_mem _ h)
    · rcases List.mem_cons.mp h with rfl | h
      · exact .inr List.mem_cons_self
      · rcases ih h with h | h
        · exact .inl h
        · exact .inr (List.mem_cons_of_mem _ h)

/-- The stored requests agree with what was processed, and those still pending have not been. -/
structure DayBooks (tr : Trace) (s : State) : Prop where
  stored : s.redemptionRequests ≠ none
  unprocessed : ∀ req ∈ s.redemptionRequests.getD [], req.status = .pending →
    req.processedTime = none
  agree : ∀ day, storedOn day s = processedOn day tr

section Step

variable {env : CallEnv} {call : Call} {r : Reply} {s s' : State} {tr : Trace} {id : Nat}
  {req req' : RedemptionRequest}

/-- A decision moves the sums of every day by what it makes of the one request. -/
theorem DayBooks.decided (h : DayBooks tr s) (hx : Decided s id req req' s')
    (hpending : req'.status ≠ .pending) :
    s'.redemptionRequests ≠ none ∧
    (∀ req ∈ s'.redemptionRequests.getD [], req.status = .pending → req.processedTime = none) ∧
    (∀ day, storedOn day s' = storedOn day s + redeemedOn day req' ∧ redeemedOn day req = 0) ∧
    amountOf s id = req.amount := by
  obtain ⟨requests, hrequests, hfind, hst, hset, -⟩ := hx
  have hnone : req.processedTime = none := by
    refine h.unprocessed req ?_ hst
    rw [hrequests]
    exact List.mem_of_find?_eq_some hfind
  refine ⟨by rw [hset]; exact Option.some_ne_none _, ?_, ?_, ?_⟩
  · intro req1 hmem hst1
    rw [hset] at hmem
    rcases mem_setRequest hmem with rfl | hmem
    · exact absurd hst1 hpending
    · exact h.unprocessed req1 (by rw [hrequests]; exact hmem) hst1
  · intro day
    unfold storedOn
    rw [hset, hrequests]
    have hzero : redeemedOn day req = 0 := by
      unfold redeemedOn
      rw [hnone]
    have hsum := sum_setRequest (redeemedOn day) req' hfind
    rw [hzero, Nat.add_zero] at hsum
    exact ⟨hsum, hzero⟩
  · unfold amountOf
    rw [hrequests]
    show ((findRequest requests id).map RedemptionRequest.amount).getD 0 = _
    rw [hfind]
    rfl

/-- A decision that only moves the status keeps the books. -/
theorem DayBooks.status {status : RedemptionStatus} (h : DayBooks tr s)
    (hx : Decided s id req { req with status } s') (hpending : status ≠ .pending)
    (hother : ∀ id, call ≠ .processRedemption id) :
    DayBooks (⟨env, call, r, s, s'⟩ :: tr) s' := by
  obtain ⟨hstored, hunprocessed, hsum, -⟩ := h.decided hx hpending
  refine ⟨hstored, hunprocessed, fun day => ?_⟩
  have hzero : redeemedOn day { req with status } = 0 := (hsum day).2
  rw [(hsum day).1, h.agree day, processedOn_other day tr hother, hzero, Nat.add_zero]

/-- **One call** keeps the books, and is within the cap exactly if there is room. -/
theorem capped_step (h : DayBooks tr s) (hx : exec env call s = .ok (r, s')) :
    (Capped ⟨env, call, r, s, s'⟩ tr ↔ Roomy ⟨env, call, r, s, s'⟩ tr) ∧
      DayBooks (⟨env, call, r, s, s'⟩ :: tr) s' := by
  constructor
  · refine forall_congr' fun id => forall_congr' fun hc => ?_
    have hc : call = .processRedemption id := hc
    subst hc
    show (if startOfDay env.timestamp = startOfDay env.timestamp then amountOf s id else 0) +
        processedOn (startOfDay env.timestamp) tr ≤ _ ↔
      storedOn (startOfDay env.timestamp) s + amountOf s id ≤ _
    rw [if_pos rfl, h.agree, Nat.add_comm]
  · rcases exec_cases hx with hq | ⟨amount, id, rfl, -, hcall⟩ | ⟨id, rfl, hcall⟩ |
      ⟨id, rfl, hcall⟩ | ⟨id, reason, rfl, hcall⟩
    · refine ⟨by rw [hq.requests]; exact h.stored, by rw [hq.requests]; exact h.unprocessed, ?_⟩
      intro day
      rw [processedOn_other day tr hq.process, ← h.agree day]
      unfold storedOn
      rw [hq.requests]
    · obtain ⟨requests, _, hrequests, -, -, rfl⟩ := requestRedemption_ok hcall
      refine ⟨Option.some_ne_none _, ?_, ?_⟩
      · intro req hmem hst
        rcases List.mem_append.mp hmem with hmem | hmem
        · exact h.unprocessed req (by rw [hrequests]; exact hmem) hst
        · rw [List.mem_singleton.mp hmem]
      · intro day
        show storedOn day _ = processedOn day tr
        rw [← h.agree day]
        unfold storedOn
        rw [hrequests]
        show ((requests ++ [_]).map (redeemedOn day)).sum = (requests.map (redeemedOn day)).sum
        rw [List.map_append, List.sum_append]
        rfl
    · obtain ⟨req, hdecided, -⟩ := processRedemption_ok hcall
      obtain ⟨hstored, hunprocessed, hsum, hamount⟩ := h.decided hdecided nofun
      refine ⟨hstored, hunprocessed, fun day => ?_⟩
      rw [(hsum day).1, h.agree day, Nat.add_comm]
      show _ = (if startOfDay env.timestamp = day then amountOf s id else 0) + processedOn day tr
      rw [hamount]
      rfl
    · obtain ⟨req, hdecided, -⟩ := approveRedemption_ok hcall
      exact h.status hdecided nofun nofun
    · obtain ⟨req, hdecided, -⟩ := rejectRedemption_ok hcall
      exact h.status hdecided nofun nofun

end Step

/-- Where the list of requests is there, **the cap holds** along a run if and only if there was
room at every processing. -/
theorem capped_iff {d : Deployment} {tr : Trace} {s : State}
    (h : Run (machineFrom d Listed) tr s) : Throughout Capped tr ↔ Throughout Roomy tr := by
  refine h.throughout_iff (I := DayBooks) ?_ ?_
  · rintro s rfl
    exact ⟨Option.some_ne_none _, fun _ h => (List.not_mem_nil h).elim, fun _ => rfl⟩
  · intro tr env call r s s' _ _ _ hbooks hx
    obtain ⟨hiff, hbooks'⟩ := capped_step hbooks hx
    exact ⟨hiff, fun _ => hbooks'⟩

/-- Two requests of the whole daily amount, made on one day and processed on the next, pass the
cap; without overflow checks, since the supply they are taken from is zero. -/
theorem cap_passed :
    ∃ (tr : Trace) (s : State), Run (machineFrom ⟨0, false⟩ Listed) tr s ∧
      (getRedemptionConfig s).maxDailyRedemption = 10000000000000 ∧
      processedOn (startOfDay 90000) tr = 20000000000000 := by
  obtain ⟨tr, s, hrun, hok⟩ := Machine.exists_run_of_replay
    (m := machineFrom ⟨0, false⟩ Listed) rfl
    (funded false ++ [(callAt false 1000 1, .requestRedemption 10000000000000),
      (callAt false 1001 2, .requestRedemption 10000000000000),
      (callAt false 90000 9, .processRedemption 1000),
      (callAt false 90000 9, .processRedemption 1001)])
    (fun tr s => (getRedemptionConfig s).maxDailyRedemption = 10000000000000 ∧
      processedOn (startOfDay 90000) tr = 20000000000000)
    (by decide) (by decide) (by decide)
  exact ⟨tr, s, hrun, of_decide_eq_true hok⟩

end Stellara.Reserve
