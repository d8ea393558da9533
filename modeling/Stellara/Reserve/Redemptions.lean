import Stellara.Reserve.Model

/-!
# The life of a redemption request

`tickets` is what should become of the requests: each is kept under the id that was returned
for it, and a decision on an id changes the request with that id.  `Lifecycle` says that the
contract agrees with it after a call, `Careful` is the condition under which it does.

    Run (machine d) tr s → requestRedemption env s requester amount ≠ .ok (id, s')
    Run (machineFrom d Listed) tr s → (Throughout Lifecycle tr ↔ Throughout Careful tr)

The first line is about the contract as it is initialised: `request_redemption` counts a
missing list of requests as empty, but the daily total that it asks for first is an error
without a list, so that no request is ever accepted (`lifecycle_iff`).  Where there is a list,
ids are looked up among the times of the requests, and a request that has been approved can no
longer be processed.
-/

namespace Stellara.Reserve

open Outcome Governance

/-! ## What should become of the requests -/

/-- A request under the id that was returned for it. -/
abbrev Ticket : Type := Nat × RedemptionRequest

/-- The tickets after a decision on an id. -/
def decideOn (id : Nat) (decision : RedemptionRequest → RedemptionRequest) (L : List Ticket) :
    List Ticket :=
  L.map fun t => if t.1 = id then (t.1, decision t.2) else t

/-- The requests made in a history and what was decided on them. -/
def tickets : Trace → List Ticket
  | [] => []
  | e :: tr =>
    match e.call, e.ret with
    | .requestRedemption amount, .request id =>
      tickets tr ++ [(id, ⟨e.env.invoker, amount, e.env.timestamp, .pending, none⟩)]
    | .processRedemption id, _ =>
      decideOn id (fun req =>
        { req with status := .processed, processedTime := some e.env.timestamp }) (tickets tr)
    | .approveRedemption id, _ => decideOn id (fun req => { req with status := .approved }) (tickets tr)
    | .rejectRedemption id _, _ =>
      decideOn id (fun req => { req with status := .rejected }) (tickets tr)
    | _, _ => tickets tr

/-- The tickets that are still pending. -/
def openTickets (L : List Ticket) : List Ticket := L.filter fun t => t.2.status = .pending

def openTotal (L : List Ticket) : Nat := ((openTickets L).map fun t => t.2.amount).sum

/-- A decision is possible on the ticket: pending, or approved and now to be processed. -/
def Undecided (call : Call) (id : Nat) (t : Ticket) : Prop :=
  t.1 = id ∧ (t.2.status = .pending ∨ t.2.status = .approved ∧ call = .processRedemption id)

/-- The call decides on the request with the id. -/
def Call.decides (call : Call) (id : Nat) : Prop :=
  call = .processRedemption id ∨ call = .approveRedemption id ∨
    ∃ reason, call = .rejectRedemption id reason

/-- **The lifecycle after a call.** -/
structure Lifecycle (e : Event CallEnv Call Reply State) (tr : Trace) : Prop where
  /-- no id is returned twice -/
  unique : ((tickets (e :: tr)).map Prod.fst).Nodup
  /-- what is stored are the requests, decided as the ids say -/
  stored : e.after.redemptionRequests = some ((tickets (e :: tr)).map Prod.snd)
  /-- each id leads to its request -/
  lookup : ∀ t ∈ tickets (e :: tr), getRedemptionRequest e.after t.1 = .ok t.2
  /-- nothing rejected or processed is decided again -/
  once : ∀ id, e.call.decides id → ∃ t ∈ tickets tr, Undecided e.call id t
  /-- what has been approved can be processed -/
  approved : ∀ t ∈ tickets (e :: tr), t.2.status = .approved →
    ∃ env s', processRedemption env e.after t.1 = .ok s'
  /-- the queue holds the pending requests -/
  queue : (RedemptionQueue.stored e.after).pendingRequests =
    (openTickets (tickets (e :: tr))).map Prod.fst
  /-- its total is theirs -/
  total : (RedemptionQueue.stored e.after).totalPendingAmount = openTotal (tickets (e :: tr))

/-- **The condition.**  A request is made in the second that its number names, the total of the
queue has room for it, and nothing is approved. -/
def Careful (e : Event CallEnv Call Reply State) (_tr : Trace) : Prop :=
  match e.call with
  | .requestRedemption amount =>
    e.env.timestamp = e.before.redemptionCounter + 1 ∧
      (RedemptionQueue.stored e.before).totalPendingAmount + amount < 2 ^ 128
  | .approveRedemption _ => False
  | _ => True

instance (e : Event CallEnv Call Reply State) (tr : Trace) : Decidable (Careful e tr) :=
  match e with
  | ⟨_, .requestRedemption _, _, _, _⟩ => inferInstanceAs (Decidable (_ ∧ _))
  | ⟨_, .approveRedemption _, _, _, _⟩ => inferInstanceAs (Decidable False)
  | ⟨_, .initContract, _, _, _⟩ | ⟨_, .addReserveAsset .., _, _, _⟩
  | ⟨_, .updateReserveAsset .., _, _, _⟩ | ⟨_, .executeRebalancing, _, _, _⟩
  | ⟨_, .processRedemption _, _, _, _⟩ | ⟨_, .rejectRedemption .., _, _, _⟩
  | ⟨_, .updateRedemptionConfig _, _, _, _⟩ => inferInstanceAs (Decidable True)

/-! ## Lists of tickets -/

theorem map_fst_decideOn (id : Nat) (f : RedemptionRequest → RedemptionRequest) (L : List Ticket) :
    (decideOn id f L).map Prod.fst = L.map Prod.fst := by
  unfold decideOn
  rw [List.map_map]
  refine List.map_congr_left fun t _ => ?_
  show (if t.1 = id then (t.1, f t.2) else t).1 = t.1
  split <;> rfl

theorem mem_decideOn {id : Nat} {f : RedemptionRequest → RedemptionRequest} {L : List Ticket}
    {t : Ticket} (h : t ∈ decideOn id f L) :
    t ∈ L ∨ ∃ old ∈ L, old.1 = id ∧ t = (id, f old.2) := by
  obtain ⟨old, hold, heq⟩ := List.mem_map.mp h
  split at heq
  · next hid =>
    subst heq
    exact .inr ⟨old, hold, hid, by rw [hid]⟩
  · subst heq
    exact .inl hold

theorem decideOn_of_not_mem {id : Nat} {f : RedemptionRequest → RedemptionRequest} {L : List Ticket}
    (h : id ∉ L.map Prod.fst) : decideOn id f L = L := by
  induction L with
  | nil => rfl
  | cons t L ih =>
    rw [List.map_cons, List.mem_cons, not_or] at h
    show (if t.1 = id then (t.1, f t.2) else t) :: decideOn id f L = t :: L
    rw [if_neg (Ne.symm h.1), ih h.2]

/-- Where ids are the times of the requests, the first request with the id is the ticket's. -/
theorem findRequest_tickets {L : List Ticket} {id : Nat} {req : RedemptionRequest}
    (htimes : ∀ t ∈ L, t.2.requestTime = t.1)
    (h : findRequest (L.map Prod.snd) id = some req) : (id, req) ∈ L := by
  unfold findRequest at h
  have hsome := List.find?_some h
  have hid : req.requestTime = id := of_decide_eq_true hsome
  obtain ⟨t, ht, rfl⟩ := List.mem_map.mp (List.mem_of_find?_eq_some h)
  rw [← hid, htimes t ht]
  exact ht

theorem findRequest_of_mem {L : List Ticket} {t : Ticket} (hunique : (L.map Prod.fst).Nodup)
    (htimes : ∀ t ∈ L, t.2.requestTime = t.1) (ht : t ∈ L) :
    findRequest (L.map Prod.snd) t.1 = some t.2 := by
  induction L with
  | nil => cases ht
  | cons t0 L ih =>
    rw [List.map_cons, List.nodup_cons] at hunique
    have htime : getRequestId t0.2 = t0.1 := htimes t0 List.mem_cons_self
    unfold findRequest
    rw [List.map_cons, List.find?_cons, htime]
    rcases List.mem_cons.mp ht with rfl | ht
    · rw [decide_eq_true rfl]
    · have hne : t0.1 ≠ t.1 := fun heq => hunique.1 (heq ▸ List.mem_map_of_mem ht)
      rw [decide_eq_false hne]
      exact ih hunique.2 (fun t h => htimes t (List.mem_cons_of_mem _ h)) ht

/-- The loop that replaces the first request with an id decides on the ticket. -/
theorem setRequest_tickets {L : List Ticket} {id : Nat} {req : RedemptionRequest}
    {f : RedemptionRequest → RedemptionRequest} (hunique : (L.map Prod.fst).Nodup)
    (htimes : ∀ t ∈ L, t.2.requestTime = t.1) (ht : (id, req) ∈ L) :
    setRequest id (f req) (L.map Prod.snd) = (decideOn id f L).map Prod.snd := by
  induction L with
  | nil => cases ht
  | cons t0 L ih =>
    rw [List.map_cons, List.nodup_cons] at hunique
    have htime : getRequestId t0.2 = t0.1 := htimes t0 List.mem_cons_self
    show (if getRequestId t0.2 = id then f req :: L.map Prod.snd
        else t0.2 :: setRequest id (f req) (L.map Prod.snd)) =
      ((if t0.1 = id then (t0.1, f t0.2) else t0) :: decideOn id f L).map Prod.snd
    rw [htime, List.map_cons]
    by_cases hid : t0.1 = id
    · rw [if_pos hid, if_pos hid]
      rcases List.mem_cons.mp ht with rfl | ht
      · rw [decideOn_of_not_mem hunique.1]
      · exact absurd (hid ▸ List.mem_map_of_mem ht) hunique.1
    · rw [if_neg hid, if_neg hid]
      rcases List.mem_cons.mp ht with rfl | ht
      · exact absurd rfl hid
      · rw [ih hunique.2 (fun t h => htimes t (List.mem_cons_of_mem _ h)) ht]

theorem decideOn_cons (id : Nat) (f : RedemptionRequest → RedemptionRequest) (t : Ticket)
    (L : List Ticket) :
    decideOn id f (t :: L) = (if t.1 = id then (t.1, f t.2) else t) :: decideOn id f L := rfl

theorem openTickets_cons_of_pending {t : Ticket} (L : List Ticket) (h : t.2.status = .pending) :
    openTickets (t :: L) = t :: openTickets L :=
  List.filter_cons_of_pos (by simpa using h)

theorem openTickets_cons_of_decided {t : Ticket} (L : List Ticket) (h : t.2.status ≠ .pending) :
    openTickets (t :: L) = openTickets L :=
  List.filter_cons_of_neg (by simpa using h)

theorem openTickets_concat (L : List Ticket) (id : Nat) (requester : Address) (amount now : Nat) :
    openTickets (L ++ [(id, ⟨requester, amount, now, .pending, none⟩)]) =
      openTickets L ++ [(id, ⟨requester, amount, now, .pending, none⟩)] :=
  List.filter_append ..

/-- A decision takes a pending ticket off the list of open ones. -/
theorem openTickets_decideOn {L : List Ticket} {id : Nat} {req : RedemptionRequest}
    {f : RedemptionRequest → RedemptionRequest} (hunique : (L.map Prod.fst).Nodup)
    (ht : (id, req) ∈ L) (hpending : req.status = .pending) (hdecided : (f req).status ≠ .pending) :
    ((openTickets (decideOn id f L)).map Prod.fst =
      ((openTickets L).map Prod.fst).filter fun reqId => reqId ≠ id) ∧
    openTotal (decideOn id f L) + req.amount = openTotal L := by
  unfold openTotal
  induction L with
  | nil => cases ht
  | cons t0 L ih =>
    rw [List.map_cons, List.nodup_cons] at hunique
    rw [decideOn_cons]
    rcases List.mem_cons.mp ht with rfl | ht
    · -- the ticket itself; no other has its id
      rw [decideOn_of_not_mem hunique.1, if_pos rfl, openTickets_cons_of_decided L hdecided,
        openTickets_cons_of_pending L hpending]
      constructor
      · rw [List.map_cons, List.filter_cons_of_neg (by simp), eq_comm, List.filter_eq_self]
        intro n hn
        obtain ⟨t, ht, rfl⟩ := List.mem_map.mp hn
        refine decide_eq_true fun heq => hunique.1 ?_
        exact List.mem_map.mpr ⟨t, List.mem_of_mem_filter ht, heq⟩
      · rw [List.map_cons, List.sum_cons, Nat.add_comm]
    · have hne : t0.1 ≠ id := fun heq => hunique.1 (heq ▸ List.mem_map_of_mem ht)
      obtain ⟨hids, hsum⟩ := ih hunique.2 ht
      rw [if_neg hne]
      by_cases hopen : t0.2.status = .pending
      · rw [openTickets_cons_of_pending _ hopen, openTickets_cons_of_pending _ hopen]
        constructor
        · rw [List.map_cons, List.map_cons, List.filter_cons_of_pos (by simpa using hne), hids]
        · rw [List.map_cons, List.map_cons, List.sum_cons, List.sum_cons, Nat.add_assoc, hsum]
      · rw [openTickets_cons_of_decided _ hopen, openTickets_cons_of_decided _ hopen]
        exact ⟨hids, hsum⟩

/-! ## The books -/

/-- What is stored when everything went well: the requests under the numbers from 1 on, made at
the times that their numbers name. -/
structure Books (L : List Ticket) (s : State) : Prop where
  ids : L.map Prod.fst = List.range' 1 s.redemptionCounter
  times : ∀ t ∈ L, t.2.requestTime = t.1
  stored : s.redemptionRequests = some (L.map Prod.snd)
  unapproved : ∀ t ∈ L, t.2.status ≠ .approved
  queue : (RedemptionQueue.stored s).pendingRequests = (openTickets L).map Prod.fst
  total : (RedemptionQueue.stored s).totalPendingAmount = openTotal L

theorem books_start : Books [] { redemptionRequests := some [] } where
  ids := rfl
  times t ht := by cases ht
  stored := rfl
  unapproved t ht := by cases ht
  queue := rfl
  total := rfl

section Books

variable {L : List Ticket} {s s' : State} {env : CallEnv} {call : Call} {r : Reply} {tr : Trace}
  {id : Nat} {req : RedemptionRequest} {f : RedemptionRequest → RedemptionRequest}

theorem Books.unique (h : Books L s) : (L.map Prod.fst).Nodup := by
  rw [h.ids]
  exact List.nodup_range'

/-- The books make the lifecycle, unless something decided is decided again. -/
theorem Books.lifecycle (h : Books (tickets (⟨env, call, r, s, s'⟩ :: tr)) s')
    (honce : ∀ id, call.decides id → ∃ t ∈ tickets tr, Undecided call id t) :
    Lifecycle ⟨env, call, r, s, s'⟩ tr where
  unique := h.unique
  stored := h.stored
  lookup t ht := by
    unfold getRedemptionRequest storedRequests
    rw [h.stored]
    show getRequestById _ t.1 = _
    unfold getRequestById
    rw [findRequest_of_mem h.unique h.times ht]
    rfl
  once := honce
  approved t ht hst := absurd hst (h.unapproved t ht)
  queue := h.queue
  total := h.total

theorem Books.quiet (h : Books L s) (hq : Quiet call s s') : Books L s' := by
  have hqueue : RedemptionQueue.stored s' = RedemptionQueue.stored s := by
    unfold RedemptionQueue.stored
    rw [hq.queue]
  exact ⟨by rw [hq.counter]; exact h.ids, h.times, hq.requests.trans h.stored, h.unapproved,
    by rw [hqueue]; exact h.queue, by rw [hqueue]; exact h.total⟩

/-- The ticket that a decision is about. -/
theorem Books.decided (h : Books L s) (hx : Decided s id req (f req) s') :
    (id, req) ∈ L ∧ req.status = .pending ∧ s'.redemptionCounter = s.redemptionCounter ∧
      s'.redemptionRequests = some ((decideOn id f L).map Prod.snd) := by
  obtain ⟨requests, hrequests, hfind, hpending, hset, hcounter⟩ := hx
  have heq := h.stored
  rw [hrequests] at heq
  cases heq
  have hmem := findRequest_tickets h.times hfind
  refine ⟨hmem, hpending, hcounter, ?_⟩
  rw [hset, setRequest_tickets h.unique h.times hmem]

/-- A request that is processed or rejected. -/
theorem Books.settle (h : Books L s) (hx : Decided s id req (f req) s')
    (hd : Dequeued env s id req.amount s') (htime : ∀ req, (f req).requestTime = req.requestTime)
    (hpending : (f req).status ≠ .pending) (happroved : ∀ req, (f req).status ≠ .approved) :
    Books (decideOn id f L) s' := by
  obtain ⟨hmem, hst, hcounter, hstored⟩ := h.decided hx
  obtain ⟨hids, hsum⟩ := openTickets_decideOn h.unique hmem hst hpending
  obtain ⟨queue, hqueue, hqueue'⟩ := hd
  have hold : RedemptionQueue.stored s = queue := by
    unfold RedemptionQueue.stored
    rw [hqueue]
    rfl
  have hnew : RedemptionQueue.stored s' = queue.remove id req.amount env.timestamp := by
    unfold RedemptionQueue.stored
    rw [hqueue']
    rfl
  refine ⟨?_, ?_, hstored, ?_, ?_, ?_⟩
  · rw [map_fst_decideOn, hcounter, h.ids]
  · intro t ht
    rcases mem_decideOn ht with ht | ⟨old, hold, rfl, rfl⟩
    · exact h.times t ht
    · exact (htime old.2).trans (h.times old hold)
  · intro t ht
    rcases mem_decideOn ht with ht | ⟨old, -, -, rfl⟩
    · exact h.unapproved t ht
    · exact happroved old.2
  · rw [hnew, hids, ← h.queue, hold]
    rfl
  · have htotal := h.total
    rw [hold] at htotal
    rw [hnew]
    show queue.totalPendingAmount - req.amount = _
    omega

/-- A request that is made in the second its number names. -/
theorem Books.request {amount : Nat} (h : Books L s)
    (hx : requestRedemption env s env.invoker amount = .ok (id, s'))
    (htime : env.timestamp = s.redemptionCounter + 1)
    (hfits : (RedemptionQueue.stored s).totalPendingAmount + amount < 2 ^ 128) :
    Books (L ++ [(id, ⟨env.invoker, amount, env.timestamp, .pending, none⟩)]) s' := by
  obtain ⟨requests, total, hrequests, rfl, htotal, rfl⟩ := requestRedemption_ok hx
  have heq := h.stored
  rw [hrequests] at heq
  cases heq
  have hexact := u128_exact htotal (by omega) (by omega)
  refine ⟨?_, ?_, ?_, ?_, ?_, ?_⟩
  · rw [List.map_append, h.ids]
    show _ ++ [s.redemptionCounter + 1] = List.range' 1 (s.redemptionCounter + 1)
    rw [List.range'_concat, Nat.one_mul, Nat.add_comm 1]
  · intro t ht
    rcases List.mem_append.mp ht with ht | ht
    · exact h.times t ht
    · rw [List.mem_singleton.mp ht]
      exact htime
  · rw [List.map_append]
    rfl
  · intro t ht
    rcases List.mem_append.mp ht with ht | ht
    · exact h.unapproved t ht
    · rw [List.mem_singleton.mp ht]
      exact nofun
  · rw [openTickets_concat, List.map_append, ← h.queue]
    rfl
  · show total = _
    have hsum := h.total
    unfold openTotal at hsum ⊢
    rw [openTickets_concat, List.map_append, List.sum_append, ← hsum]
    simp only [List.map_cons, List.map_nil, List.sum_cons, List.sum_nil]
    omega

end Books

/-! ## One call -/

section Step

variable {s s' : State} {env : CallEnv} {call : Call} {r : Reply} {tr : Trace} {id : Nat}

/-- An approved request cannot be processed, by anyone and at any time. -/
theorem approved_not_processed {req : RedemptionRequest}
    (hlookup : getRedemptionRequest s id = .ok req) (hst : req.status = .approved) :
    processRedemption env s id ≠ .ok s' := by
  intro h
  obtain ⟨request, ⟨requests, hrequests, hfind, hpending, -⟩, -⟩ := processRedemption_ok h
  simp only [getRedemptionRequest, storedRequests, getRequestById, bind_eq_ok, ofOption_eq_ok] at hlookup
  obtain ⟨requests', hrequests', hfind'⟩ := hlookup
  rw [hrequests] at hrequests'
  cases hrequests'
  rw [hfind] at hfind'
  cases hfind'
  rw [hpending] at hst
  cases hst

/-- After an approval the lifecycle is broken. -/
theorem not_lifecycle_of_approve (h : Books (tickets tr) s)
    (hx : approveRedemption env s id = .ok s') :
    ¬ Lifecycle ⟨env, .approveRedemption id, r, s, s'⟩ tr := by
  intro hlife
  obtain ⟨req, hdecided, -, -⟩ := approveRedemption_ok hx
  obtain ⟨hmem, -, -, -⟩ :=
    h.decided (f := fun req => { req with status := .approved }) hdecided
  have happroved : (id, { req with status := .approved }) ∈
      tickets (⟨env, .approveRedemption id, r, s, s'⟩ :: tr) := by
    refine List.mem_map.mpr ⟨(id, req), hmem, ?_⟩
    rw [if_pos rfl]
  obtain ⟨env1, s1, hprocess⟩ := hlife.approved _ happroved rfl
  exact approved_not_processed (hlife.lookup _ happroved) rfl hprocess

/-- After a request the lifecycle holds exactly if the id is the time and the total fits. -/
theorem request_time {amount : Nat} (h : Books (tickets tr) s)
    (hx : requestRedemption env s env.invoker amount = .ok (id, s'))
    (hlife : Lifecycle ⟨env, .requestRedemption amount, .request id, s, s'⟩ tr) :
    env.timestamp = s.redemptionCounter + 1 ∧
      (RedemptionQueue.stored s).totalPendingAmount + amount < 2 ^ 128 := by
  obtain ⟨requests, total, -, rfl, htotal, hs⟩ := requestRedemption_ok hx
  have hmem : (s.redemptionCounter + 1, ⟨env.invoker, amount, env.timestamp, .pending, none⟩) ∈
      tickets (⟨env, .requestRedemption amount, .request (s.redemptionCounter + 1), s, s'⟩ :: tr) :=
    List.mem_append_right _ (List.mem_singleton_self _)
  constructor
  · have hlookup := hlife.lookup _ hmem
    simp only [getRedemptionRequest, storedRequests, getRequestById, findRequest, bind_eq_ok,
      ofOption_eq_ok] at hlookup
    obtain ⟨_, -, hfind⟩ := hlookup
    have hsome := List.find?_some hfind
    exact of_decide_eq_true hsome
  · subst hs
    have hsum : total = openTotal (tickets tr ++
        [(s.redemptionCounter + 1, ⟨env.invoker, amount, env.timestamp, .pending, none⟩)]) :=
      hlife.total
    unfold openTotal at hsum
    rw [openTickets_concat, List.map_append, List.sum_append] at hsum
    simp only [List.map_cons, List.map_nil, List.sum_cons, List.sum_nil] at hsum
    have hbefore := h.total
    unfold openTotal at hbefore
    have hlt := u128_lt htotal
    omega

/-- **One call**: what was right stays right exactly when the call is careful. -/
theorem lifecycle_step (h : Books (tickets tr) s) (hx : exec env call s = .ok (r, s')) :
    (Lifecycle ⟨env, call, r, s, s'⟩ tr ↔ Careful ⟨env, call, r, s, s'⟩ tr) ∧
      (Lifecycle ⟨env, call, r, s, s'⟩ tr → Books (tickets (⟨env, call, r, s, s'⟩ :: tr)) s') := by
  rcases exec_cases hx with hq | ⟨amount, id, rfl, rfl, hcall⟩ | ⟨id, rfl, hcall⟩ |
    ⟨id, rfl, hcall⟩ | ⟨id, reason, rfl, hcall⟩
  · -- nothing is made or decided
    have htickets : tickets (⟨env, call, r, s, s'⟩ :: tr) = tickets tr := by
      cases call with
      | requestRedemption amount => exact absurd rfl (hq.request amount)
      | processRedemption id => exact absurd rfl (hq.process id)
      | approveRedemption id => exact absurd rfl (hq.approve id)
      | rejectRedemption id reason => exact absurd rfl (hq.reject id reason)
      | _ => rfl
    have hbooks : Books (tickets (⟨env, call, r, s, s'⟩ :: tr)) s' := by
      rw [htickets]
      exact h.quiet hq
    have hcareful : Careful ⟨env, call, r, s, s'⟩ tr := by
      cases call with
      | requestRedemption amount => exact absurd rfl (hq.request amount)
      | approveRedemption id => exact absurd rfl (hq.approve id)
      | _ => exact trivial
    refine ⟨⟨fun _ => hcareful, fun _ => ?_⟩, fun _ => hbooks⟩
    refine hbooks.lifecycle fun id hd => ?_
    rcases hd with hd | hd | ⟨reason, hd⟩
    · exact absurd hd (hq.process id)
    · exact absurd hd (hq.approve id)
    · exact absurd hd (hq.reject id reason)
  · -- a request
    refine ⟨⟨request_time h hcall, fun ⟨htime, hfits⟩ => ?_⟩, fun hlife => ?_⟩
    · have hbooks : Books (tickets (⟨env, .requestRedemption amount, .request id, s, s'⟩ :: tr)) s' :=
        h.request hcall htime hfits
      exact hbooks.lifecycle fun _ hd => by simp [Call.decides] at hd
    · obtain ⟨htime, hfits⟩ := request_time h hcall hlife
      exact h.request hcall htime hfits
  · -- processed
    obtain ⟨req, hdecided, hqueue, -⟩ := processRedemption_ok hcall
    obtain ⟨hmem, hst, -⟩ := h.decided (f := fun req =>
      { req with status := .processed, processedTime := some env.timestamp }) hdecided
    have hbooks : Books (tickets (⟨env, .processRedemption id, r, s, s'⟩ :: tr)) s' :=
      h.settle (f := fun req =>
        { req with status := .processed, processedTime := some env.timestamp }) hdecided hqueue
        (fun _ => rfl) nofun (fun _ => nofun)
    refine ⟨⟨fun _ => trivial, fun _ => ?_⟩, fun _ => hbooks⟩
    refine hbooks.lifecycle fun id' hd => ?_
    simp only [Call.decides, Call.processRedemption.injEq, reduceCtorEq, exists_false, or_false] at hd
    exact ⟨(id, req), hmem, hd, .inl hst⟩
  · -- approved
    have hnot := not_lifecycle_of_approve (r := r) h hcall
    exact ⟨⟨fun hlife => absurd hlife hnot, fun hcareful => hcareful.elim⟩,
      fun hlife => absurd hlife hnot⟩
  · -- rejected
    obtain ⟨req, hdecided, hqueue, -⟩ := rejectRedemption_ok hcall
    obtain ⟨hmem, hst, -⟩ :=
      h.decided (f := fun req => { req with status := .rejected }) hdecided
    have hbooks : Books (tickets (⟨env, .rejectRedemption id reason, r, s, s'⟩ :: tr)) s' :=
      h.settle (f := fun req => { req with status := .rejected }) hdecided hqueue (fun _ => rfl)
        nofun (fun _ => nofun)
    refine ⟨⟨fun _ => trivial, fun _ => ?_⟩, fun _ => hbooks⟩
    refine hbooks.lifecycle fun id' hd => ?_
    simp only [Call.decides, Call.rejectRedemption.injEq, reduceCtorEq, false_or] at hd
    obtain ⟨_, hid, -⟩ := hd
    exact ⟨(id, req), hmem, hid, .inl hst⟩

end Step

/-! ## Every run -/

/-- **The lifecycle.**  As the contract is initialised no request ever gets an id; where the
list of requests is there, the lifecycle holds along a run if and only if every request is made
in the second its number names, the total has room for it, and nothing is approved. -/
theorem lifecycle_iff (d : Deployment) :
    (∀ (tr : Trace) (s : State), Run (machine d) tr s →
      ∀ env requester amount id s', requestRedemption env s requester amount ≠ .ok (id, s')) ∧
    (∀ (tr : Trace) (s : State), Run (machineFrom d Listed) tr s →
      (Throughout Lifecycle tr ↔ Throughout Careful tr)) := by
  constructor
  · intro tr s hrun env requester amount id s' hx
    obtain ⟨requests, _, hsome, -⟩ := requestRedemption_ok hx
    rw [unlisted hrun] at hsome
    cases hsome
  · intro tr s hrun
    refine hrun.throughout_iff (I := fun tr s => Books (tickets tr) s) ?_ ?_
    · rintro s rfl
      exact books_start
    · intro tr env call r s s' _ _ _ hbooks hx
      exact lifecycle_step hbooks hx

/-- With ten million dollars in the reserve a request for one million is refused; with the list
in place the request gets the id 1, under which nothing is found. -/
theorem request_lost :
    (∃ (tr : Trace) (s : State), Run (machine ⟨0, true⟩) tr s ∧
      getTotalReserves s = .ok 10000000000000 ∧
      requestRedemption (callAt true 1000 1) s 1 1000000000000 =
        .error (.err .redemptionAmountTooSmall)) ∧
    (∃ (tr : Trace) (s : State), Run (machineFrom ⟨0, true⟩ Listed) tr s ∧
      (tickets tr).map Prod.fst = [1] ∧
      getRedemptionRequest s 1 = .error (.err .redemptionAmountTooSmall) ∧
      ¬ Throughout Lifecycle tr) := by
  constructor
  · obtain ⟨tr, s, hrun, hok⟩ := Machine.exists_run_of_replay (m := machine ⟨0, true⟩) rfl (funded true)
      (fun _ s => s.currentSnapshot.map ReserveSnapshot.totalReserves = some 10000000000000 ∧
        failsWith (requestRedemption (callAt true 1000 1) s 1 1000000000000)
          (.err .redemptionAmountTooSmall) = true)
      (by decide) (by decide) (by decide)
    obtain ⟨hreserves, hfails⟩ := of_decide_eq_true hok
    obtain ⟨snapshot, hsnapshot, htotal⟩ := Option.map_eq_some_iff.mp hreserves
    refine ⟨tr, s, hrun, ?_, eq_of_failsWith hfails⟩
    unfold getTotalReserves
    rw [hsnapshot, ← htotal]
    rfl
  · obtain ⟨tr, s, hrun, hok⟩ := Machine.exists_run_of_replay
      (m := machineFrom ⟨0, true⟩ Listed) rfl
      (funded true ++ [(callAt true 1000 1, .requestRedemption 1000000000000)])
      (fun tr s => (tickets tr).map Prod.fst = [1] ∧
        failsWith (getRedemptionRequest s 1) (.err .redemptionAmountTooSmall) = true ∧
        tr.head?.map (fun e => failsWith (getRedemptionRequest e.after 1)
          (.err .redemptionAmountTooSmall)) = some true)
      (by decide) (by decide) (by decide)
    obtain ⟨hids, hfails, hlast⟩ := of_decide_eq_true hok
    refine ⟨tr, s, hrun, hids, eq_of_failsWith hfails, fun hall => ?_⟩
    cases tr with
    | nil => cases hlast
    | cons e tr =>
      have hlost := eq_of_failsWith (Option.some.inj hlast)
      obtain ⟨t, ht, hid⟩ := List.mem_map.mp (hids ▸ List.mem_singleton_self 1)
      have hfound := hall.1.lookup t ht
      rw [hid, hlost] at hfound
      cases hfound

/-- Two requests made in the seconds 1 and 2 keep their ids; the first one is rejected. -/
theorem lifecycle_two :
    (∃ s, Run (machine ⟨0, true⟩) [] s ∧
      requestRedemption (callAt true 1 1) s 1 1000000000000 ≠ .ok (1, s)) ∧
    (∃ (tr : Trace) (s : State), Run (machineFrom ⟨0, true⟩ Listed) tr s ∧
      (openTickets (tickets tr)).map Prod.fst = [2] ∧ Throughout Lifecycle tr) := by
  constructor
  · exact ⟨{}, .start rfl, (lifecycle_iff ⟨0, true⟩).1 [] {} (.start rfl) _ _ _ _ _⟩
  · obtain ⟨tr, s, hrun, hok⟩ := Machine.exists_run_of_replay
      (m := machineFrom ⟨0, true⟩ Listed) rfl
      (funded true ++ [(callAt true 1 1, .requestRedemption 1000000000000),
        (callAt true 2 2, .requestRedemption 2000000000000), (callAt true 5 9, .rejectRedemption 1 "kyc")])
      (fun tr _ => (openTickets (tickets tr)).map Prod.fst = [2] ∧ Throughout Careful tr)
      (by decide) (by decide) (by decide)
    obtain ⟨hopen, hcareful⟩ := of_decide_eq_true hok
    exact ⟨tr, s, hrun, hopen, ((lifecycle_iff ⟨0, true⟩).2 tr s hrun).mpr hcareful⟩

end Stellara.Reserve
