import Stellara.Webhooks.Ledger

/-!
# The retries of a delivery

An attempt is numbered by the copy of the event that was queued, and counted in the row of the
event.  A retry queues the same copy again:

    attempt                  1        2        3
    event.deliveryAttempts   0        0        0
    attemptNumber            1        1        1
    wait                    1 s      1 s      1 s

So a delivery that may be retried is retried every second for as long as it fails, and is never
recorded as failed.  If no POST of a pair of an event and a consumer fails a second time, the
retries are what they should be (`retries_bounded`).
-/

namespace Stellara.Webhooks

open Monitor Block
open Async (obeying Answered interleave_obeys_from attempt_cases sum_map_set sum_map_append_singleton)

/-! ## What happens to a pair -/

/-- An event, and a consumer of it. -/
abbrev Pair : Type := Uuid × Uuid

def Item.pair (item : Item) : Pair := (item.event.id, item.consumer.id)

inductive Mark
  | posted (success : Bool)
  | waited (ms : Int)
  | recorded
  deriving DecidableEq

abbrev Step : Type := Event Outside (Async.Move Operation) Unit System

/-- The task that is answered, and what it asked. -/
def requestOf (e : Step) : Option (Nat × Request) :=
  match e.call with
  | .start _ => none
  | .resume i => (e.before.awaited i).map fun a => (i, a)

/-- The item that task `i` delivers. -/
def itemOf : Trace → Nat → Option Item
  | [], _ => none
  | e :: tr, i =>
    match requestOf e with
    | some (j, .begin) => if j = i then e.before.world.handed.head?.map (·.2) else itemOf tr i
    | _ => itemOf tr i

/-- A POST of a pair, the wait for its retry, or the save that records its failure. -/
def markOf (tr : Trace) (e : Step) : Option (Pair × Mark) :=
  match requestOf e with
  | some (_, .post p) => some ((p.event.id, p.consumer), .posted e.env.response.isOk)
  | some (i, .sleep ms) => (itemOf tr i).map fun item => (item.pair, .waited ms)
  | some (i, .saveEvent row none) => (itemOf tr i).bind fun item =>
    if e.env.rejects = none ∧ row.id = item.event.id ∧ row.deliveryStatus = .failed ∧
        item.consumer.id ∈ row.failedDeliveries.getD [] then some (item.pair, .recorded)
    else none
  | _ => none

/-- What happened to a pair, newest first. -/
def marks (pair : Pair) : Trace → List Mark
  | [] => []
  | e :: tr =>
    match markOf tr e with
    | some (p, mark) => if p = pair then mark :: marks pair tr else marks pair tr
    | none => marks pair tr

/-- The `maxRetries` of the consumer when the event was queued for it. -/
def maxRetriesOf (pair : Pair) : Trace → Option Int
  | [] => none
  | e :: tr =>
    match requestOf e with
    | some (_, .getActiveConsumers (.queue event)) =>
      if event = pair.1 ∧ e.env.rejects = none then
        ((e.before.world.activeConsumers.find? fun x => x.id = pair.2).map (·.maxRetries)) <|>
          maxRetriesOf pair tr
      else maxRetriesOf pair tr
    | _ => maxRetriesOf pair tr

/-! ## Bounded retries -/

/-- How far the delivery of a pair has come. -/
inductive Stage
  | ready (failures : Nat)
  | failed (failures : Nat)
  | delivered
  | abandoned

/-- The marks of a delivery that is retried as it should be, newest first: after a failure it waits
twice as long as before, but at most 5 minutes; and with the last one allowed it is recorded. -/
inductive Bounded (maxRetries : Int) : List Mark → Stage → Prop
  | start : Bounded maxRetries [] (.ready 0)
  | succeed {marks : List Mark} {n : Nat} (h : Bounded maxRetries marks (.ready n))
      (hn : n < maxRetries) : Bounded maxRetries (.posted true :: marks) .delivered
  | fail {marks : List Mark} {n : Nat} (h : Bounded maxRetries marks (.ready n))
      (hn : n < maxRetries) : Bounded maxRetries (.posted false :: marks) (.failed (n + 1))
  | wait {marks : List Mark} {n : Nat} (h : Bounded maxRetries marks (.failed n))
      (hn : n < maxRetries) :
      Bounded maxRetries (.waited (min (1000 * 2 ^ (n - 1)) 300000) :: marks) (.ready n)
  | record {marks : List Mark} {n : Nat} (h : Bounded maxRetries marks (.failed n))
      (hn : maxRetries ≤ n) : Bounded maxRetries (.recorded :: marks) .abandoned

/-- How many POSTs were made. -/
def posts (marks : List Mark) : Nat :=
  marks.countP fun mark =>
    match mark with
    | .posted _ => true
    | _ => false

/-- A pair is retried as it should be, and its failure is recorded when nothing is under way. -/
structure Retried (maxRetries : Int) (marks : List Mark) (rests : Prop) : Prop where
  posts : posts marks ≤ maxRetries
  follows : ∃ stage, Bounded maxRetries marks stage ∧ (rests → ∀ n, stage ≠ .failed n)

/-- The POSTs that a stage stands for. -/
def Stage.Allows (maxRetries : Int) (n : Nat) : Stage → Prop
  | .ready failures | .failed failures => failures = n ∧ n ≤ maxRetries
  | .delivered | .abandoned => n ≤ maxRetries

/-- **Bounded retries** make at most `maxRetries` POSTs. -/
theorem Bounded.allows {maxRetries : Int} {marks : List Mark} {stage : Stage}
    (h : Bounded maxRetries marks stage) (hmax : 0 ≤ maxRetries) :
    stage.Allows maxRetries (Webhooks.posts marks) := by
  induction h with
  | start => exact ⟨rfl, hmax⟩
  | @succeed marks n h hn ih =>
    have hposts : Webhooks.posts (.posted true :: marks) = Webhooks.posts marks + 1 := by
      simp [Webhooks.posts]
    obtain ⟨rfl, -⟩ := ih
    show (_ : Int) ≤ _
    rw [hposts]
    omega
  | @fail marks n h hn ih =>
    have hposts : Webhooks.posts (.posted false :: marks) = Webhooks.posts marks + 1 := by
      simp [Webhooks.posts]
    obtain ⟨rfl, -⟩ := ih
    refine ⟨hposts.symm, ?_⟩
    rw [hposts]
    omega
  | wait h hn ih => exact ih
  | record h hn ih => exact ih.2

theorem Bounded.posts_le {maxRetries : Int} {marks : List Mark} {stage : Stage}
    (h : Bounded maxRetries marks stage) (hmax : 0 ≤ maxRetries) :
    Webhooks.posts marks ≤ maxRetries := by
  have hallows := h.allows hmax
  cases stage with
  | ready n => exact hallows.2
  | failed n => exact hallows.2
  | delivered => exact hallows
  | abandoned => exact hallows

/-- Only a failure leads to a retry. -/
theorem Bounded.ready_eq_zero {maxRetries : Int} {marks : List Mark} {n : Nat}
    (h : Bounded maxRetries marks (.ready n)) (hfailures : .posted false ∉ marks) : n = 0 := by
  cases h with
  | start => rfl
  | wait h =>
    cases h with
    | fail =>
      exact absurd (List.mem_cons_of_mem _ List.mem_cons_self) hfailures

/-! ## The condition -/

/-- While an event is delivered, nothing is rejected and no consumer is gone; a consumer that an
event is queued for is to get one attempt at least; and a POST of a pair does not fail again. -/
def FailsOnce (c : Outside) (w : World) : Request → Prop
  | .findEvent _ _ | .saveEvent _ _ | .saveConsumer _ _ | .getActiveConsumers (.check _) =>
    c.rejects = none
  | .findConsumer id _ => c.rejects = none ∧ ∃ x ∈ w.consumers, x.id = id
  | .getActiveConsumers (.queue _) => ∀ x ∈ w.activeConsumers, 1 ≤ x.maxRetries
  | .post p => c.response.isOk = false → ⟨p.event.id, p.consumer, false⟩ ∉ w.posts
  | _ => True

instance (c : Outside) (w : World) : DecidablePred (FailsOnce c w)
  | .findEvent _ _ | .saveEvent _ _ | .saveConsumer _ _ | .getActiveConsumers (.check _) =>
    inferInstanceAs (Decidable (c.rejects = none))
  | .findConsumer id _ =>
    inferInstanceAs (Decidable (c.rejects = none ∧ ∃ x ∈ w.consumers, x.id = id))
  | .getActiveConsumers (.queue _) =>
    inferInstanceAs (Decidable (∀ x ∈ w.activeConsumers, 1 ≤ x.maxRetries))
  | .post p =>
    inferInstanceAs (Decidable (c.response.isOk = false → ⟨p.event.id, p.consumer, false⟩ ∉ w.posts))
  | .randomUUID | .insertEvent _ | .push _ | .splice | .settled _ | .begin | .finish _ _ | .now
  | .sleep _ | .manage _ => instDecidableTrue

abbrev StepFailsOnce (e : Step) : Prop := Async.Meets FailsOnce e

namespace Retries

/-! ## The way of a call -/

/-- Where a task is.  One that was handed an item makes a POST; after a failure it gives the item
up, or waits and puts it back. -/
inductive Point
  | idle
  | named (event : Uuid)
  | saved (event : StellarEvent)
  | queueing (items : List Item)
  | delivering (item : Item)
  | failed (item : Item)
  | abandoning (item : Item) (copy : StellarEvent)
  | waited (item : Item)
  | recording (event : Uuid)

/-- The POST has failed, and what follows from it is still to come. -/
def Point.failing (pair : Pair) : Point → Prop
  | .failed item | .abandoning item _ => item.pair = pair
  | _ => False

def asks : Point → Request → Prop
  | .idle, a => a = .randomUUID ∨ a = .splice ∨ (∃ batch, a = .settled batch) ∨ a = .begin ∨
      (∃ batch ok, a = .finish batch ok) ∨ ∃ consumers, a = .manage consumers
  | .named event, a => ∃ row : StellarEvent,
      a = .insertEvent row ∧ row.id = event ∧ row.deliveryAttempts = 0
  | .saved event, a => a = .getActiveConsumers (.queue event.id)
  | .queueing items, a => a = .push items
  | .delivering item, a => (∃ id, a = .findConsumer id none) ∨ a = .now ∨
      (∃ p, a = .post p ∧ p.event.id = item.event.id ∧ p.consumer = item.consumer.id) ∨
      ∃ batch ok, a = .finish batch ok
  | .failed item, a => (∃ id, a = .findConsumer id none) ∨ (∃ row, a = .saveConsumer row none) ∨
      (a = .findEvent item.event.id none ∧ item.consumer.maxRetries ≤ 1) ∨
      (∃ batch ok, a = .finish batch ok) ∨ (a = .sleep 1000 ∧ 1 < item.consumer.maxRetries)
  | .abandoning item copy, a => ∃ row : StellarEvent, a = .saveEvent row none ∧ row.id = copy.id ∧
      row.deliveryStatus = .failed ∧ item.consumer.id ∈ row.failedDeliveries.getD []
  | .waited item, a => a = .push [item]
  | .recording event, a => a = .findEvent event (some event) ∨
      (∃ row, a = .saveEvent row (some event)) ∨ (∃ id, a = .findConsumer id (some event)) ∨
      (∃ row, a = .saveConsumer row (some event)) ∨ a = .getActiveConsumers (.check event) ∨
      ∃ batch ok, a = .finish batch ok

/-- Nothing that a delivery asks is rejected, a search finds what it searches for, and the copies
that are handed out count no attempts. -/
def told (_ : Point) : (a : Request) → Answer a → Prop
  | .begin, (_, item) => item.event.deliveryAttempts = 0
  | .findEvent id _, r => ∃ copy now, r = .ok (some copy, now) ∧ copy.id = id
  | .findConsumer id _, r => ∃ consumer now, r = .ok (some consumer, now) ∧ consumer.id = id
  | .saveEvent _ _, r | .saveConsumer _ _, r => r = .ok ()
  | .getActiveConsumers (.check _), r => ∃ rows, r = .ok rows
  | _, _ => True

def next : Point → (a : Request) → Answer a → Point
  | .idle, .randomUUID, event => .named event
  | .idle, .begin, (_, item) => .delivering item
  | .named _, .insertEvent row, .ok _ => .saved row
  | .named _, .insertEvent _, .error _ => .idle
  | .saved event, .getActiveConsumers _, .ok rows =>
    if rows.isEmpty then .recording event.id
    else .queueing (rows.map fun consumer => { event, consumer })
  | .saved _, .getActiveConsumers _, .error _ => .idle
  | .queueing _, .push _, _ | .waited _, .push _, _ => .idle
  | .delivering item, .post _, .ok _ => .recording item.event.id
  | .delivering item, .post _, .error _ => .failed item
  | .failed item, .findEvent _ _, .ok (some copy, _) => .abandoning item copy
  | .failed item, .sleep _, _ => .waited item
  | .abandoning _ _, .saveEvent _ _, _ => .idle
  | g, _, _ => g

abbrev protocol : Protocol Request Answer Point := ⟨asks, told, next⟩

def begin (_ : Operation) : Point := .idle

/-- No failure is left without a consequence. -/
def End (_ : Except String Unit) (g : Point) : Prop := ∀ pair, ¬ g.failing pair

variable {sign : Signer} {item : Item}

theorem processQueue_obeys :
    wp (obeying protocol) processQueue (fun _ _ g => g = .idle) (fun _ _ g => g = .idle) ()
      .idle := by
  unfold processQueue
  rw [wp_bind]
  refine ⟨.inr (.inl rfl), fun (batch : Option Nat) _ => ?_⟩
  cases batch with
  | none => exact rfl
  | some batch => exact ⟨.inr (.inr (.inl ⟨_, rfl⟩)), fun _ _ => rfl⟩

theorem enqueue_obeys {items : List Item} {g : Point} (hasks : asks g (.push items))
    (hnext : ∀ b, next g (.push items) b = .idle) :
    wp (obeying protocol) (enqueue items) (fun _ _ g => g = .idle) (fun _ _ g => g = .idle) () g := by
  unfold enqueue
  rw [wp_bind]
  refine ⟨hasks, fun (b : Bool) _ => ?_⟩
  show wp (obeying protocol) (if b then pure () else processQueue) _ _ () (next g (.push items) b)
  rw [hnext b]
  split
  · exact rfl
  · exact processQueue_obeys

theorem markEventAsProcessed_obeys {event : Uuid} {E : String → Unit → Point → Prop} :
    wp (obeying protocol) (EventStorageService.markEventAsProcessed event)
      (fun _ _ g => g = .recording event) E () (.recording event) := by
  unfold EventStorageService.markEventAsProcessed EventStorageService.getEventById
  simp only [wp_bind]
  refine ⟨.inl rfl, ?_⟩
  rintro r ⟨copy, now, rfl, -⟩
  refine ⟨.inr (.inl ⟨_, rfl⟩), ?_⟩
  rintro r rfl
  exact rfl

/-- The task of an event ends without a delivery of its own. -/
def Apart (g : Point) : Prop := g = .idle ∨ ∃ event, g = .recording event

theorem queueEventForDelivery_obeys {event : StellarEvent} :
    wp (obeying protocol) (queueEventForDelivery event) (fun _ _ g => Apart g)
      (fun _ _ g => Apart g) () (.saved event) := by
  unfold queueEventForDelivery ConsumerManagementService.getActiveConsumers
  rw [wp_bind]
  refine ⟨rfl, fun r _ => ?_⟩
  cases r with
  | error e => exact .inl rfl
  | ok rows =>
    show wp (obeying protocol) (if rows.isEmpty then _ else _) _ _ ()
      (if rows.isEmpty then .recording event.id
        else .queueing (rows.map fun consumer => { event, consumer }))
    split
    · refine wp_mono ?_ (fun _ _ _ h => h) markEventAsProcessed_obeys
      rintro - - g rfl
      exact .inr ⟨_, rfl⟩
    · exact wp_mono (fun _ _ _ h => .inl h) (fun _ _ _ h => .inl h)
        (enqueue_obeys rfl fun _ => rfl)

theorem handleEvent_obeys {eventData : Uuid → StellarEventDto} :
    wp (obeying protocol) (handleEvent eventData) (fun _ _ g => Apart g) (fun _ _ g => Apart g) ()
      .idle := by
  unfold handleEvent
  rw [wp_bind]
  refine ⟨.inl rfl, fun (id : Nat) _ => ?_⟩
  show wp (obeying protocol) (request _ _ >>= _) _ _ () (.named id)
  rw [wp_bind]
  refine ⟨⟨_, rfl, rfl, rfl⟩, fun r _ => ?_⟩
  cases r with
  | error e => exact .inl rfl
  | ok _ => exact queueEventForDelivery_obeys

theorem updateDeliveryStats_obeys {id : Uuid} {E : String → Unit → Point → Prop} :
    wp (obeying protocol) (ConsumerManagementService.updateDeliveryStats id false none)
      (fun _ _ g => g = .failed item) E () (.failed item) := by
  unfold ConsumerManagementService.updateDeliveryStats ConsumerManagementService.getConsumerById
  simp only [wp_bind]
  refine ⟨.inl ⟨_, rfl⟩, ?_⟩
  rintro r ⟨consumer, now, rfl, -⟩
  refine ⟨.inr (.inl ⟨_, rfl⟩), ?_⟩
  rintro r rfl
  exact rfl

theorem updateStatus_failed (event : StellarEvent) (consumerId : Uuid) (errorMessage : Option String)
    (now : Int) :
    (updateStatus event .failed consumerId errorMessage now).deliveryStatus = .failed ∧
      consumerId ∈ (updateStatus event .failed consumerId errorMessage now).failedDeliveries.getD [] := by
  have hmem : consumerId ∈ (addId event.failedDeliveries consumerId).getD [] :=
    mem_addId.mpr (.inr rfl)
  cases errorMessage with
  | none => exact ⟨rfl, hmem⟩
  | some message =>
    by_cases hmessage : message = ""
    · simp [updateStatus, hmessage, hmem]
    · simp [updateStatus, hmessage, hmem]

theorem updateFailed_obeys {errorMessage : Option String} {E : String → Unit → Point → Prop}
    (hmax : item.consumer.maxRetries ≤ 1) :
    wp (obeying protocol)
      (EventStorageService.updateEventStatus item.event.id .failed item.consumer.id errorMessage none)
      (fun _ _ g => g = .idle) E () (.failed item) := by
  unfold EventStorageService.updateEventStatus EventStorageService.getEventById
  simp only [wp_bind]
  refine ⟨.inr (.inr (.inl ⟨rfl, hmax⟩)), ?_⟩
  rintro r ⟨copy, now, rfl, -⟩
  refine ⟨⟨_, rfl, (updateStatus_spec _ _ _ _ _).1, updateStatus_failed _ _ _ _⟩, ?_⟩
  rintro r rfl
  exact rfl

/-- What a delivery leaves behind: nothing, or a retry after a second. -/
def Settles (delay : Option Int) (item : Item) (g : Point) : Prop :=
  (delay = none ∧ (g = .delivering item ∨ Apart g)) ∨
    (delay = some 1000 ∧ g = .failed item ∧ 1 < item.consumer.maxRetries)

/-- The attempt of a copy that counts none is the first. -/
theorem handleFailedDelivery_obeys {result : DeliveryResult} {E : String → Unit → Point → Prop}
    (hfresh : item.event.deliveryAttempts = 0) :
    wp (obeying protocol) (handleFailedDelivery item.event item.consumer result)
      (fun delay _ g => Settles delay item g) E () (.failed item) := by
  unfold handleFailedDelivery
  rw [wp_bind]
  refine wp_mono ?_ (fun _ _ _ h => h) updateDeliveryStats_obeys
  rintro _ _ g rfl
  rw [hfresh]
  dsimp only
  split
  · next hmax =>
    rw [wp_bind]
    refine wp_mono ?_ (fun _ _ _ h => h) (updateFailed_obeys (by omega))
    rintro _ _ g rfl
    exact .inl ⟨rfl, .inr (.inl rfl)⟩
  · exact .inr ⟨rfl, rfl, by omega⟩

theorem handleSuccessfulDelivery_obeys {E : String → Unit → Point → Prop} :
    wp (obeying protocol) (handleSuccessfulDelivery item.event item.consumer)
      (fun _ _ g => g = .recording item.event.id) E () (.recording item.event.id) := by
  unfold handleSuccessfulDelivery EventStorageService.updateEventStatus
    EventStorageService.getEventById ConsumerManagementService.updateDeliveryStats
    ConsumerManagementService.getConsumerById ConsumerManagementService.getActiveConsumers
  simp only [wp_bind]
  refine ⟨.inl rfl, ?_⟩
  rintro r ⟨copy, now, rfl, -⟩
  refine ⟨.inr (.inl ⟨_, rfl⟩), ?_⟩
  rintro r rfl
  refine ⟨.inr (.inr (.inl ⟨_, rfl⟩)), ?_⟩
  rintro r ⟨consumer, now, rfl, -⟩
  refine ⟨.inr (.inr (.inr (.inl ⟨_, rfl⟩))), ?_⟩
  rintro r rfl
  refine ⟨.inr (.inr (.inr (.inr (.inl rfl)))), ?_⟩
  rintro r ⟨rows, rfl⟩
  show wp (obeying protocol) (if rows.length ≤ _ then _ else _) _ _ () (.recording item.event.id)
  split
  · exact markEventAsProcessed_obeys
  · exact rfl

theorem deliverEventToConsumer_obeys {E : String → Unit → Point → Prop}
    (hfresh : item.event.deliveryAttempts = 0) :
    wp (obeying protocol) (deliverEventToConsumer sign item.event item.consumer)
      (fun delay _ g => Settles delay item g) E () (.delivering item) := by
  unfold deliverEventToConsumer ConsumerManagementService.getConsumerById
  rw [wp_tryCatch]
  simp only [wp_bind]
  refine ⟨.inl ⟨_, rfl⟩, ?_⟩
  rintro r ⟨consumer, now, rfl, hid⟩
  show wp (obeying protocol) (if consumer.isActive then _ else _) _ _ () (.delivering item)
  split
  · simp only [attemptDelivery, wp_bind]
    refine ⟨.inr (.inl rfl), fun (now : Int) _ => ?_⟩
    refine ⟨.inr (.inr (.inl ⟨_, rfl, rfl, hid⟩)), fun r _ => ?_⟩
    cases r with
    | error e => exact handleFailedDelivery_obeys hfresh
    | ok status =>
      show wp (obeying protocol) (handleSuccessfulDelivery _ _ >>= _) _ _ () (.recording _)
      rw [wp_bind]
      refine wp_mono ?_ (fun _ _ _ h => h) handleSuccessfulDelivery_obeys
      rintro - - g rfl
      exact .inl ⟨rfl, .inr (.inr ⟨_, rfl⟩)⟩
  · exact .inl ⟨rfl, .inl rfl⟩

theorem end_apart {x : Except String Unit} {g : Point} (h : Apart g) : End x g := by
  obtain rfl | ⟨event, rfl⟩ := h
  · exact fun _ h => h
  · exact fun _ h => h

theorem deliver_obeys :
    wp (obeying protocol) (deliver sign) (fun x _ g => End (.ok x) g)
      (fun e _ g => End (.error e) g) () .idle := by
  unfold deliver outcome
  rw [wp_bind]
  refine ⟨.inr (.inr (.inr (.inl rfl))), fun x hfresh => ?_⟩
  obtain ⟨batch, item⟩ := x
  have hfresh : item.event.deliveryAttempts = 0 := hfresh
  show wp (obeying protocol) (tryCatch _ _ >>= _) _ _ () (.delivering item)
  rw [wp_bind, wp_tryCatch, wp_bind]
  refine wp_mono ?_ (fun _ _ _ h => h) (deliverEventToConsumer_obeys hfresh)
  rintro delay - g (⟨rfl, rfl | rfl | ⟨event, rfl⟩⟩ | ⟨rfl, rfl, hmax⟩)
  · rw [wp_pure, wp_bind]
    exact ⟨.inr (.inr (.inr ⟨_, _, rfl⟩)), fun _ _ _ h => h⟩
  · rw [wp_pure, wp_bind]
    exact ⟨.inr (.inr (.inr (.inr (.inl ⟨_, _, rfl⟩)))), fun _ _ _ h => h⟩
  · rw [wp_pure, wp_bind]
    exact ⟨.inr (.inr (.inr (.inr (.inr ⟨_, _, rfl⟩)))), fun _ _ _ h => h⟩
  · rw [wp_pure, wp_bind]
    refine ⟨.inr (.inr (.inr (.inl ⟨_, _, rfl⟩))), fun _ _ => ?_⟩
    show wp (obeying protocol) (ask _ _ >>= _) _ _ () (.failed item)
    rw [wp_bind]
    refine ⟨.inr (.inr (.inr (.inr ⟨rfl, hmax⟩))), fun _ _ => ?_⟩
    exact wp_mono (fun _ _ _ h => end_apart (.inl h)) (fun _ _ _ h => end_apart (.inl h))
      (enqueue_obeys rfl fun _ => rfl)

theorem program_obeys (sign : Signer) (op : Operation) :
    Async.wp (obeying protocol) (op.program sign) End (begin op) := by
  have hidle : ∀ m : On Unit, wp (obeying protocol) m (fun _ _ g => Apart g)
      (fun _ _ g => Apart g) () .idle → Async.wp (obeying protocol) m.program End .idle := by
    intro m hm
    exact wp_program.mpr (wp_mono (fun _ _ _ h => end_apart h) (fun _ _ _ h => end_apart h) hm)
  cases op with
  | handleEvent eventData => exact hidle _ handleEvent_obeys
  | deliver => exact wp_program.mpr deliver_obeys
  | interval =>
    exact hidle _ (wp_mono (fun _ _ _ h => .inl h) (fun _ _ _ h => .inl h) processQueue_obeys)
  | manage consumers =>
    exact hidle _ ⟨.inr (.inr (.inr (.inr (.inr ⟨_, rfl⟩)))), fun _ _ => .inl rfl⟩

/-! ## What is known of a pair -/

section Trace

variable {tr : Trace} {e : Step} {i j : Nat} {a : Request} {r : Answer a} {pair : Pair}

theorem requestOf_start {op : Operation} (h : e.call = .start op) : requestOf e = none := by
  unfold requestOf
  rw [h]

theorem requestOf_answered (h : Answered answer e i a r) : requestOf e = some (i, a) := by
  unfold requestOf
  rw [h.call]
  show (e.before.awaited i).map _ = _
  rw [h.awaited]
  rfl

/-- The step changes nothing that is known of the pair. -/
structure Keeps (tr : Trace) (e : Step) (pair : Pair) : Prop where
  maxRetries : maxRetriesOf pair (e :: tr) = maxRetriesOf pair tr
  marks : marks pair (e :: tr) = marks pair tr

/-- A request that is no mark of a pair and queues nothing. -/
def Silent : Request → Prop
  | .post _ | .sleep _ | .saveEvent _ none | .getActiveConsumers (.queue _) => False
  | _ => True

theorem Keeps.of_silent (h : requestOf e = some (i, a)) (ha : Silent a) : Keeps tr e pair := by
  constructor
  · rw [maxRetriesOf, h]
    cases a with
    | getActiveConsumers purpose =>
      cases purpose with
      | queue event => exact ha.elim
      | check event => rfl
    | _ => rfl
  · rw [Webhooks.marks, markOf, h]
    cases a with
    | post p => exact ha.elim
    | sleep ms => exact ha.elim
    | saveEvent row records =>
      cases records with
      | none => exact ha.elim
      | some event => rfl
    | _ => rfl

theorem Keeps.of_start {op : Operation} (h : e.call = .start op) : Keeps tr e pair := by
  have hnone := requestOf_start h
  constructor
  · rw [maxRetriesOf, hnone]
  · rw [Webhooks.marks, markOf, hnone]

theorem marks_mark {p : Pair} {mark : Mark} (h : markOf tr e = some (p, mark)) :
    marks pair (e :: tr) = if p = pair then mark :: marks pair tr else marks pair tr := by
  rw [Webhooks.marks, h]

theorem marks_self {mark : Mark} (h : markOf tr e = some (pair, mark)) :
    marks pair (e :: tr) = mark :: marks pair tr := by
  rw [marks_mark h, if_pos rfl]

theorem itemOf_start {op : Operation} (h : e.call = .start op) : itemOf (e :: tr) j = itemOf tr j := by
  rw [itemOf, requestOf_start h]

theorem itemOf_of_ne (h : requestOf e = some (i, a)) (hj : j ≠ i) :
    itemOf (e :: tr) j = itemOf tr j := by
  rw [itemOf, h]
  split
  · next heq =>
    cases heq
    rw [if_neg hj.symm]
  · rfl

theorem itemOf_of_ne_begin (h : requestOf e = some (i, a)) (ha : a ≠ .begin) :
    itemOf (e :: tr) j = itemOf tr j := by
  rw [itemOf, h]
  split
  · next heq =>
    cases heq
    exact absurd rfl ha
  · rfl

theorem itemOf_begin (h : requestOf e = some (i, .begin)) {x : Nat × Item} {rest : List (Nat × Item)}
    (hhanded : e.before.world.handed = x :: rest) : itemOf (e :: tr) i = some x.2 := by
  simp only [itemOf, h, if_true, hhanded, List.head?_cons, Option.map_some]

end Trace

/-- The item is to be delivered, and a POST of it is allowed. -/
structure Ready (tr : Trace) (item : Item) : Prop where
  attempts : item.event.deliveryAttempts = 0
  maxRetries : maxRetriesOf item.pair tr = some item.consumer.maxRetries
  stage : ∃ n : Nat, Bounded item.consumer.maxRetries (marks item.pair tr) (.ready n) ∧
    n < item.consumer.maxRetries

/-- The first POST of the item has failed. -/
structure Failed (tr : Trace) (item : Item) : Prop where
  attempts : item.event.deliveryAttempts = 0
  maxRetries : maxRetriesOf item.pair tr = some item.consumer.maxRetries
  stage : Bounded item.consumer.maxRetries (marks item.pair tr) (.failed 1)

/-- What task `i` knows at a point. -/
def Point.Stands (tr : Trace) (w : World) (i : Nat) : Point → Prop
  | .idle | .named _ => True
  | .saved event => event.deliveryAttempts = 0 ∧ Ledger.Stored w event.id
  | .queueing items => ∀ item ∈ items, Ready tr item
  | .delivering item | .waited item => Ready tr item ∧ itemOf tr i = some item
  | .failed item => Failed tr item ∧ itemOf tr i = some item
  | .abandoning item copy => Failed tr item ∧ itemOf tr i = some item ∧
      copy.id = item.event.id ∧ item.consumer.maxRetries ≤ 1
  | .recording event => Ledger.Stored w event

/-- The key of a pair in the books of the ledger. -/
def keyOf (pair : Pair) : Ledger.Key := (pair.1, some pair.2)

def Point.holds (key : Ledger.Key) : Point → Nat
  | .named event => if event = key.1 then 1 else 0
  | .saved event => if event.id = key.1 then 1 else 0
  | .queueing items => items.countP (Ledger.Item.At key)
  | .delivering item | .failed item | .abandoning item _ | .waited item =>
    if Ledger.Item.At key item then 1 else 0
  | _ => 0

/-- What is known of a pair: if it was queued, how far its delivery has come. -/
structure Known (tr : Trace) (w : World) (failing : Prop) (pair : Pair) : Prop where
  limited : ∀ maxRetries, maxRetriesOf pair tr = some maxRetries → Ledger.Queued w pair.1 ∧
    1 ≤ maxRetries ∧ ∃ stage, Bounded maxRetries (marks pair tr) stage ∧
      ∀ n, stage = .failed n → failing
  unlimited : maxRetriesOf pair tr = none → marks pair tr = []
  failures : .posted false ∈ marks pair tr → ⟨pair.1, pair.2, false⟩ ∈ w.posts

/-- Of a pair there is one item at most, in the queue, handed out or in a task. -/
structure Ways (tr : Trace) (w : World) (gs : List Point) : Prop where
  tally : ∀ key, (gs.map (Point.holds key)).sum + Ledger.spent key w ≤ Ledger.room w key.1
  consumers : (w.consumers.map (·.id)).Nodup
  stored : ∀ event, Ledger.Queued w event → Ledger.Stored w event
  queue : ∀ item ∈ w.deliveryQueue, Ready tr item
  handed : ∀ x ∈ w.handed, Ready tr x.2
  points : ∀ (i : Nat) (g : Point), gs[i]? = some g → g.Stands tr w i
  pairs : ∀ pair, Known tr w (∃ g ∈ gs, g.failing pair) pair

section Keeping

variable {tr : Trace} {e : Step} {item : Item} {w w' : World} {g k : Point} {gs : List Point}
  {i j : Nat} {pair : Pair}

theorem Ready.keep (h : Ready tr item) (hkeeps : Keeps tr e item.pair) : Ready (e :: tr) item where
  attempts := h.attempts
  maxRetries := hkeeps.maxRetries.trans h.maxRetries
  stage := by
    rw [hkeeps.marks]
    exact h.stage

theorem Failed.keep (h : Failed tr item) (hkeeps : Keeps tr e item.pair) : Failed (e :: tr) item where
  attempts := h.attempts
  maxRetries := hkeeps.maxRetries.trans h.maxRetries
  stage := by
    rw [hkeeps.marks]
    exact h.stage

theorem at_pair (item : Item) : Ledger.Item.At (keyOf item.pair) item = true :=
  decide_eq_true rfl

/-- A point stands while no pair that it holds is touched. -/
theorem Point.Stands.keep (h : g.Stands tr w j)
    (hkeeps : ∀ pair, g.holds (keyOf pair) ≠ 0 → Keeps tr e pair)
    (hitem : itemOf (e :: tr) j = itemOf tr j) (hgrows : Ledger.Grows w w') :
    g.Stands (e :: tr) w' j := by
  have hone : ∀ item : Item, (if Ledger.Item.At (keyOf item.pair) item then 1 else 0) ≠ 0 :=
    fun item => by
      rw [if_pos (at_pair item)]
      exact Nat.one_ne_zero
  cases g with
  | idle | named _ => trivial
  | saved event => exact ⟨h.1, hgrows.stored _ h.2⟩
  | queueing items =>
    intro item hmem
    refine (h item hmem).keep (hkeeps _ (Nat.pos_iff_ne_zero.mp ?_))
    exact List.countP_pos_iff.mpr ⟨item, hmem, at_pair item⟩
  | delivering item => exact ⟨h.1.keep (hkeeps _ (hone item)), hitem.trans h.2⟩
  | waited item => exact ⟨h.1.keep (hkeeps _ (hone item)), hitem.trans h.2⟩
  | failed item => exact ⟨h.1.keep (hkeeps _ (hone item)), hitem.trans h.2⟩
  | abandoning item copy => exact ⟨h.1.keep (hkeeps _ (hone item)), hitem.trans h.2.1, h.2.2⟩
  | recording event => exact hgrows.stored _ h

theorem Known.keep {failing failing' : Prop} (h : Known tr w failing pair) (hkeeps : Keeps tr e pair)
    (hgrows : Ledger.Grows w w') (hfailing : failing → failing') : Known (e :: tr) w' failing' pair where
  limited maxRetries hmax := by
    obtain ⟨hqueued, hone, stage, hbounded, hfailed⟩ :=
      h.limited maxRetries (hkeeps.maxRetries.symm.trans hmax)
    rw [hkeeps.marks]
    exact ⟨hgrows.isQueued hqueued, hone, stage, hbounded, fun n hn => hfailing (hfailed n hn)⟩
  unlimited hnone := hkeeps.marks.trans (h.unlimited (hkeeps.maxRetries.symm.trans hnone))
  failures hmem := hgrows.posts _ (h.failures (hkeeps.marks ▸ hmem))

theorem Point.holds_of_failing (h : g.failing pair) : g.holds (keyOf pair) = 1 := by
  cases g with
  | failed item =>
    cases h
    exact if_pos (at_pair item)
  | abandoning item copy =>
    cases h
    exact if_pos (at_pair item)
  | _ => exact h.elim

/-- What is elsewhere, the task does not hold. -/
theorem Ways.holds_of_spent (h : Ways tr w gs) (hg : gs[i]? = some g) {key : Ledger.Key}
    (hspent : 0 < Ledger.spent key w) : g.holds key = 0 := by
  have hle := Async.le_sum_map (f := Point.holds key) (List.mem_of_getElem? hg)
  have := h.tally key
  have : Ledger.room w key.1 ≤ 1 := Ledger.room_le_one
  omega

theorem Ways.spent_of_holds (h : Ways tr w gs) (hg : gs[i]? = some g) {key : Ledger.Key}
    (hheld : 0 < g.holds key) : Ledger.spent key w = 0 := by
  have hle := Async.le_sum_map (f := Point.holds key) (List.mem_of_getElem? hg)
  have := h.tally key
  have : Ledger.room w key.1 ≤ 1 := Ledger.room_le_one
  omega

/-- What one task holds, the others do not. -/
theorem Ways.holds_of_ne (h : Ways tr w gs) (hg : gs[i]? = some g) {g' : Point}
    (hg' : gs[j]? = some g') (hne : j ≠ i) {key : Ledger.Key} (hheld : 0 < g'.holds key) :
    g.holds key = 0 := by
  have hsum := sum_map_set (f := Point.holds key) (k := .idle) hg
  have hmem : g' ∈ gs.set i .idle := by
    refine List.mem_of_getElem? (i := j) ?_
    rw [List.getElem?_set_ne hne.symm]
    exact hg'
  have hle := Async.le_sum_map (f := Point.holds key) hmem
  have htally := h.tally key
  have hroom : Ledger.room w key.1 ≤ 1 := Ledger.room_le_one
  have hidle : Point.holds key .idle = 0 := rfl
  omega

theorem spent_of_queue (hmem : item ∈ w.deliveryQueue) : 0 < Ledger.spent (keyOf item.pair) w := by
  have hpos : 0 < w.deliveryQueue.countP (Ledger.Item.At (keyOf item.pair)) :=
    List.countP_pos_iff.mpr ⟨item, hmem, at_pair item⟩
  unfold Ledger.spent
  omega

theorem spent_of_handed {x : Nat × Item} (hmem : x ∈ w.handed) :
    0 < Ledger.spent (keyOf x.2.pair) w := by
  have hpos : 0 < w.handed.countP fun y => Ledger.Item.At (keyOf x.2.pair) y.2 :=
    List.countP_pos_iff.mpr ⟨x, hmem, at_pair x.2⟩
  unfold Ledger.spent
  omega

/-- **A task moves on**, and touches no pair but those it holds. -/
theorem Ways.move (h : Ways tr w gs) (hg : gs[i]? = some g)
    (hkeeps : ∀ pair, g.holds (keyOf pair) = 0 → Keeps tr e pair)
    (hitems : ∀ j, j ≠ i → itemOf (e :: tr) j = itemOf tr j) (hgrows : Ledger.Grows w w')
    (htally : ∀ key, k.holds key + Ledger.spent key w' + Ledger.room w key.1 ≤
      g.holds key + Ledger.spent key w + Ledger.room w' key.1)
    (hconsumers : (w'.consumers.map (·.id)).Nodup)
    (hstored : ∀ event, Ledger.Queued w' event → Ledger.Queued w event ∨ Ledger.Stored w' event)
    (hqueue : ∀ item ∈ w'.deliveryQueue, item ∈ w.deliveryQueue ∨ Ready (e :: tr) item)
    (hhanded : ∀ x ∈ w'.handed, x ∈ w.handed ∨ Ready (e :: tr) x.2)
    (hk : k.Stands (e :: tr) w' i)
    (hpairs : ∀ pair, g.holds (keyOf pair) ≠ 0 →
      Known (e :: tr) w' (∃ g ∈ gs.set i k, g.failing pair) pair) :
    Ways (e :: tr) w' (gs.set i k) where
  tally key := by
    have hsum := sum_map_set (f := Point.holds key) (k := k) hg
    have := h.tally key
    have := htally key
    omega
  consumers := hconsumers
  stored event hqueued := (hstored event hqueued).elim
    (fun hqueued => hgrows.stored _ (h.stored event hqueued)) fun hstored => hstored
  queue item hmem := (hqueue item hmem).elim
    (fun hmem => (h.queue item hmem).keep (hkeeps _ (h.holds_of_spent hg (spent_of_queue hmem))))
    fun hready => hready
  handed x hmem := (hhanded x hmem).elim
    (fun hmem => (h.handed x hmem).keep (hkeeps _ (h.holds_of_spent hg (spent_of_handed hmem))))
    fun hready => hready
  points j g' hg' := by
    by_cases hj : j = i
    · subst hj
      rw [List.getElem?_set_self (List.getElem?_eq_some_iff.mp hg).1] at hg'
      cases hg'
      exact hk
    · rw [List.getElem?_set_ne (Ne.symm hj)] at hg'
      exact (h.points j g' hg').keep
        (fun pair hheld => hkeeps pair (h.holds_of_ne hg hg' hj (Nat.pos_iff_ne_zero.mpr hheld)))
        (hitems j hj) hgrows
  pairs pair := by
    by_cases hheld : g.holds (keyOf pair) = 0
    · refine (h.pairs pair).keep (hkeeps pair hheld) hgrows fun hfailing => ?_
      refine (Async.exists_mem_set k hg hfailing).resolve_right fun hfailing => ?_
      rw [Point.holds_of_failing hfailing] at hheld
      cases hheld
    · exact hpairs pair hheld

/-- Nothing is queued, handed out or posted, and no event is lost. -/
structure Alike (w w' : World) : Prop where
  stored : ∀ event, Ledger.Stored w event → Ledger.Stored w' event
  consumers : (w.consumers.map (·.id)).Nodup → (w'.consumers.map (·.id)).Nodup
  deliveryQueue : w'.deliveryQueue = w.deliveryQueue
  handed : w'.handed = w.handed
  posts : w'.posts = w.posts
  queued : w'.queued = w.queued
  uuids : w'.uuids = w.uuids

theorem Alike.refl : Alike w w := ⟨fun _ h => h, id, rfl, rfl, rfl, rfl, rfl⟩

theorem Alike.grows (h : Alike w w') : Ledger.Grows w w' :=
  ⟨h.stored, fun _ hq => h.queued ▸ hq, fun _ hp => h.posts ▸ hp⟩

theorem Alike.spent (h : Alike w w') (key : Ledger.Key) :
    Ledger.spent key w' = Ledger.spent key w := by
  unfold Ledger.spent Ledger.deliveries Ledger.queueings
  rw [h.deliveryQueue, h.handed, h.posts, h.queued]

theorem Alike.room (h : Alike w w') (event : Uuid) : Ledger.room w' event = Ledger.room w event := by
  unfold Ledger.room
  rw [h.uuids]

theorem Alike.insert (row : StellarEvent) : Alike w { w with events := w.events ++ [row] } :=
  ⟨fun _ ⟨x, hx, hid⟩ => ⟨x, List.mem_append_left _ hx, hid⟩, id, rfl, rfl, rfl, rfl, rfl⟩

theorem Alike.save (row : StellarEvent) :
    Alike w { w with events := updateWhere (·.id = row.id) (fun _ => row) w.events } := by
  refine ⟨fun event ⟨stored, hstored, hid⟩ => ?_, id, rfl, rfl, rfl, rfl, rfl⟩
  have hids : (updateWhere (·.id = row.id) (fun _ => row) w.events).map (·.id) =
      w.events.map (·.id) := map_updateWhere fun x _ hx => (of_decide_eq_true hx).symm
  exact List.mem_map.mp (hids ▸ List.mem_map.mpr ⟨stored, hstored, hid⟩)

/-- A task moves on, and nothing that is known of a pair changes. -/
theorem Ways.alike (h : Ways tr w gs) (hg : gs[i]? = some g) (halike : Alike w w')
    (hkeeps : ∀ pair, Keeps tr e pair) (hitems : ∀ j, j ≠ i → itemOf (e :: tr) j = itemOf tr j)
    (hholds : ∀ key, k.holds key ≤ g.holds key) (hk : k.Stands (e :: tr) w' i)
    (hfailing : ∀ pair, g.failing pair → k.failing pair) : Ways (e :: tr) w' (gs.set i k) := by
  refine h.move hg (fun pair _ => hkeeps pair) hitems halike.grows (fun key => ?_)
    (halike.consumers h.consumers) (fun event hqueued => .inl ?_) (fun item hmem => .inl ?_)
    (fun x hmem => .inl ?_) hk fun pair _ => ?_
  · have := hholds key
    rw [halike.spent, halike.room]
    omega
  · unfold Ledger.Queued at hqueued ⊢
    rwa [halike.queued] at hqueued
  · rwa [halike.deliveryQueue] at hmem
  · rwa [halike.handed] at hmem
  · refine (h.pairs pair).keep (hkeeps pair) halike.grows fun hfail => ?_
    rcases Async.exists_mem_set k hg hfail with hfail | hfail
    · exact hfail
    · exact ⟨k, Async.mem_set k hg, hfailing pair hfail⟩

/-- A task stays where it is. -/
theorem Ways.stay (h : Ways tr w gs) (hg : gs[i]? = some g) (halike : Alike w w')
    (hkeeps : ∀ pair, Keeps tr e pair) (hitems : ∀ j, itemOf (e :: tr) j = itemOf tr j) :
    Ways (e :: tr) w' (gs.set i g) :=
  h.alike hg halike hkeeps (fun j _ => hitems j) (fun _ => Nat.le_refl _)
    ((h.points i g hg).keep (fun pair _ => hkeeps pair) (hitems i) halike.grows) fun _ h => h

/-- Items go to the end of the queue. -/
theorem Ways.push {items : List Item} (h : Ways tr w gs) (hg : gs[i]? = some g)
    (hkeeps : ∀ pair, Keeps tr e pair) (hitems : ∀ j, itemOf (e :: tr) j = itemOf tr j)
    (hready : ∀ item ∈ items, Ready tr item)
    (hholds : ∀ key, items.countP (Ledger.Item.At key) ≤ g.holds key)
    (hfailing : ∀ pair, ¬ g.failing pair) :
    Ways (e :: tr) { w with deliveryQueue := w.deliveryQueue ++ items } (gs.set i .idle) := by
  refine h.move hg (fun pair _ => hkeeps pair) (fun j _ => hitems j)
    ⟨fun _ h => h, fun _ h => h, fun _ h => h⟩ (fun key => ?_) h.consumers (fun _ => .inl)
    (fun item hmem => ?_) (fun _ => .inl) trivial fun pair _ => ?_
  · have hheld := hholds key
    rw [Ledger.spent_push]
    show 0 + _ + Ledger.room w key.1 ≤ _ + Ledger.room w key.1
    omega
  · exact (List.mem_append.mp hmem).imp id fun hmem => (hready item hmem).keep (hkeeps _)
  · refine (h.pairs pair).keep (hkeeps pair) ⟨fun _ h => h, fun _ h => h, fun _ h => h⟩ fun hfail => ?_
    exact (Async.exists_mem_set _ hg hfail).resolve_right (hfailing pair)

/-- A batch of the queue is handed out. -/
theorem Ways.splice (h : Ways tr w gs) (hg : gs[i]? = some .idle)
    (hkeeps : ∀ pair, Keeps tr e pair) (hitems : ∀ j, itemOf (e :: tr) j = itemOf tr j)
    (n batch : Nat) (batches : List Batch) :
    Ways (e :: tr) { w with
        deliveryQueue := w.deliveryQueue.drop n
        isProcessingQueue := true
        handed := w.handed ++ (w.deliveryQueue.take n).map fun item => (batch, item)
        batches } (gs.set i .idle) := by
  refine h.move hg (fun pair _ => hkeeps pair) (fun j _ => hitems j)
    ⟨fun _ h => h, fun _ h => h, fun _ h => h⟩ (fun key => ?_) h.consumers (fun _ => .inl)
    (fun item hmem => .inl (List.mem_of_mem_drop hmem)) (fun x hmem => ?_) trivial
    fun pair hheld => absurd rfl hheld
  · rw [Ledger.spent_splice]
    exact Nat.le_refl _
  · refine (List.mem_append.mp hmem).imp id fun hmem => ?_
    obtain ⟨item, hitem, rfl⟩ := List.mem_map.mp hmem
    exact (h.queue item (List.mem_of_mem_take hitem)).keep (hkeeps _)

/-- A delivery of the batch begins. -/
theorem Ways.take (h : Ways tr w gs) (hg : gs[i]? = some .idle)
    (hkeeps : ∀ pair, Keeps tr e pair) (hitems : ∀ j, j ≠ i → itemOf (e :: tr) j = itemOf tr j)
    {x : Nat × Item} {handed : List (Nat × Item)} (hhanded : w.handed = x :: handed)
    (hitem : itemOf (e :: tr) i = some x.2) :
    Ways (e :: tr) { w with handed } (gs.set i (.delivering x.2)) := by
  refine h.move hg (fun pair _ => hkeeps pair) hitems ⟨fun _ h => h, fun _ h => h, fun _ h => h⟩
    (fun key => ?_) h.consumers (fun _ => .inl) (fun _ => .inl)
    (fun y hmem => .inl (hhanded ▸ List.mem_cons_of_mem _ hmem))
    ⟨(h.handed x (hhanded ▸ List.mem_cons_self)).keep (hkeeps _), hitem⟩
    fun pair hheld => absurd rfl hheld
  have htake : Ledger.spent key w = Ledger.spent key { w with handed } +
      if Ledger.Item.At key x.2 then 1 else 0 := Ledger.spent_take hhanded
  have hroom : Ledger.room { w with handed } key.1 = Ledger.room w key.1 := rfl
  rw [htake, hroom]
  show (if _ then 1 else 0) + _ + _ ≤ 0 + _ + _
  omega

/-- A UUID names an event. -/
theorem Ways.name (h : Ways tr w gs) (hg : gs[i]? = some .idle)
    (hkeeps : ∀ pair, Keeps tr e pair) (hitems : ∀ j, itemOf (e :: tr) j = itemOf tr j) :
    Ways (e :: tr) { w with uuids := w.uuids + 1 } (gs.set i (.named w.uuids)) := by
  refine h.move hg (fun pair _ => hkeeps pair) (fun j _ => hitems j)
    ⟨fun _ h => h, fun _ h => h, fun _ h => h⟩ (fun key => ?_) h.consumers (fun _ => .inl)
    (fun _ => .inl) (fun _ => .inl) trivial fun pair hheld => absurd rfl hheld
  have hspent : Ledger.spent key { w with uuids := w.uuids + 1 } = Ledger.spent key w := rfl
  rw [hspent]
  exact Ledger.named_le key.1 w.uuids _

/-- **A mark** of the pair that the task holds. -/
theorem Ways.mark {mark : Mark} {stage : Stage} (h : Ways tr w gs) (hg : gs[i]? = some g)
    (hheld : ∀ key, g.holds key = if Ledger.Item.At key item then 1 else 0)
    (hmark : markOf tr e = some (item.pair, mark))
    (hmax : ∀ pair, maxRetriesOf pair (e :: tr) = maxRetriesOf pair tr)
    (hitems : ∀ j, itemOf (e :: tr) j = itemOf tr j) (hgrows : Ledger.Grows w w')
    (hqueued : w'.queued = w.queued) (hconsumers : w'.consumers = w.consumers)
    (hqueue : w'.deliveryQueue = w.deliveryQueue) (hhanded : w'.handed = w.handed)
    (htally : ∀ key, k.holds key + Ledger.spent key w' + Ledger.room w key.1 ≤
      g.holds key + Ledger.spent key w + Ledger.room w' key.1)
    (hitem : maxRetriesOf item.pair tr = some item.consumer.maxRetries)
    (hstage : Bounded item.consumer.maxRetries (mark :: marks item.pair tr) stage)
    (hfailed : ∀ n, stage = .failed n → k.failing item.pair)
    (hposted : mark = .posted false → ⟨item.event.id, item.consumer.id, false⟩ ∈ w'.posts)
    (hk : k.Stands (e :: tr) w' i) : Ways (e :: tr) w' (gs.set i k) := by
  have hmarks : ∀ pair, marks pair (e :: tr) =
      if item.pair = pair then mark :: marks pair tr else marks pair tr := fun _ => marks_mark hmark
  refine h.move hg (fun pair hpair => ⟨hmax pair, ?_⟩) (fun j _ => hitems j) hgrows htally
    (hconsumers ▸ h.consumers) (fun event hevent => .inl ?_) (fun x hmem => .inl (hqueue ▸ hmem))
    (fun x hmem => .inl (hhanded ▸ hmem)) hk fun pair hpair => ?_
  · rw [hmarks, if_neg]
    rintro rfl
    rw [hheld, if_pos (at_pair item)] at hpair
    cases hpair
  · unfold Ledger.Queued at hevent ⊢
    rwa [hqueued] at hevent
  · obtain rfl : item.pair = pair := by
      rw [hheld] at hpair
      have hat : Ledger.Item.At (keyOf pair) item = true := by
        by_contra hne
        exact hpair (if_neg hne)
      have hkey : keyOf pair = keyOf item.pair := of_decide_eq_true hat
      simp only [keyOf, Prod.mk.injEq, Option.some.injEq] at hkey
      exact Prod.ext hkey.1.symm hkey.2.symm
    have hknown := h.pairs item.pair
    obtain ⟨hisQueued, hone, -⟩ := hknown.limited _ hitem
    refine ⟨fun maxRetries hsome => ?_, fun hnone => ?_, fun hmem => ?_⟩
    · cases ((hmax _).trans hitem).symm.trans hsome
      rw [hmarks, if_pos rfl]
      exact ⟨hgrows.isQueued hisQueued, hone, stage, hstage, fun n hn =>
        ⟨k, Async.mem_set k hg, hfailed n hn⟩⟩
    · cases ((hmax _).trans hitem).symm.trans hnone
    · rw [hmarks, if_pos rfl] at hmem
      rcases List.mem_cons.mp hmem with heq | hmem
      · exact hposted heq.symm
      · exact hgrows.posts _ (hknown.failures hmem)

/-- What is held is not queued yet: nothing is known of its pairs. -/
theorem Ways.fresh {event : StellarEvent} (h : Ways tr w gs) (hg : gs[i]? = some (.saved event))
    (hevent : pair.1 = event.id) : maxRetriesOf pair tr = none ∧ marks pair tr = [] := by
  have hnone : maxRetriesOf pair tr = none := by
    refine Option.eq_none_iff_forall_not_mem.mpr fun maxRetries hsome => ?_
    obtain ⟨hqueued, -⟩ := (h.pairs pair).limited maxRetries hsome
    have hpos := Ledger.queueings_pos hqueued
    have hspent : Ledger.spent (pair.1, none) w = 0 :=
      h.spent_of_holds hg (by simp [Point.holds, hevent])
    unfold Ledger.spent at hspent
    omega
  exact ⟨hnone, (h.pairs pair).unlimited hnone⟩

theorem find_of_nodup {rows : List WebhookConsumer} {consumer : WebhookConsumer}
    (hnodup : (rows.map (·.id)).Nodup) (hmem : consumer ∈ rows) :
    rows.find? (fun x => x.id = consumer.id) = some consumer := by
  obtain ⟨x, hx⟩ := Option.isSome_iff_exists.mp
    (List.find?_isSome (p := fun x : WebhookConsumer => decide (x.id = consumer.id)).mpr
      ⟨consumer, hmem, by simp⟩)
  have hid : x.id = consumer.id :=
    of_decide_eq_true (List.find?_some (p := fun x : WebhookConsumer => decide (x.id = consumer.id)) hx)
  rw [hx, List.inj_on_of_nodup_map hnodup (List.mem_of_find?_eq_some hx) hmem hid]

/-- A stored event is queued for the active consumers. -/
theorem Ways.queueEvent {event : StellarEvent} (h : Ways tr e.before.world gs)
    (hg : gs[i]? = some (.saved event))
    (hrequest : requestOf e = some (i, .getActiveConsumers (.queue event.id)))
    (haccepted : e.env.rejects = none) (hone : ∀ x ∈ e.before.world.activeConsumers, 1 ≤ x.maxRetries) :
    Ways (e :: tr)
      { e.before.world with
        queued := (event.id, e.before.world.activeConsumers.map (·.id)) :: e.before.world.queued }
      (gs.set i (if e.before.world.activeConsumers.isEmpty then .recording event.id
        else .queueing (e.before.world.activeConsumers.map fun consumer => { event, consumer }))) := by
  set w := e.before.world
  set rows := w.activeConsumers with hrows
  set w' : World := { w with queued := (event.id, rows.map (·.id)) :: w.queued }
  have hgrows : Ledger.Grows w w' := ⟨fun _ h => h, fun _ h => List.mem_cons_of_mem _ h, fun _ h => h⟩
  have hnodup : (rows.map (·.id)).Nodup := h.consumers.sublist (List.filter_sublist.map _)
  obtain ⟨hattempts, hstored⟩ : event.deliveryAttempts = 0 ∧ Ledger.Stored w event.id := h.points i _ hg
  have hmarks : ∀ pair, marks pair (e :: tr) = marks pair tr := fun pair => by
    rw [marks, markOf, hrequest]
  have hmax : ∀ pair, maxRetriesOf pair (e :: tr) =
      if event.id = pair.1 then
        ((rows.find? fun x => x.id = pair.2).map (·.maxRetries)) <|> maxRetriesOf pair tr
      else maxRetriesOf pair tr := fun pair => by
    rw [maxRetriesOf, hrequest]
    simp only [haccepted, and_true]
    rfl
  have hready : ∀ consumer ∈ rows, Ready (e :: tr) { event, consumer } := by
    intro consumer hmem
    obtain ⟨-, hnil⟩ : _ ∧ marks (event.id, consumer.id) tr = [] := h.fresh hg rfl
    refine ⟨hattempts, ?_, 0, ?_, ?_⟩
    · rw [hmax, if_pos (show event.id = (Item.pair ⟨event, consumer⟩).1 from rfl)]
      show ((rows.find? fun x => x.id = consumer.id).map (·.maxRetries) <|> _) = _
      rw [find_of_nodup hnodup hmem]
      rfl
    · rw [hmarks]
      show Bounded _ (marks (event.id, consumer.id) tr) _
      rw [hnil]
      exact .start
    · have := hone consumer hmem
      show ((0 : Nat) : Int) < consumer.maxRetries
      omega
  refine h.move hg (fun pair hpair => ⟨?_, hmarks pair⟩)
    (fun j _ => itemOf_of_ne_begin hrequest nofun) hgrows (fun key => ?_) h.consumers
    (fun e' hqueued => ?_) (fun _ => .inl) (fun _ => .inl) ?_ fun pair hpair => ?_
  · rw [hmax, if_neg]
    intro heq
    exact Nat.one_ne_zero ((if_pos heq).symm.trans hpair)
  · have hitems : (rows.map fun consumer => (⟨event, consumer⟩ : Item)).countP
        (Ledger.Item.At key) + Ledger.spent key w' ≤
          (if event.id = key.1 then 1 else 0) + Ledger.spent key w :=
      Ledger.countP_items_add_spent hnodup
    have hroom : Ledger.room w' key.1 = Ledger.room w key.1 := rfl
    have hheld : Point.holds key (.saved event) = if event.id = key.1 then 1 else 0 := rfl
    rw [hroom, hheld]
    split
    · show 0 + _ + _ ≤ _
      omega
    · show List.countP _ _ + _ + _ ≤ _
      omega
  · obtain ⟨ids, hids⟩ := hqueued
    rcases List.mem_cons.mp hids with heq | hids
    · obtain ⟨rfl, -⟩ := Prod.mk.inj heq
      exact .inr hstored
    · exact .inl ⟨ids, hids⟩
  · split
    · exact hstored
    · intro item hmem
      obtain ⟨consumer, hconsumer, rfl⟩ := List.mem_map.mp hmem
      exact hready consumer hconsumer
  · have hevent : event.id = pair.1 := by
      by_contra hne
      exact hpair (if_neg hne)
    obtain ⟨hnone, hnil⟩ := h.fresh hg hevent.symm
    refine ⟨fun maxRetries hsome => ?_, fun _ => (hmarks pair).trans hnil, fun hmem => ?_⟩
    · rw [hmax, if_pos hevent, hnone] at hsome
      obtain ⟨x, hx, rfl⟩ : ∃ x, rows.find? (fun x => x.id = pair.2) = some x ∧
          x.maxRetries = maxRetries := by
        simpa using hsome
      have hqueued : Ledger.Queued w' pair.1 := by
        rw [← hevent]
        exact ⟨_, List.mem_cons_self⟩
      refine ⟨hqueued, hone x (List.mem_of_find?_eq_some hx), .ready 0, ?_, nofun⟩
      rw [hmarks, hnil]
      exact .start
    · rw [hmarks, hnil] at hmem
      cases hmem

/-! ## One answer -/

variable {a : Request} {r : Answer a} {c : Outside}

/-- A request that queues, hands out and posts nothing. -/
def Plain : Request → Prop
  | .randomUUID | .push _ | .splice | .begin | .getActiveConsumers (.queue _) | .post _ => False
  | _ => True

theorem alike_of_plain (hx : answer c w a = some (r, w')) (ha : Plain a) : Alike w w' := by
  have hattempt : ∀ {α : Type} {x : α} {v : World} {r : Except String α},
      some (Async.attempt c.rejects x w v) = some (r, w') → Alike w v → Alike w w' := by
    intro α x v r hx halike
    rcases attempt_cases hx with ⟨_, -, -, rfl⟩ | ⟨-, -, rfl⟩
    · exact .refl
    · exact halike
  cases a with
  | randomUUID | push _ | splice | begin | post _ => exact ha.elim
  | getActiveConsumers purpose =>
    cases purpose with
    | queue event => exact ha.elim
    | check event => exact hattempt hx .refl
  | insertEvent row => exact hattempt hx (.insert row)
  | findEvent id records => exact hattempt hx .refl
  | findConsumer id records => exact hattempt hx .refl
  | saveEvent row records => exact hattempt hx (.save row)
  | saveConsumer row records =>
    exact hattempt hx ⟨fun _ h => h, Ledger.nodup_saveRow, rfl, rfl, rfl, rfl, rfl⟩
  | settled batch =>
    simp only [answer] at hx
    split at hx
    · cases hx
      exact ⟨fun _ h => h, id, rfl, rfl, rfl, rfl, rfl⟩
    · cases hx
  | finish batch ok =>
    cases hx
    exact ⟨fun _ h => h, id, rfl, rfl, rfl, rfl, rfl⟩
  | now | sleep _ =>
    cases hx
    exact .refl
  | manage consumers =>
    cases hx
    split
    · next hnodup => exact ⟨fun _ h => h, fun _ => hnodup, rfl, rfl, rfl, rfl, rfl⟩
    · exact .refl

theorem told_of_good (hx : answer c w a = some (r, w')) (hgood : FailsOnce c w a)
    (hbegin : a ≠ .begin)
    (hstored : ∀ id records, a = .findEvent id records → Ledger.Stored w id) : told g a r := by
  cases a with
  | begin => exact absurd rfl hbegin
  | findEvent id records =>
    rcases attempt_cases hx with ⟨_, hrejects, -, -⟩ | ⟨-, rfl, -⟩
    · cases hgood.symm.trans hrejects
    · obtain ⟨copy, hfind⟩ := (hstored id records rfl).find
      refine ⟨copy, c.now, by rw [hfind], ?_⟩
      exact of_decide_eq_true (List.find?_some (p := fun x : StellarEvent => decide (x.id = id)) hfind)
  | findConsumer id records =>
    rcases attempt_cases hx with ⟨_, hrejects, -, -⟩ | ⟨-, rfl, -⟩
    · cases hgood.1.symm.trans hrejects
    · obtain ⟨x, hmem, rfl⟩ := hgood.2
      obtain ⟨consumer, hfind⟩ := Option.isSome_iff_exists.mp
        (List.find?_isSome (p := fun y : WebhookConsumer => decide (y.id = x.id)).mpr
          ⟨x, hmem, by simp⟩)
      refine ⟨consumer, c.now, by rw [hfind], ?_⟩
      exact of_decide_eq_true
        (List.find?_some (p := fun y : WebhookConsumer => decide (y.id = x.id)) hfind)
  | saveEvent row records | saveConsumer row records =>
    rcases attempt_cases hx with ⟨_, hrejects, -, -⟩ | ⟨-, rfl, -⟩
    · cases hgood.symm.trans hrejects
    · exact rfl
  | getActiveConsumers purpose =>
    cases purpose with
    | queue event => trivial
    | check event =>
      rcases attempt_cases hx with ⟨_, hrejects, -, -⟩ | ⟨-, rfl, -⟩
      · cases hgood.symm.trans hrejects
      · exact ⟨_, rfl⟩
  | _ => trivial

/-- A task that asks nothing of note stays where it is. -/
theorem Ways.plain (h : Ways tr e.before.world gs) (hg : gs[i]? = some g)
    (hrequest : requestOf e = some (i, a)) (hx : answer e.env e.before.world a = some (r, w'))
    (hplain : Plain a) (hsilent : Silent a) : Ways (e :: tr) w' (gs.set i g) :=
  h.stay hg (alike_of_plain hx hplain) (fun _ => .of_silent hrequest hsilent)
    fun _ => itemOf_of_ne_begin hrequest (by rintro rfl; exact hplain)

theorem Ways.answered_idle (h : Ways tr e.before.world gs) (hg : gs[i]? = some .idle)
    (hasks : asks .idle a) (hrequest : requestOf e = some (i, a))
    (hx : answer e.env e.before.world a = some (r, w')) :
    told .idle a r ∧ Ways (e :: tr) w' (gs.set i (next .idle a r)) := by
  obtain rfl | rfl | ⟨batch, rfl⟩ | rfl | ⟨batch, ok, rfl⟩ | ⟨consumers, rfl⟩ := hasks
  · cases hx
    exact ⟨trivial, h.name hg (fun _ => .of_silent hrequest trivial)
      fun _ => itemOf_of_ne_begin hrequest nofun⟩
  · have hkeeps : ∀ pair, Keeps tr e pair := fun _ => .of_silent hrequest trivial
    have hitems : ∀ j, itemOf (e :: tr) j = itemOf tr j := fun _ =>
      itemOf_of_ne_begin hrequest nofun
    simp only [answer] at hx
    split at hx
    · cases hx
      exact ⟨trivial, h.stay hg .refl hkeeps hitems⟩
    · cases hx
      exact ⟨trivial, h.splice hg hkeeps hitems _ _ _⟩
  · exact ⟨trivial, h.plain hg hrequest hx trivial trivial⟩
  · simp only [answer] at hx
    split at hx
    · next hhanded =>
      cases hx
      exact ⟨(h.handed _ (hhanded ▸ List.mem_cons_self)).attempts,
        h.take hg (fun _ => .of_silent hrequest trivial) (fun _ hj => itemOf_of_ne hrequest hj)
          hhanded (itemOf_begin hrequest hhanded)⟩
    · cases hx
  · exact ⟨trivial, h.plain hg hrequest hx trivial trivial⟩
  · exact ⟨trivial, h.plain hg hrequest hx trivial trivial⟩

theorem Ways.answered_saved {event : StellarEvent} (h : Ways tr e.before.world gs)
    (hg : gs[i]? = some (.saved event))
    (hrequest : requestOf e = some (i, .getActiveConsumers (.queue event.id)))
    (hgood : FailsOnce e.env e.before.world (.getActiveConsumers (.queue event.id)))
    {r : Answer (.getActiveConsumers (.queue event.id))}
    (hx : answer e.env e.before.world (.getActiveConsumers (.queue event.id)) = some (r, w')) :
    Ways (e :: tr) w' (gs.set i (next (.saved event) (.getActiveConsumers (.queue event.id)) r)) := by
  rcases attempt_cases hx with ⟨_, hrejects, rfl, rfl⟩ | ⟨haccepted, rfl, rfl⟩
  · -- nothing is queued
    have hkeeps : ∀ pair, Keeps tr e pair := fun pair => by
      constructor
      · rw [maxRetriesOf, hrequest]
        simp only [hrejects, reduceCtorEq, and_false, if_false]
      · rw [marks, markOf, hrequest]
    exact h.alike hg .refl hkeeps (fun _ _ => itemOf_of_ne_begin hrequest nofun)
      (fun _ => Nat.zero_le _) trivial fun _ h => h.elim
  · exact h.queueEvent hg hrequest haccepted hgood

/-- A POST that fails is the first to fail. -/
theorem Ready.first (h : Ready tr item) (hfailures : .posted false ∉ marks item.pair tr) :
    Bounded item.consumer.maxRetries (marks item.pair tr) (.ready 0) ∧
      0 < item.consumer.maxRetries := by
  obtain ⟨n, hbounded, hlt⟩ := h.stage
  obtain rfl : n = 0 := hbounded.ready_eq_zero hfailures
  exact ⟨hbounded, hlt⟩

/-- A POST succeeds. -/
theorem Ways.postSucceeded (h : Ways tr w gs) (hg : gs[i]? = some (.delivering item))
    (hmark : markOf tr e = some (item.pair, .posted true))
    (hmax : ∀ pair, maxRetriesOf pair (e :: tr) = maxRetriesOf pair tr)
    (hitems : ∀ j, itemOf (e :: tr) j = itemOf tr j) :
    Ways (e :: tr) { w with posts := ⟨item.event.id, item.consumer.id, true⟩ :: w.posts }
      (gs.set i (.recording item.event.id)) := by
  set w' : World := { w with posts := ⟨item.event.id, item.consumer.id, true⟩ :: w.posts }
  have hgrows : Ledger.Grows w w' := ⟨fun _ h => h, fun _ h => h, fun _ h => List.mem_cons_of_mem _ h⟩
  obtain ⟨hready, -⟩ : Ready tr item ∧ itemOf tr i = some item := h.points i _ hg
  obtain ⟨n, hbounded, hlt⟩ := hready.stage
  obtain ⟨hqueued, -⟩ := (h.pairs item.pair).limited _ hready.maxRetries
  refine h.mark hg (fun _ => rfl) hmark hmax hitems hgrows rfl rfl rfl rfl (fun key => ?_)
    hready.maxRetries (hbounded.succeed hlt) nofun nofun (h.stored _ hqueued)
  have hspent : Ledger.spent key w' = Ledger.spent key w + Point.holds key (.delivering item) := by
    refine Ledger.spent_post.trans ?_
    simp [Point.holds, Ledger.Item.At]
  have hroom : Ledger.room w' key.1 = Ledger.room w key.1 := rfl
  rw [hspent, hroom]
  show 0 + _ + _ ≤ _
  omega

/-- A POST fails, for the first time. -/
theorem Ways.postFailed (h : Ways tr w gs) (hg : gs[i]? = some (.delivering item))
    (hmark : markOf tr e = some (item.pair, .posted false))
    (hmax : ∀ pair, maxRetriesOf pair (e :: tr) = maxRetriesOf pair tr)
    (hitems : ∀ j, itemOf (e :: tr) j = itemOf tr j)
    (hfirst : ⟨item.event.id, item.consumer.id, false⟩ ∉ w.posts) :
    Ways (e :: tr) { w with posts := ⟨item.event.id, item.consumer.id, false⟩ :: w.posts }
      (gs.set i (.failed item)) := by
  set w' : World := { w with posts := ⟨item.event.id, item.consumer.id, false⟩ :: w.posts }
  have hgrows : Ledger.Grows w w' := ⟨fun _ h => h, fun _ h => h, fun _ h => List.mem_cons_of_mem _ h⟩
  obtain ⟨hready, hitem⟩ : Ready tr item ∧ itemOf tr i = some item := h.points i _ hg
  obtain ⟨hbounded, hlt⟩ := hready.first fun hmem => hfirst ((h.pairs item.pair).failures hmem)
  have hfailed : Failed (e :: tr) item := by
    refine ⟨hready.attempts, (hmax _).trans hready.maxRetries, ?_⟩
    rw [marks_self hmark]
    exact hbounded.fail hlt
  refine h.mark hg (fun _ => rfl) hmark hmax hitems hgrows rfl rfl rfl rfl (fun key => ?_)
    hready.maxRetries (hbounded.fail hlt) (fun _ _ => rfl) (fun _ => List.mem_cons_self)
    ⟨hfailed, (hitems i).trans hitem⟩
  have hspent : Ledger.spent key w' = Ledger.spent key w := Ledger.spent_post
  rw [hspent]
  exact Nat.le_refl _

theorem Ways.answered_delivering (h : Ways tr e.before.world gs)
    (hg : gs[i]? = some (.delivering item)) (hasks : asks (.delivering item) a)
    (hgood : FailsOnce e.env e.before.world a) (hrequest : requestOf e = some (i, a))
    (hx : answer e.env e.before.world a = some (r, w')) :
    told (.delivering item) a r ∧ Ways (e :: tr) w' (gs.set i (next (.delivering item) a r)) := by
  obtain ⟨id, rfl⟩ | rfl | ⟨p, rfl, hevent, hconsumer⟩ | ⟨batch, ok, rfl⟩ := hasks
  · exact ⟨told_of_good hx hgood nofun nofun, h.plain hg hrequest hx trivial trivial⟩
  · exact ⟨trivial, h.plain hg hrequest hx trivial trivial⟩
  · have hmax : ∀ pair, maxRetriesOf pair (e :: tr) = maxRetriesOf pair tr := fun pair => by
      rw [maxRetriesOf, hrequest]
    have hmark : markOf tr e = some (item.pair, .posted e.env.response.isOk) := by
      rw [markOf, hrequest]
      simp only [hevent, hconsumer, Item.pair]
    have hitems : ∀ j, itemOf (e :: tr) j = itemOf tr j := fun _ =>
      itemOf_of_ne_begin hrequest nofun
    cases hx
    refine ⟨trivial, ?_⟩
    show Ways (e :: tr) { e.before.world with
        posts := ⟨p.event.id, p.consumer, e.env.response.isOk⟩ :: e.before.world.posts }
      (gs.set i (next (.delivering item) (.post p) e.env.response))
    have hfirst : e.env.response.isOk = false →
        ⟨item.event.id, item.consumer.id, false⟩ ∉ e.before.world.posts := by
      rw [← hevent, ← hconsumer]
      exact hgood
    rw [hevent, hconsumer]
    cases hresponse : e.env.response with
    | ok status =>
      rw [hresponse] at hmark
      exact h.postSucceeded hg hmark hmax hitems
    | error failure =>
      rw [hresponse] at hmark hfirst
      exact h.postFailed hg hmark hmax hitems (hfirst rfl)
  · exact ⟨trivial, h.plain hg hrequest hx trivial trivial⟩

/-- A second after the first failure the item is put back. -/
theorem Ways.wait (h : Ways tr e.before.world gs) (hg : gs[i]? = some (.failed item))
    (hrequest : requestOf e = some (i, .sleep 1000)) (hmax : 1 < item.consumer.maxRetries) :
    Ways (e :: tr) e.before.world (gs.set i (.waited item)) := by
  obtain ⟨hfailed, hitem⟩ : Failed tr item ∧ itemOf tr i = some item := h.points i _ hg
  have hmark : markOf tr e = some (item.pair, .waited 1000) := by
    rw [markOf, hrequest]
    show (itemOf tr i).map _ = _
    rw [hitem]
    rfl
  have hkeeps : ∀ pair, maxRetriesOf pair (e :: tr) = maxRetriesOf pair tr := fun pair => by
    rw [maxRetriesOf, hrequest]
  have hwait : Bounded item.consumer.maxRetries (.waited 1000 :: marks item.pair tr) (.ready 1) :=
    hfailed.stage.wait hmax
  have hready : Ready (e :: tr) item := by
    refine ⟨hfailed.attempts, (hkeeps _).trans hfailed.maxRetries, 1, ?_, hmax⟩
    rw [marks_self hmark]
    exact hwait
  exact h.mark hg (fun _ => rfl) hmark hkeeps (fun _ => itemOf_of_ne_begin hrequest nofun) .refl rfl
    rfl rfl rfl (fun _ => Nat.le_refl _) hfailed.maxRetries hwait nofun nofun
    ⟨hready, (itemOf_of_ne_begin hrequest nofun).trans hitem⟩

/-- The one failure that is allowed is recorded. -/
theorem Ways.record {copy row : StellarEvent} (h : Ways tr e.before.world gs)
    (hg : gs[i]? = some (.abandoning item copy)) (hid : row.id = copy.id)
    (hstatus : row.deliveryStatus = .failed)
    (hfailed : item.consumer.id ∈ row.failedDeliveries.getD [])
    (hrequest : requestOf e = some (i, .saveEvent row none)) (haccepted : e.env.rejects = none) :
    Ways (e :: tr) { e.before.world with
      events := updateWhere (·.id = row.id) (fun _ => row) e.before.world.events }
      (gs.set i .idle) := by
  have halike := Alike.save (w := e.before.world) row
  obtain ⟨hpair, hitem, hcopy, hmax⟩ : Failed tr item ∧ itemOf tr i = some item ∧
      copy.id = item.event.id ∧ item.consumer.maxRetries ≤ 1 := h.points i _ hg
  have hmark : markOf tr e = some (item.pair, .recorded) := by
    rw [markOf, hrequest]
    show (itemOf tr i).bind _ = _
    rw [hitem]
    exact if_pos ⟨haccepted, hid.trans hcopy, hstatus, hfailed⟩
  have hkeeps : ∀ pair, maxRetriesOf pair (e :: tr) = maxRetriesOf pair tr := fun pair => by
    rw [maxRetriesOf, hrequest]
  refine h.mark hg (fun _ => rfl) hmark hkeeps (fun _ => itemOf_of_ne_begin hrequest nofun)
    halike.grows rfl rfl rfl rfl (fun key => ?_) hpair.maxRetries (hpair.stage.record hmax) nofun
    nofun trivial
  rw [halike.spent, halike.room]
  show 0 + _ + _ ≤ _
  omega

theorem Ways.answered_failed (h : Ways tr e.before.world gs) (hg : gs[i]? = some (.failed item))
    (hasks : asks (.failed item) a) (hgood : FailsOnce e.env e.before.world a)
    (hrequest : requestOf e = some (i, a)) (hx : answer e.env e.before.world a = some (r, w')) :
    told (.failed item) a r ∧ Ways (e :: tr) w' (gs.set i (next (.failed item) a r)) := by
  obtain ⟨hfailed, hitem⟩ : Failed tr item ∧ itemOf tr i = some item := h.points i _ hg
  obtain ⟨id, rfl⟩ | ⟨row, rfl⟩ | ⟨rfl, hmax⟩ | ⟨batch, ok, rfl⟩ | ⟨rfl, hmax⟩ := hasks
  · exact ⟨told_of_good hx hgood nofun nofun, h.plain hg hrequest hx trivial trivial⟩
  · exact ⟨told_of_good hx hgood nofun nofun, h.plain hg hrequest hx trivial trivial⟩
  · obtain ⟨hqueued, -⟩ := (h.pairs item.pair).limited _ hfailed.maxRetries
    have htold : told (.failed item) (.findEvent item.event.id none) r := by
      refine told_of_good hx hgood nofun fun id records heq => ?_
      cases heq
      exact h.stored _ hqueued
    obtain ⟨copy, now, rfl, hid⟩ := id htold
    refine ⟨htold, h.alike hg (alike_of_plain hx trivial) (fun _ => .of_silent hrequest trivial)
      (fun _ _ => itemOf_of_ne_begin hrequest nofun) (fun _ => Nat.le_refl _) ?_ fun _ h => h⟩
    exact ⟨hfailed.keep (.of_silent hrequest trivial),
      (itemOf_of_ne_begin hrequest nofun).trans hitem, hid, hmax⟩
  · exact ⟨trivial, h.plain hg hrequest hx trivial trivial⟩
  · cases hx
    exact ⟨trivial, h.wait hg hrequest hmax⟩

theorem Ways.answered_recording {event : Uuid} (h : Ways tr e.before.world gs)
    (hg : gs[i]? = some (.recording event)) (hasks : asks (.recording event) a)
    (hgood : FailsOnce e.env e.before.world a) (hrequest : requestOf e = some (i, a))
    (hx : answer e.env e.before.world a = some (r, w')) :
    told (.recording event) a r ∧ Ways (e :: tr) w' (gs.set i (next (.recording event) a r)) := by
  have hstored : Ledger.Stored e.before.world event := h.points i _ hg
  have hfind : ∀ id records, a = .findEvent id records → Ledger.Stored e.before.world id := by
    rintro id records rfl
    obtain heq | ⟨_, heq⟩ | ⟨_, heq⟩ | ⟨_, heq⟩ | heq | ⟨_, _, heq⟩ := hasks <;> cases heq
    exact hstored
  have hway : Plain a → Silent a → a ≠ .begin →
      told (.recording event) a r ∧ Ways (e :: tr) w' (gs.set i (.recording event)) :=
    fun hplain hsilent hbegin =>
      ⟨told_of_good hx hgood hbegin hfind, h.plain hg hrequest hx hplain hsilent⟩
  obtain rfl | ⟨row, rfl⟩ | ⟨id, rfl⟩ | ⟨row, rfl⟩ | rfl | ⟨batch, ok, rfl⟩ := hasks <;>
    exact hway trivial trivial nofun

/-- **One answer.** -/
theorem Ways.answered (h : Ways tr e.before.world gs) (hg : gs[i]? = some g) (hasks : asks g a)
    (hgood : FailsOnce e.env e.before.world a) (hrequest : requestOf e = some (i, a))
    (hx : answer e.env e.before.world a = some (r, w')) :
    told g a r ∧ Ways (e :: tr) w' (gs.set i (next g a r)) := by
  cases g with
  | idle => exact h.answered_idle hg hasks hrequest hx
  | named event =>
    obtain ⟨row, rfl, rfl, hattempts⟩ := hasks
    have hkeeps : ∀ pair, Keeps tr e pair := fun _ => .of_silent hrequest trivial
    have hitems : ∀ j, j ≠ i → itemOf (e :: tr) j = itemOf tr j := fun _ _ =>
      itemOf_of_ne_begin hrequest nofun
    rcases attempt_cases hx with ⟨_, -, rfl, rfl⟩ | ⟨-, rfl, rfl⟩
    · exact ⟨trivial, h.alike hg .refl hkeeps hitems (fun _ => Nat.zero_le _) trivial fun _ h => h.elim⟩
    · exact ⟨trivial, h.alike hg (.insert row) hkeeps hitems (fun _ => Nat.le_refl _)
        ⟨hattempts, row, List.mem_append_right _ (List.mem_singleton_self _), rfl⟩ fun _ h => h.elim⟩
  | saved event =>
    obtain rfl := hasks
    exact ⟨trivial, h.answered_saved hg hrequest hgood hx⟩
  | queueing items =>
    obtain rfl := hasks
    cases hx
    exact ⟨trivial, h.push hg (fun _ => .of_silent hrequest trivial)
      (fun _ => itemOf_of_ne_begin hrequest nofun) (h.points i _ hg) (fun _ => Nat.le_refl _)
      fun _ h => h⟩
  | delivering item => exact h.answered_delivering hg hasks hgood hrequest hx
  | failed item => exact h.answered_failed hg hasks hgood hrequest hx
  | abandoning item copy =>
    obtain ⟨row, rfl, hid, hstatus, hfailed⟩ := hasks
    have htold := told_of_good (g := .abandoning item copy) hx hgood nofun nofun
    rcases attempt_cases hx with ⟨_, hrejects, -, -⟩ | ⟨haccepted, rfl, rfl⟩
    · cases hgood.symm.trans hrejects
    · exact ⟨htold, h.record hg hid hstatus hfailed hrequest haccepted⟩
  | waited item =>
    obtain rfl := hasks
    cases hx
    refine ⟨trivial, h.push hg (fun _ => .of_silent hrequest trivial)
      (fun _ => itemOf_of_ne_begin hrequest nofun) (fun x hmem => ?_) (fun key => ?_) fun _ h => h⟩
    · rw [List.mem_singleton.mp hmem]
      exact (h.points i _ hg).1
    · rw [List.countP_singleton]
      exact Nat.le_refl _
  | recording event => exact h.answered_recording hg hasks hgood hrequest hx

end Keeping

section Runs

variable {tr : Trace} {e : Step} {w : World} {gs : List Point}

/-- A task begins. -/
theorem Ways.start {op : Operation} (h : Ways tr w gs) (hcall : e.call = .start op) :
    Ways (e :: tr) w (gs ++ [.idle]) where
  tally key := by
    rw [sum_map_append_singleton]
    exact h.tally key
  consumers := h.consumers
  stored := h.stored
  queue item hmem := (h.queue item hmem).keep (.of_start hcall)
  handed x hmem := (h.handed x hmem).keep (.of_start hcall)
  points j g hg := by
    rw [List.getElem?_append] at hg
    split at hg
    · exact (h.points j g hg).keep (fun _ _ => .of_start hcall) (itemOf_start hcall) .refl
    · rw [List.mem_singleton.mp (List.mem_of_getElem? hg)]
      trivial
  pairs pair := (h.pairs pair).keep (.of_start hcall) .refl fun ⟨g, hg, hfailing⟩ =>
    ⟨g, List.mem_append_left _ hg, hfailing⟩

theorem Ways.initial (h : Initial w) : Ways [] w [] where
  tally key := by
    unfold Ledger.spent Ledger.deliveries Ledger.queueings
    rw [h.deliveryQueue, h.handed, h.posts, h.queued]
    exact Nat.zero_le _
  consumers := h.consumers
  stored event := by
    rintro ⟨ids, hids⟩
    rw [h.queued] at hids
    cases hids
  queue item hmem := by
    rw [h.deliveryQueue] at hmem
    cases hmem
  handed x hmem := by
    rw [h.handed] at hmem
    cases hmem
  points j g hg := by
    cases hg
  pairs pair := ⟨nofun, fun _ => rfl, nofun⟩

end Runs

end Retries

open Retries in
/-- **Bounded retries** in an interleaving in which no POST of a pair fails a second time: a pair
gets at most as many POSTs as it may, waits as it should, and is recorded when it has failed. -/
theorem retries_bounded {sign : Signer} {tr : Trace} {t : System} (h : Run (machine sign) tr t)
    (hgood : ∀ e ∈ tr, StepFailsOnce e) :
    ∀ (pair : Pair) (maxRetries : Int), maxRetriesOf pair tr = some maxRetries →
      Retried maxRetries (marks pair tr) t.Quiet := by
  obtain ⟨gs, hways, hat⟩ := interleave_obeys_from (P := protocol) (b := begin) (E := End)
    (J := Ways) (fun op _ => program_obeys sign op) (fun w hw => Ways.initial hw)
    (fun _ _ _ op _ _ hcall _ _ hways => hways.start hcall)
    (fun _ e gs i a r g (hgood : StepFailsOnce e) hans _ hg hasks hways =>
      hways.answered hg hasks (hans.meets hgood) (requestOf_answered hans) hans.answer) h hgood
  intro pair maxRetries hmax
  obtain ⟨-, hone, stage, hbounded, hfailed⟩ := (hways.pairs pair).limited maxRetries hmax
  refine ⟨hbounded.posts_le (by omega), stage, hbounded, fun hquiet n hstage => ?_⟩
  -- where nothing is under way, no failure is without a consequence
  obtain ⟨g, hg, hfailing⟩ := hfailed n hstage
  obtain ⟨x, hend⟩ := Async.ends_of_quiet hat hquiet g hg
  exact hend pair hfailing

/-! ### A delivery that fails once, and one that always fails -/

def failing : Outside := { now := 0, rejects := none, response := .error (some 500, "down") }

/-- Consumer 1 is active, and may be tried so often. -/
def limitedWorld (maxRetries : Int) : World :=
  { sampleWorld [] with consumers := [{ sampleConsumer 1 with maxRetries }] }

theorem limitedWorld_initial (maxRetries : Int) : Initial (limitedWorld maxRetries) :=
  ⟨rfl, rfl, rfl, rfl, rfl, List.nodup_singleton _⟩

/-- A POST fails, and its retry after a second succeeds. -/
theorem retries_bounded_sample :
    ∃ (tr : Trace) (t : System), Run (machine sampleSigner) tr t ∧ t.Quiet ∧
      marks (0, 1) tr = [.posted true, .waited 1000, .posted false] ∧
      Retried 2 (marks (0, 1) tr) t.Quiet := by
  obtain ⟨tr, t, hrun, hok⟩ := Machine.exists_run_of_replay (m := machine sampleSigner)
    (s := ⟨limitedWorld 2, []⟩) ⟨limitedWorld_initial 2, rfl⟩
    (((sampleStart ++ sampleDelivery 1 7 ++ answers 0 1 ++ answers 1 3).map fun move =>
        (failing, move)) ++
      (sampleDelivery 2 12 ++ answers 1 1).map fun move => (undisturbed, move))
    (fun tr t => decide ((∀ e ∈ tr, StepFailsOnce e) ∧ t.Quiet ∧
      maxRetriesOf (0, 1) tr = some 2 ∧
      marks (0, 1) tr = [.posted true, .waited 1000, .posted false]))
    (fun c _ => c.2.starts_of_true) (by decide) (by decide)
  obtain ⟨hgood, hquiet, hmax, hmarks⟩ := of_decide_eq_true hok
  exact ⟨tr, t, hrun, hquiet, hmarks, retries_bounded hrun hgood (0, 1) 2 hmax⟩

/-- A consumer that may be tried twice is tried a third time. -/
theorem retries_unbounded :
    ¬ ∀ (sign : Signer) (tr : Trace) (t : System), Run (machine sign) tr t →
      ∀ (pair : Pair) (maxRetries : Int), maxRetriesOf pair tr = some maxRetries →
        Retried maxRetries (marks pair tr) t.Quiet := by
  intro hall
  obtain ⟨tr, t, hrun, hok⟩ := Machine.exists_run_of_replay (m := machine sampleSigner)
    (s := ⟨limitedWorld 2, []⟩) ⟨limitedWorld_initial 2, rfl⟩
    ((sampleStart ++ sampleDelivery 1 7 ++ answers 0 1 ++ answers 1 3 ++ sampleDelivery 2 7 ++
      answers 1 1 ++ answers 2 3 ++ sampleDelivery 3 4).map fun move => (failing, move))
    (fun tr _ => decide (maxRetriesOf (0, 1) tr = some 2 ∧ posts (marks (0, 1) tr) = 3))
    (fun c _ => c.2.starts_of_true) (by decide) (by decide)
  obtain ⟨hmax, hposts⟩ := of_decide_eq_true hok
  have hle := (hall sampleSigner tr t hrun (0, 1) 2 hmax).posts
  rw [hposts] at hle
  omega

end Stellara.Webhooks
