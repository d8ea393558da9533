import Stellara.Webhooks.Model

/-!
# The delivery ledger

Two deliveries of an event record their success in the same row:

    to alice:   POST   read row              save {alice}
    to bob:     POST              read row                  save {bob}

The row ends with bob alone.  An event is also marked as processed when there is at most one
active consumer, whoever was delivered, and a delivery whose success cannot be recorded is made
again.  If no save loses what is stored, no success is left unrecorded, and at every check there is
at most one active consumer exactly if all are delivered, the ledger is right (`ledger_accounts`).
-/

namespace Stellara.Webhooks

open Monitor Block
open Async (obeying Answered interleave_obeys attempt_cases sum_map_set sum_map_append_singleton)

/-! ## The ledger -/

/-- The task is recording a delivery of the event, or that all are delivered. -/
def Recording (event : Uuid) : Async Request Answer (Except String Unit) → Bool
  | .await a _ => a.records? = some event
  | .done _ => false

/-- Nothing about the event is being recorded. -/
def System.Rests (t : System) (event : Uuid) : Prop := ∀ p ∈ t.tasks, Recording event p = false

instance (t : System) (event : Uuid) : Decidable (System.Rests t event) :=
  inferInstanceAs (Decidable (∀ p ∈ t.tasks, Recording event p = false))

/-- All consumers that the event was queued for are delivered. -/
def AllDelivered (w : World) (event : Uuid) : Prop :=
  ∀ q ∈ w.queued, q.1 = event → ∀ c ∈ q.2, w.Succeeded event c

instance (w : World) (event : Uuid) : Decidable (AllDelivered w event) := by
  unfold AllDelivered
  infer_instance

/-- The rows say what was delivered, and no event is sent again. -/
structure Accounted (t : System) : Prop where
  /-- an event is queued once -/
  queuedOnce : (t.world.queued.map (·.1)).Nodup
  delivered : ∀ row ∈ t.world.events, ∀ c ∈ row.deliveredTo.getD [], t.world.Succeeded row.id c
  recorded : ∀ row ∈ t.world.events, System.Rests t row.id →
    ∀ c, t.world.Succeeded row.id c → c ∈ row.deliveredTo.getD []
  processed : ∀ row ∈ t.world.events, row.isProcessed = true →
    row.id ∈ t.world.queued.map (·.1) ∧ AllDelivered t.world row.id
  marked : ∀ row ∈ t.world.events, System.Rests t row.id → row.id ∈ t.world.queued.map (·.1) →
    AllDelivered t.world row.id → row.isProcessed = true
  /-- after a success there is no other POST -/
  once : t.world.posts.Pairwise fun later earlier =>
    earlier.success = true → ¬ (later.event = earlier.event ∧ later.consumer = earlier.consumer)

/-! ## The condition -/

/-- The save loses nothing that is stored. -/
def Keeps (w : World) (row : StellarEvent) : Prop :=
  ∀ stored ∈ w.events, stored.id = row.id →
    (∀ c ∈ stored.deliveredTo.getD [], c ∈ row.deliveredTo.getD []) ∧
      (stored.isProcessed = true → row.isProcessed = true)

instance (w : World) (row : StellarEvent) : Decidable (Keeps w row) := by
  unfold Keeps
  infer_instance

/-- No save of an event loses what is stored; no request that records a delivery is rejected or
finds its consumer gone; and when it is checked whether an event is delivered, at most one
consumer is active exactly if it is delivered to all it was queued for. -/
def Records (w : World) (rejects : Option String) : Request → Prop
  | .findEvent _ records | .saveConsumer _ records => records.isSome = true → rejects = none
  | .saveEvent row records =>
    (records.isSome = true → rejects = none) ∧ (rejects = none → Keeps w row)
  | .findConsumer id records =>
    records.isSome = true → rejects = none ∧ ∃ x ∈ w.consumers, x.id = id
  | .getActiveConsumers (.check event) =>
    rejects = none ∧ (w.activeConsumers.length ≤ 1 ↔ AllDelivered w event)
  | _ => True

instance (w : World) (rejects : Option String) : DecidablePred (Records w rejects) := fun a => by
  cases a with
  | getActiveConsumers purpose => cases purpose <;> unfold Records <;> infer_instance
  | _ => unfold Records; infer_instance

abbrev StepRecords (e : Event Outside (Async.Move Operation) Unit System) : Prop :=
  Async.Meets (fun c w => Records w c.rejects) e

namespace Ledger

/-! ## The way of a call -/

/-- Where a task is.  One that was handed an item delivers it and may put it back; after a
successful POST it reads the row, saves it, and may have to mark it. -/
inductive Point
  | idle
  | named (event : Uuid)
  | saved (event : StellarEvent)
  | queueing (items : List Item)
  | delivering (item : Item)
  | failing (item : Item) (copy : StellarEvent)
  | succeeded (event consumer : Uuid)
  | updating (event consumer : Uuid) (copy : StellarEvent)
  | recorded (event : Uuid)
  | marking (event : Uuid)
  | markingCopy (event : Uuid) (copy : StellarEvent)

/-- The success is not saved yet. -/
def Point.unrecorded (event consumer : Uuid) : Point → Prop
  | .succeeded e c | .updating e c _ => e = event ∧ c = consumer
  | _ => False

/-- A success is not saved, or not checked, or the event is to be marked. -/
def Point.finishing (event : Uuid) : Point → Prop
  | .succeeded e _ | .updating e _ _ | .recorded e | .marking e | .markingCopy e _ => e = event
  | _ => False

def asks : Point → Request → Prop
  | .idle, a => a = .randomUUID ∨ a = .splice ∨ (∃ batch, a = .settled batch) ∨ a = .begin ∨
      (∃ batch ok, a = .finish batch ok) ∨ ∃ consumers, a = .manage consumers
  | .named event, a => ∃ row : StellarEvent,
      a = .insertEvent row ∧ row.id = event ∧ row.deliveredTo = none ∧ row.isProcessed = false
  | .saved event, a => a = .getActiveConsumers (.queue event.id)
  | .queueing items, a => a = .push items
  | .delivering item, a => (∃ id, a = .findConsumer id none) ∨ (∃ row, a = .saveConsumer row none) ∨
      a = .now ∨ (∃ p, a = .post p ∧ p.event.id = item.event.id ∧ p.consumer = item.consumer.id) ∨
      a = .findEvent item.event.id none ∨ (∃ batch ok, a = .finish batch ok) ∨
      (∃ ms, a = .sleep ms) ∨ a = .push [item]
  | .failing _ copy, a => ∃ row : StellarEvent, a = .saveEvent row none ∧ row.id = copy.id ∧
      row.deliveredTo = copy.deliveredTo ∧ row.isProcessed = copy.isProcessed
  | .succeeded event _, a => a = .findEvent event (some event)
  | .updating event consumer copy, a => ∃ row : StellarEvent, a = .saveEvent row (some event) ∧
      row.id = copy.id ∧ row.deliveredTo = addId copy.deliveredTo consumer ∧
      row.isProcessed = copy.isProcessed
  | .recorded event, a => (∃ id, a = .findConsumer id (some event)) ∨
      (∃ row, a = .saveConsumer row (some event)) ∨ a = .getActiveConsumers (.check event)
  | .marking event, a => a = .findEvent event (some event)
  | .markingCopy event copy, a => ∃ row : StellarEvent, a = .saveEvent row (some event) ∧
      row.id = copy.id ∧ row.deliveredTo = copy.deliveredTo ∧ row.isProcessed = true

/-- What is recorded is not rejected, and a search finds what it searches for. -/
def told : Point → (a : Request) → Answer a → Prop
  | .idle, .begin, (_, item) => item.event.deliveredTo = none
  | .delivering _, .findConsumer id _, .ok (found, _) => ∀ x, found = some x → x.id = id
  | .succeeded _ _, .findEvent _ _, r | .marking _, .findEvent _ _, r =>
    ∃ copy now, r = .ok (some copy, now)
  | .updating _ _ _, .saveEvent _ _, r | .markingCopy _ _, .saveEvent _ _, r => r = .ok ()
  | .recorded _, .findConsumer _ _, r => ∃ x now, r = .ok (some x, now)
  | .recorded _, .saveConsumer _ _, r => r = .ok ()
  | .recorded _, .getActiveConsumers _, r => ∃ rows, r = .ok rows
  | _, _, _ => True

def next : Point → (a : Request) → Answer a → Point
  | .idle, .randomUUID, event => .named event
  | .idle, .begin, (_, item) => .delivering item
  | .named _, .insertEvent row, .ok _ => .saved row
  | .named _, .insertEvent _, .error _ => .idle
  | .saved event, .getActiveConsumers _, .ok rows =>
    if rows.isEmpty then .marking event.id
    else .queueing (rows.map fun consumer => { event, consumer })
  | .saved _, .getActiveConsumers _, .error _ => .idle
  | .queueing _, .push _, _ | .delivering _, .push _, _ => .idle
  | .delivering item, .post _, .ok _ => .succeeded item.event.id item.consumer.id
  | .delivering item, .findEvent _ _, .ok (some copy, _) => .failing item copy
  | .failing item _, .saveEvent _ _, _ => .delivering item
  | .succeeded event consumer, .findEvent _ _, .ok (some copy, _) => .updating event consumer copy
  | .updating event _ _, .saveEvent _ _, .ok _ => .recorded event
  | .recorded event, .getActiveConsumers _, .ok rows =>
    if rows.length ≤ 1 then .marking event else .idle
  | .marking event, .findEvent _ _, .ok (some copy, _) => .markingCopy event copy
  | .markingCopy _ _, .saveEvent _ _, .ok _ => .idle
  | g, _, _ => g

abbrev protocol : Protocol Request Answer Point := ⟨asks, told, next⟩

def begin (_ : Operation) : Point := .idle

/-- Nothing is left to record at the end. -/
def End (_ : Except String Unit) (g : Point) : Prop := ∀ event, ¬ g.finishing event

theorem end_idle (x : Except String Unit) : End x .idle := fun _ h => h

theorem end_delivering (x : Except String Unit) (item : Item) : End x (.delivering item) :=
  fun _ h => h

variable {sign : Signer} {item : Item}

theorem processQueue_obeys :
    wp (obeying protocol) processQueue (fun _ _ g => g = .idle) (fun _ _ g => g = .idle) ()
      .idle := by
  unfold processQueue
  rw [wp_bind]
  refine ⟨.inr (.inl rfl), fun (batch : Option Nat) _ => ?_⟩
  cases batch with
  | none => exact rfl
  | some batch => exact ⟨.inr (.inr (.inl ⟨_, rfl⟩)), fun _ _ => rfl⟩

theorem enqueue_obeys {items : List Item} {g : Point} (hasks : asks g (.push items))
    (hnext : ∀ b, next g (.push items) b = .idle) :
    wp (obeying protocol) (enqueue items) (fun _ _ g => g = .idle) (fun _ _ g => g = .idle) () g := by
  unfold enqueue
  rw [wp_bind]
  refine ⟨hasks, fun (b : Bool) _ => ?_⟩
  show wp (obeying protocol) (if b then pure () else processQueue) _ _ () (next g (.push items) b)
  rw [hnext b]
  split
  · exact rfl
  · exact processQueue_obeys

theorem markEventAsProcessed_obeys {event : Uuid} {Q : Unit → Unit → Point → Prop}
    {E : String → Unit → Point → Prop} (hQ : Q () () .idle) :
    wp (obeying protocol) (EventStorageService.markEventAsProcessed event) Q E ()
      (.marking event) := by
  unfold EventStorageService.markEventAsProcessed EventStorageService.getEventById
  simp only [wp_bind]
  refine ⟨rfl, ?_⟩
  rintro r ⟨copy, now, rfl⟩
  refine ⟨⟨_, rfl, rfl, rfl, rfl⟩, ?_⟩
  rintro r rfl
  exact hQ

theorem queueEventForDelivery_obeys {event : StellarEvent} :
    wp (obeying protocol) (queueEventForDelivery event) (fun _ _ g => g = .idle)
      (fun _ _ g => g = .idle) () (.saved event) := by
  unfold queueEventForDelivery ConsumerManagementService.getActiveConsumers
  rw [wp_bind]
  refine ⟨rfl, fun r _ => ?_⟩
  cases r with
  | error e => exact rfl
  | ok rows =>
    show wp (obeying protocol) (if rows.isEmpty then _ else _) _ _ ()
      (if rows.isEmpty then .marking event.id
        else .queueing (rows.map fun consumer => { event, consumer }))
    split
    · exact markEventAsProcessed_obeys rfl
    · exact enqueue_obeys rfl fun _ => rfl

theorem handleEvent_obeys {eventData : Uuid → StellarEventDto} :
    wp (obeying protocol) (handleEvent eventData) (fun _ _ g => g = .idle)
      (fun _ _ g => g = .idle) () .idle := by
  unfold handleEvent
  rw [wp_bind]
  refine ⟨.inl rfl, fun (id : Nat) _ => ?_⟩
  show wp (obeying protocol) (request _ _ >>= _) _ _ () (.named id)
  rw [wp_bind]
  refine ⟨⟨_, rfl, rfl, rfl, rfl⟩, fun r _ => ?_⟩
  cases r with
  | error e => exact rfl
  | ok _ => exact queueEventForDelivery_obeys

/-- A delivery whose POST failed stays where it is. -/
theorem updateDeliveryStats_obeys {id : Uuid} :
    wp (obeying protocol) (ConsumerManagementService.updateDeliveryStats id false none)
      (fun _ _ g => g = .delivering item) (fun _ _ g => g = .delivering item) ()
      (.delivering item) := by
  unfold ConsumerManagementService.updateDeliveryStats ConsumerManagementService.getConsumerById
  simp only [wp_bind]
  refine ⟨.inl ⟨_, rfl⟩, fun r _ => ?_⟩
  cases r with
  | error e => exact rfl
  | ok x =>
    obtain ⟨_ | consumer, now⟩ := x
    · exact rfl
    · refine ⟨.inr (.inl ⟨_, rfl⟩), fun r _ => ?_⟩
      cases r <;> exact rfl

theorem updateFailed_obeys {consumerId : Uuid} {errorMessage : Option String} :
    wp (obeying protocol)
      (EventStorageService.updateEventStatus item.event.id .failed consumerId errorMessage none)
      (fun _ _ g => g = .delivering item) (fun _ _ g => g = .delivering item) ()
      (.delivering item) := by
  unfold EventStorageService.updateEventStatus EventStorageService.getEventById
  simp only [wp_bind]
  refine ⟨.inr (.inr (.inr (.inr (.inl rfl)))), fun r _ => ?_⟩
  cases r with
  | error e => exact rfl
  | ok x =>
    obtain ⟨_ | copy, now⟩ := x
    · exact rfl
    · refine ⟨⟨_, rfl, updateStatus_spec _ _ _ _ _⟩, fun r _ => ?_⟩
      cases r <;> exact rfl

theorem handleFailedDelivery_obeys {result : DeliveryResult} :
    wp (obeying protocol) (handleFailedDelivery item.event item.consumer result)
      (fun _ _ g => g = .delivering item) (fun _ _ g => g = .delivering item) ()
      (.delivering item) := by
  unfold handleFailedDelivery
  rw [wp_bind]
  refine wp_mono ?_ (fun _ _ _ h => h) updateDeliveryStats_obeys
  rintro _ _ g rfl
  dsimp only
  split
  · rw [wp_bind]
    refine wp_mono ?_ (fun _ _ _ h => h) updateFailed_obeys
    rintro _ _ g rfl
    exact rfl
  · exact rfl

/-- A success is recorded, whatever happens. -/
theorem handleSuccessfulDelivery_obeys {Q : Unit → Unit → Point → Prop}
    {E : String → Unit → Point → Prop} (hfresh : item.event.deliveredTo = none)
    (hQ : Q () () .idle) :
    wp (obeying protocol) (handleSuccessfulDelivery item.event item.consumer) Q E ()
      (.succeeded item.event.id item.consumer.id) := by
  unfold handleSuccessfulDelivery EventStorageService.updateEventStatus
    EventStorageService.getEventById ConsumerManagementService.updateDeliveryStats
    ConsumerManagementService.getConsumerById ConsumerManagementService.getActiveConsumers
  simp only [wp_bind]
  refine ⟨rfl, ?_⟩
  rintro r ⟨copy, now, rfl⟩
  refine ⟨⟨_, rfl, updateStatus_spec _ _ _ _ _⟩, ?_⟩
  rintro r rfl
  refine ⟨.inl ⟨_, rfl⟩, ?_⟩
  rintro r ⟨consumer, now, rfl⟩
  refine ⟨.inr (.inl ⟨_, rfl⟩), ?_⟩
  rintro r rfl
  refine ⟨.inr (.inr rfl), ?_⟩
  rintro r ⟨rows, rfl⟩
  -- the copy says that nothing was delivered
  rw [hfresh]
  show wp (obeying protocol) (if rows.length ≤ 1 then _ else _) _ _ ()
    (if rows.length ≤ 1 then .marking item.event.id else .idle)
  split
  · exact markEventAsProcessed_obeys hQ
  · exact hQ

/-- What a delivery leaves behind: it is recorded, or its item may be put back. -/
def Settles (delay : Option Int) (item : Item) (g : Point) : Prop :=
  (g = .idle ∧ delay = none) ∨ g = .delivering item

theorem handleResult_obeys {result : DeliveryResult} {g : Point}
    (hfresh : item.event.deliveredTo = none)
    (hg : g = if result.success then .succeeded item.event.id item.consumer.id
      else .delivering item) :
    wp (obeying protocol) (handleResult item.event item.consumer result)
      (fun delay _ g => Settles delay item g) (fun _ _ g => g = .delivering item) () g := by
  unfold handleResult
  rw [hg]
  split
  · rw [wp_bind]
    exact handleSuccessfulDelivery_obeys hfresh (.inl ⟨rfl, rfl⟩)
  · exact wp_mono (fun _ _ _ h => .inr h) (fun _ _ _ h => h) handleFailedDelivery_obeys

theorem deliverEventToConsumer_obeys (hfresh : item.event.deliveredTo = none) :
    wp (obeying protocol) (deliverEventToConsumer sign item.event item.consumer)
      (fun delay _ g => Settles delay item g) (fun _ _ g => g = .delivering item) ()
      (.delivering item) := by
  unfold deliverEventToConsumer ConsumerManagementService.getConsumerById
  rw [wp_tryCatch]
  have hfailed : ∀ e : String, wp (obeying protocol) (handleFailedDelivery item.event item.consumer
      { success := false, errorMessage := some e }) (fun delay _ g => Settles delay item g)
      (fun _ _ g => g = .delivering item) () (.delivering item) := fun e =>
    wp_mono (fun _ _ _ h => .inr h) (fun _ _ _ h => h) handleFailedDelivery_obeys
  simp only [wp_bind]
  refine ⟨.inl ⟨_, rfl⟩, fun r hid => ?_⟩
  cases r with
  | error e => exact hfailed e
  | ok x =>
    obtain ⟨_ | consumer, now⟩ := x
    · exact hfailed _
    · have hid : consumer.id = item.consumer.id := hid consumer rfl
      show wp (obeying protocol) (if consumer.isActive then _ else _) _ _ () (.delivering item)
      split
      · simp only [attemptDelivery, wp_bind]
        refine ⟨.inr (.inr (.inl rfl)), fun (now : Int) _ => ?_⟩
        refine ⟨.inr (.inr (.inr (.inl ⟨_, rfl, rfl, hid⟩))), fun r _ => ?_⟩
        cases r with
        | error e =>
          refine wp_mono (fun _ _ _ h => h) ?_ (handleResult_obeys hfresh rfl)
          rintro e _ g rfl
          exact hfailed e
        | ok status =>
          refine wp_mono (fun _ _ _ h => h) ?_ (handleResult_obeys hfresh rfl)
          rintro e _ g rfl
          exact hfailed e
      · exact .inr rfl

theorem deliver_obeys :
    wp (obeying protocol) (deliver sign) (fun x _ g => End (.ok x) g)
      (fun e _ g => End (.error e) g) () .idle := by
  unfold deliver outcome
  rw [wp_bind]
  refine ⟨.inr (.inr (.inr (.inl rfl))), fun x hfresh => ?_⟩
  obtain ⟨batch, item⟩ := x
  have hfresh : item.event.deliveredTo = none := hfresh
  show wp (obeying protocol) (tryCatch _ _ >>= _) _ _ () (.delivering item)
  rw [wp_bind, wp_tryCatch, wp_bind]
  refine wp_mono ?_ ?_ (deliverEventToConsumer_obeys hfresh)
  · rintro delay _ g (⟨rfl, rfl⟩ | rfl)
    · rw [wp_pure, wp_bind]
      exact ⟨.inr (.inr (.inr (.inr (.inl ⟨_, _, rfl⟩)))), fun _ _ => end_idle (.ok ())⟩
    · rw [wp_pure, wp_bind]
      refine ⟨.inr (.inr (.inr (.inr (.inr (.inl ⟨_, _, rfl⟩))))), fun _ _ => ?_⟩
      cases delay with
      | none => exact end_delivering (.ok ()) item
      | some delay =>
        show wp (obeying protocol) (ask _ _ >>= _) _ _ () (.delivering item)
        rw [wp_bind]
        refine ⟨.inr (.inr (.inr (.inr (.inr (.inr (.inl ⟨_, rfl⟩)))))), fun _ _ => ?_⟩
        refine wp_mono ?_ ?_ (enqueue_obeys
          (.inr (.inr (.inr (.inr (.inr (.inr (.inr rfl))))))) fun _ => rfl)
        · rintro _ _ g rfl
          exact end_idle _
        · rintro _ _ g rfl
          exact end_idle _
  · rintro e _ g rfl
    rw [wp_pure, wp_bind]
    exact ⟨.inr (.inr (.inr (.inr (.inr (.inl ⟨_, _, rfl⟩))))), fun _ _ => end_delivering (.ok ()) item⟩

theorem program_obeys (sign : Signer) (op : Operation) :
    Async.wp (obeying protocol) (op.program sign) End (begin op) := by
  have hidle : ∀ m : On Unit, wp (obeying protocol) m (fun _ _ g => g = .idle)
      (fun _ _ g => g = .idle) () .idle → Async.wp (obeying protocol) m.program End .idle := by
    intro m hm
    refine wp_program.mpr (wp_mono ?_ ?_ hm)
    · rintro _ _ g rfl
      exact end_idle _
    · rintro _ _ g rfl
      exact end_idle _
  cases op with
  | handleEvent eventData => exact hidle _ handleEvent_obeys
  | deliver => exact wp_program.mpr deliver_obeys
  | interval => exact hidle _ processQueue_obeys
  | manage consumers =>
    exact hidle _ ⟨.inr (.inr (.inr (.inr (.inr ⟨_, rfl⟩)))), fun _ _ => rfl⟩

/-! ## What is known -/

def Stored (w : World) (event : Uuid) : Prop := ∃ row ∈ w.events, row.id = event

def Queued (w : World) (event : Uuid) : Prop := ∃ ids, (event, ids) ∈ w.queued

/-- The event was queued and is delivered. -/
def Complete (w : World) (event : Uuid) : Prop :=
  ∃ ids, (event, ids) ∈ w.queued ∧ ∀ c ∈ ids, w.Succeeded event c

/-- What the row says is so. -/
structure Sound (w : World) (row : StellarEvent) : Prop where
  delivered : ∀ c ∈ row.deliveredTo.getD [], w.Succeeded row.id c
  processed : row.isProcessed = true → Complete w row.id

/-- The item's copy of the event is that of the first save. -/
structure Fresh (w : World) (item : Item) : Prop where
  deliveredTo : item.event.deliveredTo = none
  stored : Stored w item.event.id
  queued : Queued w item.event.id

def Point.Known (w : World) : Point → Prop
  | .idle | .named _ => True
  | .saved event => event.deliveredTo = none ∧ Stored w event.id
  | .queueing items => ∀ item ∈ items, Fresh w item
  | .delivering item => Fresh w item
  | .failing item copy => Fresh w item ∧ Sound w copy
  | .succeeded event consumer => Stored w event ∧ Queued w event ∧ w.Succeeded event consumer
  | .updating event consumer copy => Stored w event ∧ Queued w event ∧ w.Succeeded event consumer ∧
      copy.id = event ∧ Sound w copy
  | .recorded event => Stored w event ∧ Queued w event
  | .marking event => Stored w event ∧ Complete w event
  | .markingCopy event copy => Complete w event ∧ copy.id = event ∧ Sound w copy

/-- Nothing that is known is lost. -/
structure Grows (w w' : World) : Prop where
  stored : ∀ e, Stored w e → Stored w' e
  queued : ∀ q ∈ w.queued, q ∈ w'.queued
  posts : ∀ p ∈ w.posts, p ∈ w'.posts

variable {w w' : World} {g k : Point} {gs : List Point} {i : Nat}

theorem Grows.refl : Grows w w := ⟨fun _ h => h, fun _ h => h, fun _ h => h⟩

theorem Grows.complete (h : Grows w w') {e : Uuid} (hc : Complete w e) : Complete w' e :=
  let ⟨ids, hids, hall⟩ := hc
  ⟨ids, h.queued _ hids, fun c hc => h.posts _ (hall c hc)⟩

theorem Grows.sound (h : Grows w w') {row : StellarEvent} (hs : Sound w row) : Sound w' row :=
  ⟨fun c hc => h.posts _ (hs.delivered c hc), fun hp => h.complete (hs.processed hp)⟩

theorem Grows.isQueued (h : Grows w w') {e : Uuid} (hq : Queued w e) : Queued w' e :=
  let ⟨ids, hids⟩ := hq
  ⟨ids, h.queued _ hids⟩

theorem Grows.fresh (h : Grows w w') {item : Item} (hf : Fresh w item) : Fresh w' item :=
  ⟨hf.deliveredTo, h.stored _ hf.stored, h.isQueued hf.queued⟩

theorem Point.Known.mono (hk : g.Known w) (h : Grows w w') : g.Known w' := by
  cases g with
  | idle | named _ => trivial
  | saved event => exact ⟨hk.1, h.stored _ hk.2⟩
  | queueing items => exact fun item hitem => h.fresh (hk item hitem)
  | delivering item => exact h.fresh hk
  | failing item copy => exact ⟨h.fresh hk.1, h.sound hk.2⟩
  | succeeded e c => exact ⟨h.stored _ hk.1, h.isQueued hk.2.1, h.posts _ hk.2.2⟩
  | updating e c copy =>
    exact ⟨h.stored _ hk.1, h.isQueued hk.2.1, h.posts _ hk.2.2.1, hk.2.2.2.1, h.sound hk.2.2.2.2⟩
  | recorded e => exact ⟨h.stored _ hk.1, h.isQueued hk.2⟩
  | marking e => exact ⟨h.stored _ hk.1, h.complete hk.2⟩
  | markingCopy e copy => exact ⟨h.complete hk.1, hk.2.1, h.sound hk.2.2⟩

/-! ## What there is of an event -/

/-- An event, and a consumer of it or none for the event as a whole. -/
abbrev Key : Type := Uuid × Option Uuid

def Item.At (key : Key) (item : Item) : Bool := key = (item.event.id, some item.consumer.id)

def Point.holds (key : Key) : Point → Nat
  | .named event => if event = key.1 then 1 else 0
  | .saved event => if event.id = key.1 then 1 else 0
  | .queueing items => items.countP (Item.At key)
  | .delivering item | .failing item _ => if Item.At key item then 1 else 0
  | _ => 0

def deliveries (key : Key) (w : World) : Nat :=
  w.posts.countP fun p => p.success ∧ key = (p.event, some p.consumer)

def queueings (key : Key) (w : World) : Nat := w.queued.countP fun q => key = (q.1, none)

/-- The items of a key, its successes and queueings. -/
def spent (key : Key) (w : World) : Nat :=
  w.deliveryQueue.countP (Item.At key) + w.handed.countP (fun x => Item.At key x.2) +
    deliveries key w + queueings key w

/-- Only a UUID that was made can name an event, and only one. -/
def room (w : World) (event : Nat) : Nat := if event < w.uuids then 1 else 0

theorem room_le_one {event : Uuid} : room w event ≤ 1 := by
  unfold room
  split <;> omega

/-- The next UUID makes the room for the event that it names. -/
theorem named_le (event uuids n : Nat) :
    (if uuids = event then 1 else 0) + n + (if event < uuids then 1 else 0) ≤
      0 + n + if event < uuids + 1 then 1 else 0 := by
  split <;> split <;> split <;> omega

theorem deliveries_pos {event consumer : Uuid} (h : w.Succeeded event consumer) :
    0 < deliveries (event, some consumer) w :=
  List.countP_pos_iff.mpr ⟨_, h, by simp⟩

theorem queueings_pos {event : Uuid} (h : Queued w event) : 0 < queueings (event, none) w :=
  let ⟨_, hids⟩ := h
  List.countP_pos_iff.mpr ⟨_, hids, by simp⟩

theorem spent_push {key : Key} {items : List Item} :
    spent key { w with deliveryQueue := w.deliveryQueue ++ items } =
      spent key w + items.countP (Item.At key) := by
  unfold spent deliveries queueings
  dsimp only
  rw [List.countP_append]
  omega

theorem spent_splice {key : Key} {n batch : Nat} {b : Bool} {batches : List Batch} :
    spent key { w with
        deliveryQueue := w.deliveryQueue.drop n
        isProcessingQueue := b
        handed := w.handed ++ (w.deliveryQueue.take n).map fun item => (batch, item)
        batches } = spent key w := by
  have hsplit : w.deliveryQueue.countP (Item.At key) =
      (w.deliveryQueue.take n).countP (Item.At key) +
        (w.deliveryQueue.drop n).countP (Item.At key) := by
    rw [← List.countP_append, List.take_append_drop]
  have hmap : ((w.deliveryQueue.take n).map fun item => (batch, item)).countP
      (fun x => Item.At key x.2) = (w.deliveryQueue.take n).countP (Item.At key) :=
    List.countP_map
  unfold spent deliveries queueings
  dsimp only
  rw [List.countP_append, hmap, hsplit]
  omega

theorem spent_take {key : Key} {x : Nat × Item} {handed : List (Nat × Item)}
    (h : w.handed = x :: handed) :
    spent key w = spent key { w with handed } + if Item.At key x.2 then 1 else 0 := by
  unfold spent deliveries queueings
  dsimp only
  rw [h, List.countP_cons]
  omega

theorem spent_post {key : Key} {p : Posted} :
    spent key { w with posts := p :: w.posts } =
      spent key w + if p.success ∧ key = (p.event, some p.consumer) then 1 else 0 := by
  unfold spent deliveries queueings
  dsimp only
  rw [List.countP_cons]
  simp only [decide_eq_true_eq]
  omega

theorem spent_queue {key : Key} {event : Uuid} {ids : List Uuid} :
    spent key { w with queued := (event, ids) :: w.queued } =
      spent key w + if key = (event, none) then 1 else 0 := by
  unfold spent deliveries queueings
  dsimp only
  rw [List.countP_cons]
  simp only [decide_eq_true_eq]
  omega

/-- For each key there is at most one thing: a task that holds it, an item, a success. -/
structure Books (w : World) (gs : List Point) : Prop where
  tally : ∀ key, (gs.map (Point.holds key)).sum + spent key w ≤ room w key.1
  consumers : (w.consumers.map (·.id)).Nodup
  sound : ∀ row ∈ w.events, Sound w row
  recorded : ∀ row ∈ w.events, ∀ c, w.Succeeded row.id c →
    c ∈ row.deliveredTo.getD [] ∨ ∃ g ∈ gs, g.unrecorded row.id c
  marked : ∀ row ∈ w.events, Complete w row.id →
    row.isProcessed = true ∨ ∃ g ∈ gs, g.finishing row.id
  queue : ∀ item ∈ w.deliveryQueue, Fresh w item
  handed : ∀ x ∈ w.handed, Fresh w x.2
  known : ∀ g ∈ gs, g.Known w
  once : w.posts.Pairwise fun later earlier =>
    earlier.success = true → ¬ (later.event = earlier.event ∧ later.consumer = earlier.consumer)

theorem Books.start (h : Books w gs) (op : Operation) : Books w (gs ++ [begin op]) where
  tally key := by
    rw [sum_map_append_singleton]
    exact h.tally key
  consumers := h.consumers
  sound := h.sound
  recorded row hrow c hc := (h.recorded row hrow c hc).imp id fun ⟨g, hg, hun⟩ =>
    ⟨g, List.mem_append_left _ hg, hun⟩
  marked row hrow hc := (h.marked row hrow hc).imp id fun ⟨g, hg, hfin⟩ =>
    ⟨g, List.mem_append_left _ hg, hfin⟩
  queue := h.queue
  handed := h.handed
  known g hg := by
    rcases List.mem_append.mp hg with hg | hg
    · exact h.known g hg
    · rw [List.mem_singleton.mp hg]
      trivial
  once := h.once

/-! ## One answer -/

/-- How much of a key a step makes. -/
theorem Books.tally_set (h : Books w gs) (hg : gs[i]? = some g) {key : Key}
    (hstep : k.holds key + spent key w' + room w key.1 ≤ g.holds key + spent key w + room w' key.1) :
    ((gs.set i k).map (Point.holds key)).sum + spent key w' ≤ room w' key.1 := by
  have hsum := sum_map_set (f := Point.holds key) (k := k) hg
  have := h.tally key
  omega

theorem Books.known_set (h : Books w gs) (hgrows : Grows w w') (hk : k.Known w') :
    ∀ x ∈ gs.set i k, x.Known w' := by
  intro x hx
  rcases List.mem_or_eq_of_mem_set hx with hx | rfl
  · exact (h.known x hx).mono hgrows
  · exact hk

/-- What a task holds, nobody else has. -/
theorem Books.spent_of_holds (h : Books w gs) (hg : gs[i]? = some g) {key : Key}
    (hheld : g.holds key = 1) : spent key w = 0 := by
  have hle := Async.le_sum_map (f := Point.holds key) (List.mem_of_getElem? hg)
  have := h.tally key
  have : room w key.1 ≤ 1 := room_le_one
  omega

/-- Nothing is stored, posted or queued. -/
structure Quiet (w w' : World) : Prop where
  events : w'.events = w.events
  posts : w'.posts = w.posts
  queued : w'.queued = w.queued
  consumers : (w.consumers.map (·.id)).Nodup → (w'.consumers.map (·.id)).Nodup

theorem Quiet.grows (h : Quiet w w') : Grows w w' := by
  refine ⟨fun e he => ?_, fun q hq => ?_, fun p hp => ?_⟩
  · unfold Stored
    rw [h.events]
    exact he
  · rw [h.queued]
    exact hq
  · rw [h.posts]
    exact hp

theorem Quiet.succeeded (h : Quiet w w') {e c : Uuid} (hc : w'.Succeeded e c) :
    w.Succeeded e c := by
  unfold World.Succeeded at hc ⊢
  rw [h.posts] at hc
  exact hc

theorem Quiet.complete (h : Quiet w w') {e : Uuid} (hc : Complete w' e) : Complete w e := by
  unfold Complete World.Succeeded at hc ⊢
  rw [h.posts, h.queued] at hc
  exact hc

theorem Quiet.spent (h : Quiet w w') {key : Key} :
    spent key w' = w'.deliveryQueue.countP (Item.At key) +
      w'.handed.countP (fun x => Item.At key x.2) + deliveries key w + queueings key w := by
  unfold Ledger.spent deliveries queueings
  rw [h.posts, h.queued]

/-- A task moves on, and nothing is stored, posted or queued. -/
theorem Books.quiet (h : Books w gs) (hg : gs[i]? = some g) (hquiet : Quiet w w')
    (hqueue : ∀ item ∈ w'.deliveryQueue, Fresh w item) (hhanded : ∀ x ∈ w'.handed, Fresh w x.2)
    (hstep : ∀ key, k.holds key + spent key w' + room w key.1 ≤
      g.holds key + spent key w + room w' key.1)
    (hunrecorded : ∀ e c, g.unrecorded e c → k.unrecorded e c)
    (hfinishing : ∀ e, g.finishing e → k.finishing e ∨ ¬ Complete w e) (hk : k.Known w) :
    Books w' (gs.set i k) where
  tally key := h.tally_set hg (hstep key)
  consumers := hquiet.consumers h.consumers
  sound row hrow := hquiet.grows.sound (h.sound row (hquiet.events ▸ hrow))
  recorded row hrow c hc := by
    refine (h.recorded row (hquiet.events ▸ hrow) c (hquiet.succeeded hc)).imp id fun hun => ?_
    rcases Async.exists_mem_set k hg hun with hun | hun
    · exact hun
    · exact ⟨k, Async.mem_set k hg, hunrecorded _ _ hun⟩
  marked row hrow hc := by
    have hc := hquiet.complete hc
    refine (h.marked row (hquiet.events ▸ hrow) hc).imp id fun hfin => ?_
    rcases Async.exists_mem_set k hg hfin with hfin | hfin
    · exact hfin
    · exact ⟨k, Async.mem_set k hg, (hfinishing _ hfin).resolve_right (not_not_intro hc)⟩
  queue item hitem := hquiet.grows.fresh (hqueue item hitem)
  handed x hx := hquiet.grows.fresh (hhanded x hx)
  known := h.known_set hquiet.grows (hk.mono hquiet.grows)
  once := by
    rw [hquiet.posts]
    exact h.once

/-- The rejected request, or the search, that changes nothing. -/
theorem Quiet.refl : Quiet w w := ⟨rfl, rfl, rfl, id⟩

/-- A task moves on, and items go from one place to another. -/
theorem Books.shift (h : Books w gs) (hg : gs[i]? = some g) (hquiet : Quiet w w')
    (huuids : w'.uuids = w.uuids) (hqueue : ∀ item ∈ w'.deliveryQueue, Fresh w item)
    (hhanded : ∀ x ∈ w'.handed, Fresh w x.2)
    (hspent : ∀ key, k.holds key + spent key w' ≤ g.holds key + spent key w)
    (hunrecorded : ∀ e c, g.unrecorded e c → k.unrecorded e c)
    (hfinishing : ∀ e, g.finishing e → k.finishing e ∨ ¬ Complete w e) (hk : k.Known w) :
    Books w' (gs.set i k) := by
  refine h.quiet hg hquiet hqueue hhanded (fun key => ?_) hunrecorded hfinishing hk
  have hroom : room w' key.1 = room w key.1 := by
    unfold room
    rw [huuids]
  rw [hroom]
  exact Nat.add_le_add_right (hspent key) _

/-- A task moves on, and nothing changes. -/
theorem Books.stay (h : Books w gs) (hg : gs[i]? = some g)
    (hholds : ∀ key, k.holds key ≤ g.holds key)
    (hunrecorded : ∀ e c, g.unrecorded e c → k.unrecorded e c)
    (hfinishing : ∀ e, g.finishing e → k.finishing e ∨ ¬ Complete w e) (hk : k.Known w) :
    Books w (gs.set i k) :=
  h.shift hg .refl rfl h.queue h.handed (fun key => Nat.add_le_add_right (hholds key) _) hunrecorded
    hfinishing hk

/-- Only things that the ledger does not speak of change. -/
theorem Books.apart (h : Books w gs) (hg : gs[i]? = some g) (hquiet : Quiet w w')
    (hqueue : w'.deliveryQueue = w.deliveryQueue) (hhanded : w'.handed = w.handed)
    (huuids : w'.uuids = w.uuids) : Books w' (gs.set i g) := by
  refine h.shift hg hquiet huuids (hqueue ▸ h.queue) (hhanded ▸ h.handed) (fun key => ?_)
    (fun _ _ h => h) (fun _ h => .inl h) (h.known g (List.mem_of_getElem? hg))
  rw [hquiet.spent, hqueue, hhanded]
  exact Nat.le_refl _

/-- A row is stored for an event that was named. -/
theorem Books.insert (h : Books w gs) {row : StellarEvent} (hg : gs[i]? = some (.named row.id))
    (hdelivered : row.deliveredTo = none) (hprocessed : row.isProcessed = false) :
    Books { w with events := w.events ++ [row] } (gs.set i (.saved row)) := by
  have hgrows : Grows w { w with events := w.events ++ [row] } :=
    ⟨fun e ⟨x, hx, hid⟩ => ⟨x, List.mem_append_left _ hx, hid⟩, fun _ h => h, fun _ h => h⟩
  -- nobody has the key of the new event
  have hspent : ∀ c, spent (row.id, c) w = 0 := fun c =>
    h.spent_of_holds hg (by simp [Point.holds])
  have hrows : ∀ x ∈ w.events ++ [row], x ∈ w.events ∨ x = row := fun x hx =>
    (List.mem_append.mp hx).imp id List.mem_singleton.mp
  refine ⟨fun key => h.tally_set hg (Nat.le_refl _), h.consumers, fun x hx => ?_,
    fun x hx c hc => ?_, fun x hx hc => ?_, fun item hitem => hgrows.fresh (h.queue item hitem),
    fun x hx => hgrows.fresh (h.handed x hx),
    h.known_set hgrows ⟨hdelivered, row, List.mem_append_right _ (List.mem_singleton_self _), rfl⟩,
    h.once⟩
  · rcases hrows x hx with hx | rfl
    · exact hgrows.sound (h.sound x hx)
    · refine ⟨fun c hc => ?_, fun hp => ?_⟩
      · rw [hdelivered] at hc
        cases hc
      · rw [hprocessed] at hp
        cases hp
  · rcases hrows x hx with hx | rfl
    · refine (h.recorded x hx c hc).imp id fun hun => ?_
      exact (Async.exists_mem_set _ hg hun).resolve_right id
    · have hpos := deliveries_pos (w := w) hc
      have := hspent (some c)
      unfold spent at this
      omega
  · rcases hrows x hx with hx | rfl
    · refine (h.marked x hx hc).imp id fun hfin => ?_
      exact (Async.exists_mem_set _ hg hfin).resolve_right id
    · obtain ⟨ids, hids, -⟩ := hc
      have hpos := queueings_pos (w := w) ⟨ids, hids⟩
      have := hspent none
      unfold spent at this
      omega

/-- An item that a task has was not delivered. -/
theorem Books.not_delivered {item : Item} (h : Books w gs) (hg : gs[i]? = some (.delivering item)) :
    ∀ p ∈ w.posts, p.success = true →
      ¬ (item.event.id = p.event ∧ item.consumer.id = p.consumer) := by
  rintro p hp hsuccess ⟨hevent, hconsumer⟩
  have hspent : spent (item.event.id, some item.consumer.id) w = 0 :=
    h.spent_of_holds hg (by simp [Point.holds, Item.At])
  have hpos : 0 < deliveries (item.event.id, some item.consumer.id) w :=
    List.countP_pos_iff.mpr ⟨p, hp, by simp [hsuccess, hevent, hconsumer]⟩
  unfold spent at hspent
  omega

/-- A POST fails. -/
theorem Books.postFailed {item : Item} (h : Books w gs) (hg : gs[i]? = some (.delivering item)) :
    Books { w with posts := ⟨item.event.id, item.consumer.id, false⟩ :: w.posts }
      (gs.set i (.delivering item)) := by
  set w' : World := { w with posts := ⟨item.event.id, item.consumer.id, false⟩ :: w.posts }
  have hgrows : Grows w w' := ⟨fun _ h => h, fun _ h => h, fun _ h => List.mem_cons_of_mem _ h⟩
  have hsucceeded : ∀ e c, w'.Succeeded e c → w.Succeeded e c := by
    intro e c hc
    rcases List.mem_cons.mp hc with heq | hc
    · cases heq
    · exact hc
  have hcomplete : ∀ e, Complete w' e → Complete w e := fun e ⟨ids, hids, hall⟩ =>
    ⟨ids, hids, fun c hc => hsucceeded e c (hall c hc)⟩
  refine ⟨fun key => h.tally_set hg ?_, h.consumers, fun row hrow => hgrows.sound (h.sound row hrow),
    fun row hrow c hc => ?_, fun row hrow hc => ?_, fun x hx => hgrows.fresh (h.queue x hx),
    fun x hx => hgrows.fresh (h.handed x hx),
    h.known_set hgrows ((h.known _ (List.mem_of_getElem? hg)).mono hgrows),
    List.pairwise_cons.mpr ⟨h.not_delivered hg, h.once⟩⟩
  · have hspent : spent key w' = spent key w := spent_post
    rw [hspent]
    exact Nat.le_refl _
  · refine (h.recorded row hrow c (hsucceeded _ _ hc)).imp id fun hun => ?_
    exact (Async.exists_mem_set _ hg hun).resolve_right id
  · refine (h.marked row hrow (hcomplete _ hc)).imp id fun hfin => ?_
    exact (Async.exists_mem_set _ hg hfin).resolve_right id

/-- A POST succeeds. -/
theorem Books.postSucceeded {item : Item} (h : Books w gs)
    (hg : gs[i]? = some (.delivering item)) :
    Books { w with posts := ⟨item.event.id, item.consumer.id, true⟩ :: w.posts }
      (gs.set i (.succeeded item.event.id item.consumer.id)) := by
  set w' : World := { w with posts := ⟨item.event.id, item.consumer.id, true⟩ :: w.posts }
  have hgrows : Grows w w' := ⟨fun _ h => h, fun _ h => h, fun _ h => List.mem_cons_of_mem _ h⟩
  have hknown : Fresh w item := h.known _ (List.mem_of_getElem? hg)
  have hsucceeded : ∀ e c, w'.Succeeded e c →
      (e = item.event.id ∧ c = item.consumer.id) ∨ w.Succeeded e c := by
    intro e c hc
    rcases List.mem_cons.mp hc with heq | hc
    · cases heq
      exact .inl ⟨rfl, rfl⟩
    · exact .inr hc
  refine ⟨fun key => h.tally_set hg ?_, h.consumers, fun row hrow => hgrows.sound (h.sound row hrow),
    fun row hrow c hc => ?_, fun row hrow hc => ?_, fun x hx => hgrows.fresh (h.queue x hx),
    fun x hx => hgrows.fresh (h.handed x hx),
    h.known_set hgrows ⟨hknown.stored, hknown.queued, List.mem_cons_self⟩,
    List.pairwise_cons.mpr ⟨h.not_delivered hg, h.once⟩⟩
  · have hspent : spent key w' = spent key w + Point.holds key (.delivering item) := by
      refine spent_post.trans ?_
      simp [Point.holds, Item.At]
    have hroom : room w' key.1 = room w key.1 := rfl
    rw [hspent, hroom]
    show 0 + _ + _ ≤ _
    omega
  · rcases hsucceeded _ _ hc with ⟨hid, rfl⟩ | hc
    · exact .inr ⟨_, Async.mem_set _ hg, hid.symm, rfl⟩
    · refine (h.recorded row hrow c hc).imp id fun hun => ?_
      exact (Async.exists_mem_set _ hg hun).resolve_right id
  · by_cases hid : row.id = item.event.id
    · exact .inr ⟨_, Async.mem_set _ hg, hid.symm⟩
    · obtain ⟨ids, hids, hall⟩ := hc
      have hc : Complete w row.id := ⟨ids, hids, fun c hc =>
        (hsucceeded _ _ (hall c hc)).resolve_left fun heq => hid heq.1⟩
      refine (h.marked row hrow hc).imp id fun hfin => ?_
      exact (Async.exists_mem_set _ hg hfin).resolve_right id

/-- The items of an event, one for each consumer. -/
theorem countP_items_le {event : StellarEvent} {rows : List WebhookConsumer} {key : Key}
    (hnodup : (rows.map (·.id)).Nodup) :
    (rows.map fun consumer => (⟨event, consumer⟩ : Item)).countP (Item.At key) ≤
      if event.id = key.1 then 1 else 0 := by
  rw [List.countP_map]
  split
  · obtain ⟨e, _ | c⟩ := key
    · refine Nat.le_trans (Nat.le_of_eq (List.countP_eq_zero.mpr fun x _ => ?_)) (Nat.zero_le 1)
      simp [Item.At]
    · refine Nat.le_trans (List.countP_mono_left fun x _ hx => ?_)
        (Nat.le_trans (Nat.le_of_eq (List.countP_map (f := fun x : WebhookConsumer => x.id)
          (p := (· == c)) (l := rows)).symm) (List.nodup_iff_count_le_one.mp hnodup c))
      have : e = event.id ∧ c = x.id := by simpa [Item.At] using hx
      simp [this.2]
  · next hne =>
    refine Nat.le_of_eq (List.countP_eq_zero.mpr fun x _ hx => hne ?_)
    have : key = (event.id, some x.id) := of_decide_eq_true hx
    rw [this]

/-- An event that is queued makes its items, or itself: it has the room for one of each key. -/
theorem countP_items_add_spent {event : StellarEvent} {rows : List WebhookConsumer} {key : Key}
    {ids : List Uuid} (hnodup : (rows.map (·.id)).Nodup) :
    (rows.map fun consumer => (⟨event, consumer⟩ : Item)).countP (Item.At key) +
        spent key { w with queued := (event.id, ids) :: w.queued } ≤
      (if event.id = key.1 then 1 else 0) + spent key w := by
  rw [spent_queue]
  split
  · next hkey =>
    have hevent : event.id = key.1 := by rw [hkey]
    have hzero : (rows.map fun consumer => (⟨event, consumer⟩ : Item)).countP (Item.At key) = 0 := by
      rw [hkey, List.countP_eq_zero]
      intro item hitem
      obtain ⟨consumer, -, rfl⟩ := List.mem_map.mp hitem
      simp [Item.At]
    rw [hzero, if_pos hevent]
    omega
  · have hitems : (rows.map fun consumer => (⟨event, consumer⟩ : Item)).countP (Item.At key) ≤
        if event.id = key.1 then 1 else 0 := countP_items_le hnodup
    omega

/-- A stored event is queued for the active consumers. -/
theorem Books.queueEvent {event : StellarEvent} (h : Books w gs)
    (hg : gs[i]? = some (.saved event)) :
    Books { w with queued := (event.id, w.activeConsumers.map (·.id)) :: w.queued }
      (gs.set i (if w.activeConsumers.isEmpty then .marking event.id
        else .queueing (w.activeConsumers.map fun consumer => { event, consumer }))) := by
  set ids := w.activeConsumers.map (·.id) with hids
  set w' : World := { w with queued := (event.id, ids) :: w.queued }
  have hgrows : Grows w w' := ⟨fun _ h => h, fun _ h => List.mem_cons_of_mem _ h, fun _ h => h⟩
  obtain ⟨hnone, hstored⟩ : event.deliveredTo = none ∧ Stored w event.id :=
    h.known _ (List.mem_of_getElem? hg)
  have hnodup : ids.Nodup := h.consumers.sublist (List.filter_sublist.map _)
  have hspent : ∀ c, spent (event.id, c) w = 0 := fun c =>
    h.spent_of_holds hg (by simp [Point.holds])
  have hempty : w.activeConsumers.isEmpty = true ↔ ids = [] := by
    rw [hids, List.isEmpty_iff, List.map_eq_nil_iff]
  refine ⟨fun key => h.tally_set hg ?_, h.consumers, fun row hrow => hgrows.sound (h.sound row hrow),
    fun row hrow c hc => ?_, fun row hrow hc => ?_, fun x hx => hgrows.fresh (h.queue x hx),
    fun x hx => hgrows.fresh (h.handed x hx), h.known_set hgrows ?_, h.once⟩
  · have hitems : (w.activeConsumers.map fun consumer => (⟨event, consumer⟩ : Item)).countP
        (Item.At key) + spent key w' ≤ (if event.id = key.1 then 1 else 0) + spent key w :=
      countP_items_add_spent hnodup
    have hroom : room w' key.1 = room w key.1 := rfl
    have hheld : Point.holds key (.saved event) = if event.id = key.1 then 1 else 0 := rfl
    rw [hroom, hheld]
    split
    · show 0 + _ + _ ≤ _
      omega
    · show List.countP _ _ + _ + _ ≤ _
      omega
  · refine (h.recorded row hrow c hc).imp id fun hun => ?_
    exact (Async.exists_mem_set _ hg hun).resolve_right id
  · obtain ⟨ids', hmem, hall⟩ := hc
    rcases List.mem_cons.mp hmem with heq | hmem
    · -- none of its consumers can have been delivered yet
      obtain ⟨hid, rfl⟩ := Prod.mk.inj heq
      have hnil : ids = [] := List.eq_nil_iff_forall_not_mem.mpr fun c hc => by
        have hpos := deliveries_pos (w := w) (hid ▸ hall c hc)
        have := hspent (some c)
        unfold spent at this
        omega
      refine .inr ⟨_, Async.mem_set _ hg, ?_⟩
      rw [if_pos (hempty.mpr hnil)]
      exact hid.symm
    · refine (h.marked row hrow ⟨ids', hmem, hall⟩).imp id fun hfin => ?_
      exact (Async.exists_mem_set _ hg hfin).resolve_right id
  · split
    · next hnil =>
      refine ⟨hstored, ids, List.mem_cons_self, ?_⟩
      rw [hempty.mp hnil]
      exact nofun
    · intro item hitem
      obtain ⟨consumer, -, rfl⟩ := List.mem_map.mp hitem
      exact ⟨hnone, hstored, ids, List.mem_cons_self⟩

/-- A row is saved over what is stored. -/
theorem Books.save {row : StellarEvent} (h : Books w gs) (hg : gs[i]? = some g)
    (hkeeps : Keeps w row) (hsound : Sound w row) (hholds : ∀ key, k.holds key ≤ g.holds key)
    (hunrecorded : ∀ e c, g.unrecorded e c → e = row.id ∧ c ∈ row.deliveredTo.getD [])
    (hfinishing : ∀ e, g.finishing e → k.finishing e ∨ (e = row.id ∧ row.isProcessed = true))
    (hk : k.Known w) :
    Books { w with events := updateWhere (·.id = row.id) (fun _ => row) w.events }
      (gs.set i k) := by
  set w' : World := { w with events := updateWhere (·.id = row.id) (fun _ => row) w.events }
  -- a row is the new one, or as it was
  have hrows : ∀ x ∈ w'.events, ∃ stored ∈ w.events, stored.id = x.id ∧
      ((stored.id = row.id ∧ x = row) ∨ (stored.id ≠ row.id ∧ x = stored)) := by
    intro x hx
    obtain ⟨stored, hstored, rfl⟩ := List.mem_map.mp hx
    refine ⟨stored, hstored, ?_⟩
    by_cases hid : stored.id = row.id
    · simp [hid]
    · simp [hid]
  have hgrows : Grows w w' := by
    refine ⟨fun e ⟨stored, hstored, hid⟩ => ⟨_, List.mem_map_of_mem hstored, ?_⟩, fun _ h => h,
      fun _ h => h⟩
    by_cases hrow : stored.id = row.id
    · rw [if_pos (decide_eq_true hrow)]
      exact hrow.symm.trans hid
    · rw [if_neg (by simpa using hrow)]
      exact hid
  refine ⟨fun key => h.tally_set hg ?_, h.consumers, fun x hx => ?_, fun x hx c hc => ?_,
    fun x hx hc => ?_, fun x hx => hgrows.fresh (h.queue x hx),
    fun x hx => hgrows.fresh (h.handed x hx), h.known_set hgrows (hk.mono hgrows), h.once⟩
  · exact Nat.add_le_add_right (Nat.add_le_add_right (hholds key) _) _
  · obtain ⟨stored, hstored, -, ⟨-, rfl⟩ | ⟨-, rfl⟩⟩ := hrows x hx
    · exact hgrows.sound hsound
    · exact hgrows.sound (h.sound _ hstored)
  · obtain ⟨stored, hstored, hid, hcase⟩ := hrows x hx
    rw [← hid] at hc ⊢
    rcases h.recorded stored hstored c hc with hin | hun
    · refine .inl ?_
      rcases hcase with ⟨heq, rfl⟩ | ⟨-, rfl⟩
      · exact (hkeeps stored hstored heq).1 c hin
      · exact hin
    · rcases Async.exists_mem_set k hg hun with hun | hun
      · exact .inr hun
      · obtain ⟨heq, hin⟩ := hunrecorded _ _ hun
        rcases hcase with ⟨-, rfl⟩ | ⟨hne, -⟩
        · exact .inl hin
        · exact absurd heq hne
  · obtain ⟨stored, hstored, hid, hcase⟩ := hrows x hx
    rw [← hid] at hc ⊢
    rcases h.marked stored hstored hc with hin | hfin
    · refine .inl ?_
      rcases hcase with ⟨heq, rfl⟩ | ⟨-, rfl⟩
      · exact (hkeeps stored hstored heq).2 hin
      · exact hin
    · rcases Async.exists_mem_set k hg hfin with hfin | hfin
      · exact .inr hfin
      · rcases hfinishing _ hfin with hfin | ⟨heq, hprocessed⟩
        · exact .inr ⟨k, Async.mem_set k hg, hfin⟩
        · rcases hcase with ⟨-, rfl⟩ | ⟨hne, -⟩
          · exact .inl hprocessed
          · exact absurd heq hne

/-- Items go to the end of the queue. -/
theorem Books.push {items : List Item} (h : Books w gs) (hg : gs[i]? = some g)
    (hitems : ∀ item ∈ items, Fresh w item)
    (hholds : ∀ key, items.countP (Item.At key) ≤ g.holds key)
    (hunrecorded : ∀ e c, ¬ g.unrecorded e c) (hfinishing : ∀ e, ¬ g.finishing e) :
    Books { w with deliveryQueue := w.deliveryQueue ++ items } (gs.set i .idle) := by
  refine h.shift hg ⟨rfl, rfl, rfl, id⟩ rfl (fun item hitem => ?_) h.handed (fun key => ?_)
    (fun e c hun => (hunrecorded e c hun).elim) (fun e hfin => (hfinishing e hfin).elim) trivial
  · exact (List.mem_append.mp hitem).elim (h.queue item) (hitems item)
  · have hheld := hholds key
    rw [spent_push]
    show 0 + _ ≤ _
    omega

/-- A batch of the queue is handed out. -/
theorem Books.splice (h : Books w gs) (hg : gs[i]? = some .idle) (n batch : Nat)
    (batches : List Batch) :
    Books { w with
        deliveryQueue := w.deliveryQueue.drop n
        isProcessingQueue := true
        handed := w.handed ++ (w.deliveryQueue.take n).map fun item => (batch, item)
        batches } (gs.set i .idle) := by
  refine h.shift hg ⟨rfl, rfl, rfl, id⟩ rfl
    (fun item hitem => h.queue item (List.mem_of_mem_drop hitem)) (fun x hx => ?_) (fun key => ?_)
    (fun _ _ h => h) (fun _ h => .inl h) trivial
  · rcases List.mem_append.mp hx with hx | hx
    · exact h.handed x hx
    · obtain ⟨item, hitem, rfl⟩ := List.mem_map.mp hx
      exact h.queue item (List.mem_of_mem_take hitem)
  · rw [spent_splice]

/-- A delivery of the batch begins. -/
theorem Books.take (h : Books w gs) (hg : gs[i]? = some .idle) {x : Nat × Item}
    {handed : List (Nat × Item)} (hhanded : w.handed = x :: handed) :
    Books { w with handed } (gs.set i (.delivering x.2)) := by
  have hmem : ∀ y ∈ x :: handed, Fresh w y.2 := fun y hy => h.handed y (hhanded ▸ hy)
  refine h.shift hg ⟨rfl, rfl, rfl, id⟩ rfl h.queue
    (fun y hy => hmem y (List.mem_cons_of_mem _ hy)) (fun key => ?_) (fun _ _ h => h.elim)
    (fun _ h => h.elim) (hmem x List.mem_cons_self)
  rw [spent_take hhanded, Nat.add_comm]
  exact Nat.le_of_eq (Nat.zero_add _).symm

/-- A row that is read says what is so. -/
theorem Books.found (h : Books w gs) {id : Uuid} {copy : StellarEvent}
    (hfind : w.events.find? (fun x => x.id = id) = some copy) : copy.id = id ∧ Sound w copy :=
  ⟨of_decide_eq_true (List.find?_some (p := fun x : StellarEvent => decide (x.id = id)) hfind),
    h.sound copy (List.mem_of_find?_eq_some hfind)⟩

/-- The row of a stored event is found. -/
theorem Stored.find {id : Uuid} (h : Stored w id) :
    ∃ copy, w.events.find? (fun x => x.id = id) = some copy := by
  obtain ⟨row, hrow, rfl⟩ := h
  exact Option.isSome_iff_exists.mp (List.find?_isSome.mpr ⟨row, hrow, by simp⟩)

theorem nodup_saveRow {rows : List WebhookConsumer} {row : WebhookConsumer}
    (h : (rows.map (·.id)).Nodup) : ((saveRow rows row).map (·.id)).Nodup := by
  unfold saveRow
  split
  · rw [map_updateWhere fun x _ hx => (of_decide_eq_true hx).symm]
    exact h
  · next hnone =>
    rw [List.map_append, List.map_singleton]
    refine List.nodup_append.mpr ⟨h, List.nodup_singleton _, fun a ha b hb heq => hnone ?_⟩
    obtain ⟨x, hx, rfl⟩ := List.mem_map.mp ha
    rw [List.mem_singleton.mp hb] at heq
    exact List.any_eq_true.mpr ⟨x, hx, decide_eq_true heq⟩

/-- An event is queued once. -/
theorem Books.queued_nodup (h : Books w gs) : (w.queued.map (·.1)).Nodup := by
  refine List.nodup_iff_count_le_one.mpr fun e => ?_
  have hcount : (w.queued.map (·.1)).count e = queueings (e, none) w := by
    unfold queueings
    rw [List.count, List.countP_map]
    refine List.countP_congr fun q _ => ?_
    simp only [Function.comp_apply, beq_iff_eq, decide_eq_true_eq, Prod.mk.injEq, and_true]
    exact eq_comm
  have htally := h.tally (e, none)
  have hroom : room w e ≤ 1 := room_le_one
  unfold spent at htally
  dsimp only at htally
  omega

theorem Books.allDelivered (h : Books w gs) {e : Uuid} (hc : Complete w e) : AllDelivered w e := by
  obtain ⟨ids, hids, hall⟩ := hc
  rintro ⟨e', ids'⟩ hids' rfl
  have heq := List.inj_on_of_nodup_map h.queued_nodup hids hids' rfl
  cases heq
  exact hall

theorem complete_of_allDelivered {e : Uuid} (hqueued : Queued w e) (h : AllDelivered w e) :
    Complete w e :=
  let ⟨ids, hids⟩ := hqueued
  ⟨ids, hids, h _ hids rfl⟩

variable {c : Outside} {a : Request} {r : Answer a}

theorem Books.answered_idle (h : Books w gs) (hg : gs[i]? = some .idle) (hasks : asks .idle a)
    (hx : answer c w a = some (r, w')) : told .idle a r ∧ Books w' (gs.set i (next .idle a r)) := by
  obtain rfl | rfl | ⟨batch, rfl⟩ | rfl | ⟨batch, ok, rfl⟩ | ⟨consumers, rfl⟩ := hasks
  · -- a UUID names an event
    cases hx
    refine ⟨trivial, h.quiet hg ⟨rfl, rfl, rfl, id⟩ h.queue h.handed (fun key => ?_)
      (fun _ _ h => h.elim) (fun _ h => h.elim) trivial⟩
    have hspent : spent key { w with uuids := w.uuids + 1 } = spent key w := rfl
    rw [hspent]
    exact named_le key.1 w.uuids _
  · simp only [answer] at hx
    split at hx
    · cases hx
      exact ⟨trivial, h.apart hg .refl rfl rfl rfl⟩
    · cases hx
      exact ⟨trivial, h.splice hg _ _ _⟩
  · simp only [answer] at hx
    split at hx
    · cases hx
      exact ⟨trivial, h.apart hg ⟨rfl, rfl, rfl, id⟩ rfl rfl rfl⟩
    · cases hx
  · simp only [answer] at hx
    split at hx
    · next hhanded =>
      cases hx
      exact ⟨(h.handed _ (hhanded ▸ List.mem_cons_self)).deliveredTo, h.take hg hhanded⟩
    · cases hx
  · cases hx
    exact ⟨trivial, h.apart hg ⟨rfl, rfl, rfl, id⟩ rfl rfl rfl⟩
  · cases hx
    refine ⟨trivial, ?_⟩
    split
    · next hnodup => exact h.apart hg ⟨rfl, rfl, rfl, fun _ => hnodup⟩ rfl rfl rfl
    · exact h.apart hg .refl rfl rfl rfl

theorem Books.answered_delivering {item : Item} (h : Books w gs)
    (hg : gs[i]? = some (.delivering item)) (hasks : asks (.delivering item) a)
    (hx : answer c w a = some (r, w')) :
    told (.delivering item) a r ∧ Books w' (gs.set i (next (.delivering item) a r)) := by
  have hfresh : Fresh w item := h.known _ (List.mem_of_getElem? hg)
  obtain ⟨id, rfl⟩ | ⟨row, rfl⟩ | rfl | ⟨p, rfl, hevent, hconsumer⟩ | rfl | ⟨batch, ok, rfl⟩ |
    ⟨ms, rfl⟩ | rfl := hasks
  · rcases attempt_cases hx with ⟨e, -, rfl, rfl⟩ | ⟨-, rfl, rfl⟩
    · exact ⟨trivial, h.apart hg .refl rfl rfl rfl⟩
    · refine ⟨fun x hfind => ?_, h.apart hg .refl rfl rfl rfl⟩
      exact of_decide_eq_true (List.find?_some (p := fun x : WebhookConsumer => decide (x.id = id))
        hfind)
  · rcases attempt_cases hx with ⟨e, -, rfl, rfl⟩ | ⟨-, rfl, rfl⟩
    · exact ⟨trivial, h.apart hg .refl rfl rfl rfl⟩
    · exact ⟨trivial, h.apart hg ⟨rfl, rfl, rfl, nodup_saveRow⟩ rfl rfl rfl⟩
  · cases hx
    exact ⟨trivial, h.apart hg .refl rfl rfl rfl⟩
  · cases hx
    show True ∧ Books { w with posts := ⟨p.event.id, p.consumer, c.response.isOk⟩ :: w.posts }
      (gs.set i (next (.delivering item) (.post p) c.response))
    rw [hevent, hconsumer]
    cases c.response with
    | error e => exact ⟨trivial, h.postFailed hg⟩
    | ok status => exact ⟨trivial, h.postSucceeded hg⟩
  · rcases attempt_cases hx with ⟨e, -, rfl, rfl⟩ | ⟨-, rfl, hw⟩
    · exact ⟨trivial, h.apart hg .refl rfl rfl rfl⟩
    · rw [hw]
      refine ⟨trivial, ?_⟩
      cases hfind : w.events.find? fun x => x.id = item.event.id with
      | none => exact h.apart hg .refl rfl rfl rfl
      | some copy =>
        exact h.stay hg (fun _ => Nat.le_refl _) (fun _ _ h => h) (fun _ h => .inl h)
          ⟨hfresh, (h.found hfind).2⟩
  · cases hx
    exact ⟨trivial, h.apart hg ⟨rfl, rfl, rfl, id⟩ rfl rfl rfl⟩
  · cases hx
    exact ⟨trivial, h.apart hg .refl rfl rfl rfl⟩
  · cases hx
    refine ⟨trivial, h.push hg (fun x hx => ?_) (fun key => ?_) (fun _ _ h => h) fun _ h => h⟩
    · rw [List.mem_singleton.mp hx]
      exact hfresh
    · rw [List.countP_singleton]
      exact Nat.le_refl _

/-- The rows of consumers are updated, and it is checked whether all are delivered. -/
theorem Books.answered_recorded {e : Uuid} (h : Books w gs) (hg : gs[i]? = some (.recorded e))
    (hasks : asks (.recorded e) a) (hrecords : Records w c.rejects a)
    (hx : answer c w a = some (r, w')) :
    told (.recorded e) a r ∧ Books w' (gs.set i (next (.recorded e) a r)) := by
  obtain ⟨hstored, hqueued⟩ : Stored w e ∧ Queued w e := h.known _ (List.mem_of_getElem? hg)
  obtain ⟨id, rfl⟩ | ⟨row, rfl⟩ | rfl := hasks
  · obtain ⟨hrejects, hfound⟩ := hrecords rfl
    rcases attempt_cases hx with ⟨e', he', -, -⟩ | ⟨-, rfl, rfl⟩
    · cases hrejects.symm.trans he'
    · obtain ⟨x, hin, rfl⟩ := hfound
      obtain ⟨y, hy⟩ := Option.isSome_iff_exists.mp
        (List.find?_isSome (p := fun y : WebhookConsumer => decide (y.id = x.id)).mpr
          ⟨x, hin, by simp⟩)
      exact ⟨⟨y, c.now, by rw [hy]⟩, h.apart hg .refl rfl rfl rfl⟩
  · rcases attempt_cases hx with ⟨e', he', -, -⟩ | ⟨-, rfl, rfl⟩
    · cases (hrecords rfl).symm.trans he'
    · exact ⟨rfl, h.apart hg ⟨rfl, rfl, rfl, nodup_saveRow⟩ rfl rfl rfl⟩
  · obtain ⟨hrejects, hcheck⟩ := hrecords
    rcases attempt_cases hx with ⟨e', he', -, -⟩ | ⟨-, rfl, rfl⟩
    · cases hrejects.symm.trans he'
    · refine ⟨⟨_, rfl⟩, ?_⟩
      show Books w (gs.set i (if w.activeConsumers.length ≤ 1 then .marking e else .idle))
      split
      · next hle =>
        exact h.stay hg (fun _ => Nat.le_refl _) (fun _ _ h => h) (fun _ h => .inl h)
          ⟨hstored, complete_of_allDelivered hqueued (hcheck.mp hle)⟩
      · next hlt =>
        refine h.stay hg (fun _ => Nat.le_refl _) (fun _ _ h => h) (fun e' hfin => .inr ?_) trivial
        cases hfin
        exact fun hc => hlt (hcheck.mpr (h.allDelivered hc))

/-- A row made of a copy says what is so. -/
theorem Sound.of_copy {copy row : StellarEvent} (h : Sound w copy) (hid : row.id = copy.id)
    (hdelivered : ∀ c ∈ row.deliveredTo.getD [],
      c ∈ copy.deliveredTo.getD [] ∨ w.Succeeded copy.id c)
    (hprocessed : row.isProcessed = true → copy.isProcessed = true ∨ Complete w copy.id) :
    Sound w row := by
  refine ⟨fun c hc => ?_, fun hp => ?_⟩
  · rw [hid]
    exact (hdelivered c hc).elim (h.delivered c) id
  · rw [hid]
    exact (hprocessed hp).elim h.processed id

/-- **One answer.** -/
theorem Books.answered (h : Books w gs) (hg : gs[i]? = some g) (hasks : asks g a)
    (hrecords : Records w c.rejects a) (hx : answer c w a = some (r, w')) :
    told g a r ∧ Books w' (gs.set i (next g a r)) := by
  have hknown : g.Known w := h.known _ (List.mem_of_getElem? hg)
  cases g with
  | idle => exact h.answered_idle hg hasks hx
  | named e =>
    obtain ⟨row, rfl, rfl, hdelivered, hprocessed⟩ := hasks
    rcases attempt_cases hx with ⟨e, -, rfl, rfl⟩ | ⟨-, rfl, rfl⟩
    · exact ⟨trivial, h.stay hg (fun _ => Nat.zero_le _) (fun _ _ h => h) (fun _ h => .inl h) trivial⟩
    · exact ⟨trivial, h.insert hg hdelivered hprocessed⟩
  | saved event =>
    obtain rfl := hasks
    rcases attempt_cases hx with ⟨e, -, rfl, rfl⟩ | ⟨-, rfl, rfl⟩
    · exact ⟨trivial, h.stay hg (fun _ => Nat.zero_le _) (fun _ _ h => h) (fun _ h => .inl h) trivial⟩
    · exact ⟨trivial, h.queueEvent hg⟩
  | queueing items =>
    obtain rfl := hasks
    cases hx
    exact ⟨trivial, h.push hg hknown (fun _ => Nat.le_refl _) (fun _ _ h => h) fun _ h => h⟩
  | delivering item => exact h.answered_delivering hg hasks hx
  | failing item copy =>
    obtain ⟨row, rfl, hid, hdelivered, hprocessed⟩ := hasks
    rcases attempt_cases hx with ⟨e, -, rfl, rfl⟩ | ⟨hrejects, rfl, rfl⟩
    · exact ⟨trivial, h.stay hg (fun _ => Nat.le_refl _) (fun _ _ h => h) (fun _ h => .inl h)
        hknown.1⟩
    · exact ⟨trivial, h.save hg (hrecords.2 hrejects)
        (hknown.2.of_copy hid (fun c hc => .inl (hdelivered ▸ hc)) fun hp => .inl (hprocessed ▸ hp))
        (fun _ => Nat.le_refl _) (fun _ _ h => h.elim) (fun _ h => h.elim) hknown.1⟩
  | succeeded e c =>
    obtain rfl := hasks
    obtain ⟨copy, hfind⟩ := hknown.1.find
    rcases attempt_cases hx with ⟨e', he', -, -⟩ | ⟨-, rfl, rfl⟩
    · cases (hrecords rfl).symm.trans he'
    · rw [hfind]
      obtain ⟨hid, hsound⟩ := h.found hfind
      exact ⟨⟨copy, _, rfl⟩, h.stay hg (fun _ => Nat.le_refl _) (fun _ _ h => h)
        (fun _ h => .inl h) ⟨hknown.1, hknown.2.1, hknown.2.2, hid, hsound⟩⟩
  | updating e c copy =>
    obtain ⟨hstored, hqueued, hsucceeded, hcopy, hsound⟩ := hknown
    obtain ⟨row, rfl, hid, hdelivered, hprocessed⟩ := hasks
    rcases attempt_cases hx with ⟨e', he', -, -⟩ | ⟨hrejects, rfl, rfl⟩
    · cases (hrecords.1 rfl).symm.trans he'
    · refine ⟨rfl, h.save hg (hrecords.2 hrejects) (hsound.of_copy hid (fun x hx => ?_)
        fun hp => .inl (hprocessed ▸ hp)) (fun _ => Nat.le_refl _) ?_ (fun _ h => .inl h)
        ⟨hstored, hqueued⟩⟩
      · rw [hdelivered, mem_addId] at hx
        refine hx.imp id fun heq => ?_
        rw [hcopy, heq]
        exact hsucceeded
      · rintro e' c' ⟨rfl, rfl⟩
        exact ⟨(hid.trans hcopy).symm, by rw [hdelivered]; exact mem_addId.mpr (.inr rfl)⟩
  | recorded e => exact h.answered_recorded hg hasks hrecords hx
  | marking e =>
    obtain rfl := hasks
    obtain ⟨copy, hfind⟩ := hknown.1.find
    rcases attempt_cases hx with ⟨e', he', -, -⟩ | ⟨-, rfl, rfl⟩
    · cases (hrecords rfl).symm.trans he'
    · rw [hfind]
      obtain ⟨hid, hsound⟩ := h.found hfind
      exact ⟨⟨copy, _, rfl⟩, h.stay hg (fun _ => Nat.le_refl _) (fun _ _ h => h)
        (fun _ h => .inl h) ⟨hknown.2, hid, hsound⟩⟩
  | markingCopy e copy =>
    obtain ⟨hcomplete, hcopy, hsound⟩ := hknown
    obtain ⟨row, rfl, hid, hdelivered, hprocessed⟩ := hasks
    rcases attempt_cases hx with ⟨e', he', -, -⟩ | ⟨hrejects, rfl, rfl⟩
    · cases (hrecords.1 rfl).symm.trans he'
    · exact ⟨rfl, h.save hg (hrecords.2 hrejects) (hsound.of_copy hid
        (fun c hc => .inl (hdelivered ▸ hc)) fun _ => .inr (hcopy.symm ▸ hcomplete))
        (fun _ => Nat.le_refl _) (fun _ _ h => h.elim)
        (fun e' h => .inr ⟨h.symm.trans (hid.trans hcopy).symm, hprocessed⟩) trivial⟩

theorem Books.initial (h : Initial w) : Books w [] := by
  have hrows : ∀ row, row ∉ w.events := fun row => by
    rw [h.events]
    exact List.not_mem_nil
  have hqueue : ∀ item, item ∉ w.deliveryQueue := fun item => by
    rw [h.deliveryQueue]
    exact List.not_mem_nil
  have hhanded : ∀ x, x ∉ w.handed := fun x => by
    rw [h.handed]
    exact List.not_mem_nil
  refine ⟨fun key => ?_, h.consumers, fun row hrow => absurd hrow (hrows row),
    fun row hrow => absurd hrow (hrows row), fun row hrow => absurd hrow (hrows row),
    fun item hitem => absurd hitem (hqueue item), fun x hx => absurd hx (hhanded x),
    fun g hg => absurd hg List.not_mem_nil, ?_⟩
  · unfold spent deliveries queueings
    rw [h.deliveryQueue, h.handed, h.posts, h.queued]
    exact Nat.zero_le _
  · rw [h.posts]
    exact .nil

/-- A task that is to record something of the event is recording it. -/
theorem recording_of_finishing {p : Async Request Answer (Except String Unit)} {event : Uuid}
    (h : Async.wp (obeying protocol) p End g) (hfinishing : g.finishing event) :
    Recording event p = true := by
  cases p with
  | done x => exact absurd hfinishing (h event)
  | await a k =>
    have hasks : asks g a := h.1
    cases g with
    | succeeded e c =>
      obtain rfl := hasks
      cases hfinishing
      exact decide_eq_true rfl
    | updating e c copy =>
      obtain ⟨row, rfl, -⟩ := hasks
      cases hfinishing
      exact decide_eq_true rfl
    | recorded e =>
      cases hfinishing
      obtain ⟨id, rfl⟩ | ⟨row, rfl⟩ | rfl := hasks <;> exact decide_eq_true rfl
    | marking e =>
      obtain rfl := hasks
      cases hfinishing
      exact decide_eq_true rfl
    | markingCopy e copy =>
      obtain ⟨row, rfl, -⟩ := hasks
      cases hfinishing
      exact decide_eq_true rfl
    | idle | named _ | saved _ | queueing _ | delivering _ | failing _ _ => cases hfinishing

theorem Point.finishing_of_unrecorded {e c : Uuid} (h : g.unrecorded e c) : g.finishing e := by
  cases g with
  | succeeded e' c' => exact h.1
  | updating e' c' copy => exact h.1
  | _ => cases h

end Ledger

def sampleEvent (id : Uuid) : StellarEventDto :=
  { id, eventType := .payment, ledgerSequence := 1, timestamp := 0, transactionHash := "hash",
    sourceAccount := none, payload := .payment none none none none none none none none }

def sampleConsumer (id : Uuid) : WebhookConsumer :=
  { id, url := "https://example.org", secret := none, status := .active, maxRetries := 5,
    timeoutMs := 5000, isActive := true, lastDeliveryAttempt := none, lastDeliverySuccess := none,
    totalDeliveries := 0, failedDeliveries := 0 }

def sampleWorld (consumers : List Uuid) : World :=
  { events := [], consumers := consumers.map sampleConsumer, deliveryQueue := [],
    isProcessingQueue := false, handed := [], batches := [], posts := [], queued := [], uuids := 0 }

theorem sampleWorld_initial {consumers : List Uuid} (h : consumers.Nodup) :
    Initial (sampleWorld consumers) := by
  refine ⟨rfl, rfl, rfl, rfl, rfl, ?_⟩
  have hmap : (consumers.map sampleConsumer).map (·.id) = consumers := by
    rw [List.map_map]
    exact List.map_id _
  show ((consumers.map sampleConsumer).map (·.id)).Nodup
  rw [hmap]
  exact h

def undisturbed : Outside := { now := 0, rejects := none, response := .ok 200 }

def sampleSigner : Signer := fun _ _ _ => ""

/-- The task gets its next answers. -/
def answers (task n : Nat) : List (Async.Move Operation) := List.replicate n (.resume task)

/-- An event comes, is queued, and its batch is handed out. -/
def sampleStart : List (Async.Move Operation) := .start (.handleEvent sampleEvent) :: answers 0 5

/-- A delivery begins. -/
def sampleDelivery (task n : Nat) : List (Async.Move Operation) := .start .deliver :: answers task n

end Stellara.Webhooks
