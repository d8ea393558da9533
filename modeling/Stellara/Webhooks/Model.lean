import Stellara.Lib.Protocol
import Stellara.Lib.Table
import Stellara.Monitor.Event

/-!
# Webhook delivery

`WebhookDeliveryService` with `EventStorageService` and `ConsumerManagementService`.  Every
repository call and every POST is one request, and so is what the service does with its queue
between two awaits.  The deliveries of a batch run in parallel: `splice` hands them out, each is a
task of its own that begins with `begin` and reports its end with `finish`, and `settled` is
answered once all have ended or one was rejected.  A retry goes on in the task of the delivery
after it has reported its end.

Four things are not in the source.  The world keeps all `posts`, and for which consumers an event
was `queued`; a POST names the consumer; and a request names the event of which it records a
successful delivery, or that all are delivered.
-/

namespace Stellara.Webhooks

open Monitor

/-! ## Consumers -/

inductive ConsumerStatus
  | active
  | inactive
  | suspended
  deriving DecidableEq

structure WebhookConsumer where
  id : Uuid
  url : String
  secret : Option String
  status : ConsumerStatus
  maxRetries : Int
  timeoutMs : Int
  isActive : Bool
  lastDeliveryAttempt : Option Int
  lastDeliverySuccess : Option Int
  totalDeliveries : Int
  failedDeliveries : Int
  deriving DecidableEq

/-- `ConsumerManagementService.updateDeliveryStats`, on its copy. -/
def WebhookConsumer.updateDeliveryStats (consumer : WebhookConsumer) (isSuccess : Bool)
    (now : Int) : WebhookConsumer :=
  let consumer := { consumer with
    totalDeliveries := consumer.totalDeliveries + 1
    lastDeliveryAttempt := some now }
  if isSuccess then
    { consumer with
      lastDeliverySuccess := some now
      failedDeliveries := max 0 (consumer.failedDeliveries - 1) }
  else
    let consumer := { consumer with failedDeliveries := consumer.failedDeliveries + 1 }
    if consumer.failedDeliveries > 10 then { consumer with isActive := false, status := .suspended }
    else consumer

/-! ## Events -/

/-- Adds the id, unless it is there. -/
def addId (ids : Option (List Uuid)) (id : Uuid) : Option (List Uuid) :=
  let ids := ids.getD []
  some (if id ∈ ids then ids else ids ++ [id])

/-- `EventStorageService.updateEventStatus`, on its copy. -/
def updateStatus (event : StellarEvent) (status : DeliveryStatus) (consumerId : Uuid)
    (errorMessage : Option String) (now : Int) : StellarEvent :=
  let event := { event with
    deliveryStatus := status
    deliveryAttempts := event.deliveryAttempts + 1
    lastAttemptAt := some now }
  let event :=
    match status with
    | .delivered =>
      { event with deliveredAt := some now, deliveredTo := addId event.deliveredTo consumerId }
    | .failed =>
      { event with failedDeliveries := addId event.failedDeliveries consumerId }
    | .pending => event
  match errorMessage with
  | some message => if message = "" then event else { event with errorMessage := message }
  | none => event

/-- What a status does to the fields that say who was delivered, and whether all are. -/
theorem updateStatus_spec (event : StellarEvent) (status : DeliveryStatus) (consumerId : Uuid)
    (errorMessage : Option String) (now : Int) :
    (updateStatus event status consumerId errorMessage now).id = event.id ∧
      (updateStatus event status consumerId errorMessage now).deliveredTo =
        (if status = .delivered then addId event.deliveredTo consumerId else event.deliveredTo) ∧
      (updateStatus event status consumerId errorMessage now).isProcessed = event.isProcessed := by
  cases status <;> cases errorMessage with
  | none => exact ⟨rfl, rfl, rfl⟩
  | some message =>
    by_cases hmessage : message = "" <;> simp [updateStatus, hmessage]

theorem mem_addId {ids : Option (List Uuid)} {id x : Uuid} :
    x ∈ (addId ids id).getD [] ↔ x ∈ ids.getD [] ∨ x = id := by
  show x ∈ (if id ∈ ids.getD [] then ids.getD [] else ids.getD [] ++ [id]) ↔ _
  split
  · next h =>
    constructor
    · exact .inl
    · rintro (hx | rfl)
      · exact hx
      · exact h
  · rw [List.mem_append, List.mem_singleton]

/-! ## World -/

/-- An item of the queue, with the copies that were queued. -/
structure Item where
  event : StellarEvent
  consumer : WebhookConsumer
  deriving DecidableEq

/-- The deliveries of a batch that have not ended, and whether one was rejected. -/
structure Batch where
  unfinished : Nat
  rejected : Bool

structure Posted where
  event : Uuid
  consumer : Uuid
  success : Bool
  deriving DecidableEq

structure World where
  events : List StellarEvent
  consumers : List WebhookConsumer
  deliveryQueue : List Item
  isProcessingQueue : Bool
  handed : List (Nat × Item)
  batches : List Batch
  posts : List Posted
  queued : List (Uuid × List Uuid)
  uuids : Nat

def World.Succeeded (w : World) (event consumer : Uuid) : Prop := ⟨event, consumer, true⟩ ∈ w.posts

instance (w : World) (event consumer : Uuid) : Decidable (w.Succeeded event consumer) :=
  inferInstanceAs (Decidable (_ ∈ w.posts))

def World.activeConsumers (w : World) : List WebhookConsumer :=
  w.consumers.filter fun x => x.isActive ∧ x.status = .active

/-- A POST. -/
structure Post where
  consumer : Uuid
  url : String
  timeout : Int
  event : StellarEventDto
  deliveredAt : Int
  attempt : Nat
  signature : Option String

/-- Why the active consumers are read: to queue an event, or to see whether one is delivered. -/
inductive Purpose
  | queue (event : Uuid)
  | check (event : Uuid)

inductive Request
  -- rows; a search is answered with the time as well
  | randomUUID
  | insertEvent (row : StellarEvent)
  | findEvent (id : Uuid) (records : Option Uuid)
  | saveEvent (row : StellarEvent) (records : Option Uuid)
  | findConsumer (id : Uuid) (records : Option Uuid)
  | saveConsumer (row : WebhookConsumer) (records : Option Uuid)
  | getActiveConsumers (purpose : Purpose)
  -- the queue
  | push (items : List Item)
  | splice
  | settled (batch : Nat)
  | begin
  | finish (batch : Nat) (ok : Bool)
  -- outside
  | now
  | sleep (ms : Int)
  | post (p : Post)
  | manage (consumers : List WebhookConsumer)

/-- The event of which the request records a delivery, or that all are delivered. -/
def Request.records? : Request → Option Uuid
  | .findEvent _ records | .saveEvent _ records | .findConsumer _ records
  | .saveConsumer _ records => records
  | .getActiveConsumers (.check event) => some event
  | _ => none

def Answer : Request → Type
  | .randomUUID => Uuid
  | .insertEvent _ => Except String Unit
  | .findEvent _ _ => Except String (Option StellarEvent × Int)
  | .saveEvent _ _ => Except String Unit
  | .findConsumer _ _ => Except String (Option WebhookConsumer × Int)
  | .saveConsumer _ _ => Except String Unit
  | .getActiveConsumers _ => Except String (List WebhookConsumer)
  | .push _ => Bool
  | .splice => Option Nat
  | .settled _ => Unit
  | .begin => Nat × Item
  | .finish _ _ => Unit
  | .now => Int
  | .sleep _ => Unit
  | .post _ => Except (Option Nat × String) Nat
  | .manage _ => Unit

/-- The circumstances of an answer; `response` is the status of a POST, or its error. -/
structure Outside where
  now : Int
  rejects : Option String
  response : Except (Option Nat × String) Nat

open Async (attempt)

/-- Saves a row; one that is gone is inserted again. -/
def saveRow (rows : List WebhookConsumer) (row : WebhookConsumer) : List WebhookConsumer :=
  if rows.any fun x => x.id = row.id then updateWhere (·.id = row.id) (fun _ => row) rows
  else rows ++ [row]

def Purpose.queued (ids : List Uuid) (queued : List (Uuid × List Uuid)) :
    Purpose → List (Uuid × List Uuid)
  | .queue event => (event, ids) :: queued
  | .check _ => queued

def answer (c : Outside) (w : World) : (a : Request) → Option (Answer a × World)
  | .randomUUID => some (w.uuids, { w with uuids := w.uuids + 1 })
  | .insertEvent row => some (attempt c.rejects () w { w with events := w.events ++ [row] })
  | .findEvent id _ =>
    some (attempt c.rejects (w.events.find? fun x => x.id = id, c.now) w w)
  | .saveEvent row _ =>
    some (attempt c.rejects () w
      { w with events := updateWhere (·.id = row.id) (fun _ => row) w.events })
  | .findConsumer id _ =>
    some (attempt c.rejects (w.consumers.find? fun x => x.id = id, c.now) w w)
  | .saveConsumer row _ =>
    some (attempt c.rejects () w { w with consumers := saveRow w.consumers row })
  | .getActiveConsumers purpose =>
    some (attempt c.rejects w.activeConsumers w
      { w with queued := purpose.queued (w.activeConsumers.map (·.id)) w.queued })
  | .push items => some (w.isProcessingQueue, { w with deliveryQueue := w.deliveryQueue ++ items })
  | .splice =>
    if w.isProcessingQueue ∨ w.deliveryQueue = [] then some (none, w)
    else
      let batchSize := 10
      let batch := w.deliveryQueue.take batchSize
      some (some w.batches.length, { w with
        deliveryQueue := w.deliveryQueue.drop batchSize
        isProcessingQueue := true
        handed := w.handed ++ batch.map fun item => (w.batches.length, item)
        batches := w.batches ++ [⟨batch.length, false⟩] })
  | .settled batch =>
    if w.batches[batch]?.any (fun b => b.unfinished = 0 ∨ b.rejected) then
      some ((), { w with isProcessingQueue := false })
    else none
  | .begin =>
    match w.handed with
    | item :: handed => some (item, { w with handed })
    | [] => none
  | .finish batch ok =>
    some ((), { w with
      batches := w.batches.modify batch fun b => ⟨b.unfinished - 1, b.rejected || !ok⟩ })
  | .now => some (c.now, w)
  | .sleep _ => some ((), w)
  | .post p =>
    some (c.response, { w with posts := ⟨p.event.id, p.consumer, c.response.isOk⟩ :: w.posts })
  | .manage consumers =>
    some ((), if (consumers.map (·.id)).Nodup then { w with consumers } else w)

/-! ## Programs -/

abbrev On (α : Type) : Type := Block Request Answer String Unit α

open Block

/-- A request that is not rejected. -/
def ask {α : Type} (a : Request) (f : Answer a → α) : On α := request a fun r => .ok (f r)

namespace EventStorageService

/-- `findOne`, or the error that there is none. -/
def getEventById (eventId : Uuid) (records : Option Uuid) : On (StellarEvent × Int) := do
  let (found, now) ← request (.findEvent eventId records) id
  match found with
  | some event => pure (event, now)
  | none => throw s!"Event {eventId} not found"

def updateEventStatus (eventId : Uuid) (status : DeliveryStatus) (consumerId : Uuid)
    (errorMessage : Option String) (records : Option Uuid) : On Unit := do
  let (event, now) ← getEventById eventId records
  request (.saveEvent (updateStatus event status consumerId errorMessage now) records) id

def markEventAsProcessed (eventId : Uuid) : On Unit := do
  let (event, _) ← getEventById eventId (some eventId)
  request (.saveEvent { event with isProcessed := true } (some eventId)) id

end EventStorageService

namespace ConsumerManagementService

def getConsumerById (id : Uuid) (records : Option Uuid) : On (WebhookConsumer × Int) := do
  let (found, now) ← request (.findConsumer id records) fun r => r
  match found with
  | some consumer => pure (consumer, now)
  | none => throw s!"Consumer with ID {id} not found"

def getActiveConsumers (purpose : Purpose) : On (List WebhookConsumer) :=
  request (.getActiveConsumers purpose) id

def updateDeliveryStats (consumerId : Uuid) (isSuccess : Bool) (records : Option Uuid) :
    On Unit := do
  let (consumer, now) ← getConsumerById consumerId records
  request (.saveConsumer (consumer.updateDeliveryStats isSuccess now) records) id

end ConsumerManagementService

open EventStorageService ConsumerManagementService

/-- `createHmac('sha256', secret)` of the JSON of a payload. -/
abbrev Signer : Type := StellarEventDto → Int → String → String

structure DeliveryResult where
  success : Bool
  statusCode : Option Nat := none
  errorMessage : Option String := none

def processQueue : On Unit := do
  let batch ← ask .splice fun batch : Option Nat => batch
  match batch with
  | some batch => ask (.settled batch) id
  | none => pure ()

/-- Pushes the items; `if (!this.isProcessingQueue) this.processQueue();` -/
def enqueue (items : List Item) : On Unit := do
  let isProcessingQueue ← ask (.push items) fun b : Bool => b
  if isProcessingQueue then pure () else processQueue

def queueEventForDelivery (event : StellarEvent) : On Unit := do
  let activeConsumers ← getActiveConsumers (.queue event.id)
  if activeConsumers.isEmpty then markEventAsProcessed event.id
  else enqueue (activeConsumers.map fun consumer => { event, consumer })

def attemptDelivery (sign : Signer) (event : StellarEvent) (consumer : WebhookConsumer) :
    On DeliveryResult := do
  let deliveredAt ← ask .now fun now : Int => now
  let signature := (consumer.secret.filter fun s => s ≠ "").map fun secret =>
    sign event.toStellarEventDto deliveredAt secret
  ask (.post {
      consumer := consumer.id
      url := consumer.url
      timeout := consumer.timeoutMs
      event := event.toStellarEventDto
      deliveredAt
      attempt := event.deliveryAttempts + 1
      signature })
    fun response : Except (Option Nat × String) Nat =>
      match response with
      | .ok status => { success := true, statusCode := some status }
      | .error (status, message) =>
        { success := false, statusCode := status, errorMessage := some message }

def handleSuccessfulDelivery (event : StellarEvent) (consumer : WebhookConsumer) : On Unit := do
  updateEventStatus event.id .delivered consumer.id none (some event.id)
  updateDeliveryStats consumer.id true (some event.id)
  let activeConsumers ← getActiveConsumers (.check event.id)
  let deliveredCount := (event.deliveredTo.getD []).length + 1
  if activeConsumers.length ≤ deliveredCount then markEventAsProcessed event.id else pure ()

/-- 1 s, 2 s, 4 s, … and at most 5 minutes. -/
def calculateBackoffDelay (attempt : Nat) : Int :=
  let baseDelay := 1000
  let maxDelay := 300000
  min (baseDelay * 2 ^ (attempt - 1)) maxDelay

/-- Returns the delay of the retry, if there is one. -/
def handleFailedDelivery (event : StellarEvent) (consumer : WebhookConsumer)
    (result : DeliveryResult) : On (Option Int) := do
  updateDeliveryStats consumer.id false none
  let attemptNumber := event.deliveryAttempts + 1
  if consumer.maxRetries ≤ attemptNumber then do
    updateEventStatus event.id .failed consumer.id result.errorMessage none
    pure none
  else pure (some (calculateBackoffDelay attemptNumber))

/-- What follows a POST. -/
def handleResult (event : StellarEvent) (consumer : WebhookConsumer) (result : DeliveryResult) :
    On (Option Int) :=
  if result.success then do
    handleSuccessfulDelivery event consumer
    pure none
  else handleFailedDelivery event consumer result

def deliverEventToConsumer (sign : Signer) (event : StellarEvent) (consumer : WebhookConsumer) :
    On (Option Int) :=
  tryCatch (do
      let (freshConsumer, _) ← getConsumerById consumer.id none
      if freshConsumer.isActive then do
        let result ← attemptDelivery sign event freshConsumer
        handleResult event consumer result
      else pure none)
    fun errorMessage =>
      handleFailedDelivery event consumer { success := false, errorMessage := some errorMessage }

/-- The delay of the retry, or the error. -/
def outcome (m : On (Option Int)) : On (Except String (Option Int)) :=
  tryCatch (do
      let delay ← m
      pure (.ok delay))
    fun e => pure (.error e)

/-- One delivery of a batch, and its retry. -/
def deliver (sign : Signer) : On Unit := do
  let (batch, item) ← ask .begin fun x : Nat × Item => x
  let result ← outcome (deliverEventToConsumer sign item.event item.consumer)
  ask (.finish batch result.isOk) id
  match result with
  | .ok (some delay) => do
    ask (.sleep delay) id
    enqueue [item]
  | _ => pure ()

/-- `saveEvent` and `queueEventForDelivery`, as the event handlers call them. -/
def handleEvent (eventData : Uuid → StellarEventDto) : On Unit := do
  let id ← ask .randomUUID fun id : Nat => id
  let savedEvent := { (eventData id).create with id }
  request (.insertEvent savedEvent) fun r => r
  queueEventForDelivery savedEvent

/-- An event of the monitor, a delivery of a batch, the interval of the queue, or anything that
the other operations of `ConsumerManagementService` leave in their table. -/
inductive Operation
  | handleEvent (eventData : Uuid → StellarEventDto)
  | deliver
  | interval
  | manage (consumers : List WebhookConsumer)

def Operation.program (sign : Signer) : Operation → Async Request Answer (Except String Unit)
  | .handleEvent eventData => (Webhooks.handleEvent eventData).program
  | .deliver => (Webhooks.deliver sign).program
  | .interval => processQueue.program
  | .manage consumers => (ask (.manage consumers) id : On Unit).program

/-- No event is stored; consumers have distinct ids. -/
structure Initial (w : World) : Prop where
  events : w.events = []
  deliveryQueue : w.deliveryQueue = []
  handed : w.handed = []
  posts : w.posts = []
  queued : w.queued = []
  consumers : (w.consumers.map (·.id)).Nodup

abbrev machine (sign : Signer) :=
  Async.interleave (Operation.program sign) (fun _ => True) answer Initial

abbrev System : Type := Async.System Request Answer (Except String Unit) World

abbrev Trace : Type := List (Event Outside (Async.Move Operation) Unit System)

end Stellara.Webhooks
