import Stellara.Lib.Protocol
import Stellara.Monitor.Event

/-!
# Monitoring Horizon

`StellarEventMonitorService`.  Horizon keeps a ledger of operations and serves streams of it: one
that is opened at the end of the ledger delivers the operations that follow and belong to its
endpoint, in order, until it is closed.  An error of a stream does not close it.  What the service
does between two awaits is one request; the operations that Horizon applies come from outside.

Two things are not in the source: a stream keeps the cursor it was opened at, and an event is
saved together with the position of its operation in the ledger.
-/

namespace Stellara.Monitor

/-! ## Horizon -/

/-- An operation, with its transaction's `ledger`, `memo` and `memo_type`. -/
structure HorizonOperation where
  type : String
  created_at : Int
  transaction_hash : String
  source_account : String
  ledger : Int
  memo : Option String := none
  memo_type : Option String := none
  asset_type : Option String := none
  asset_code : Option String := none
  asset_issuer : Option String := none
  sender : Option String := none
  receiver : Option String := none
  amount : Option String := none
  offer_id : Option String := none
  price : Option String := none
  selling_asset_type : Option String := none
  selling_asset_code : Option String := none
  selling_asset_issuer : Option String := none
  buying_asset_type : Option String := none
  buying_asset_code : Option String := none
  buying_asset_issuer : Option String := none

/-- The operations listed as payments. -/
def HorizonOperation.isPayment (op : HorizonOperation) : Bool :=
  op.type ∈ ["create_account", "payment", "path_payment_strict_receive",
    "path_payment_strict_send", "account_merge"]

def HorizonOperation.isManageOffer (op : HorizonOperation) : Bool :=
  op.type ∈ ["manage_sell_offer", "manage_buy_offer"]

inductive Endpoint
  | payments
  | operations
  deriving DecidableEq

/-- What the endpoint serves. -/
def Endpoint.lists : Endpoint → HorizonOperation → Bool
  | .payments, op => op.isPayment
  | .operations, _ => true

/-- What the service keeps of it. -/
def Endpoint.keeps : Endpoint → HorizonOperation → Bool
  | .payments, op => op.isPayment
  | .operations, op => op.isManageOffer

theorem Endpoint.lists_of_keeps {e : Endpoint} {op : HorizonOperation} (h : e.keeps op = true) :
    e.lists op = true := by
  cases e with
  | payments => exact h
  | operations => rfl

/-- No operation is a payment and an offer. -/
theorem Endpoint.eq_of_keeps {e e' : Endpoint} {op : HorizonOperation} (h : e.keeps op = true)
    (h' : e'.keeps op = true) : e = e' := by
  have hboth : ¬ (op.isPayment = true ∧ op.isManageOffer = true) := by
    rintro ⟨hpayment, hoffer⟩
    rcases List.mem_cons.mp (of_decide_eq_true hoffer) with htype | htype
    · rw [HorizonOperation.isPayment, htype] at hpayment
      exact absurd hpayment (by decide)
    · rw [HorizonOperation.isPayment, List.mem_singleton.mp htype] at hpayment
      exact absurd hpayment (by decide)
  cases e <;> cases e'
  · rfl
  · exact absurd ⟨h, h'⟩ hboth
  · exact absurd ⟨h', h⟩ hboth
  · rfl

/-- A stream was opened at `cursor`, and has delivered what is below `position`. -/
structure Stream where
  endpoint : Endpoint
  cursor : Nat
  position : Nat
  isOpen : Bool

/-- The next operation of the stream, with its position. -/
def Stream.next (s : Stream) (ledger : List HorizonOperation) : Option (HorizonOperation × Nat) :=
  ledger.zipIdx.find? fun x => s.position ≤ x.2 ∧ s.endpoint.lists x.1

/-! ## World -/

/-- `streams` are all that were ever opened, of which `paymentStream` and `offerStream` can still
be closed. -/
structure World where
  ledger : List HorizonOperation
  streams : List Stream
  paymentStream : Option Nat
  offerStream : Option Nat
  isMonitoring : Bool
  lastLedgerSequence : Int
  events : List (Nat × StellarEvent)
  uuids : Nat

inductive Request
  -- by Horizon
  | apply (op : HorizonOperation)
  | deliver (stream : Nat)
  | latestLedger
  -- of the service
  | begin
  | fail
  | startStreams (sequence : Int)
  | restart (endpoint : Endpoint)
  | stop
  | sleep (ms : Int)
  | randomUUID
  -- of other services
  | save (position : Nat) (event : StellarEvent)
  | queueEventForDelivery (event : StellarEvent)

def Answer : Request → Type
  | .apply _ => Unit
  | .deliver _ => Nat × Endpoint × HorizonOperation
  | .latestLedger => Except String Int
  | .begin => Bool
  | .fail | .startStreams _ | .restart _ | .stop | .sleep _ => Unit
  | .randomUUID => Uuid
  | .save _ _ | .queueEventForDelivery _ => Except String Unit

/-- The circumstances of an answer. -/
structure Outside where
  sequence : Int
  rejects : Option String

open Async (attempt)

/-- `this.horizonServer.….cursor('now').stream(…)` -/
def World.open (w : World) (endpoint : Endpoint) : World :=
  let stream : Stream := ⟨endpoint, w.ledger.length, w.ledger.length, true⟩
  let id := some w.streams.length
  let w := { w with streams := w.streams ++ [stream] }
  match endpoint with
  | .payments => { w with paymentStream := id }
  | .operations => { w with offerStream := id }

/-- Closes the stream, if there is one. -/
def close (streams : List Stream) : Option Nat → List Stream
  | some id => streams.modify id fun s => { s with isOpen := false }
  | none => streams

/-- An open stream with a next operation can deliver it. -/
def World.deliver (w : World) (id : Nat) : Option ((Nat × Endpoint × HorizonOperation) × World) :=
  match w.streams[id]? with
  | some s =>
    match s.isOpen, s.next w.ledger with
    | true, some (op, n) =>
      some ((n, s.endpoint, op), { w with streams := w.streams.set id { s with position := n + 1 } })
    | _, _ => none
  | none => none

def answer (c : Outside) (w : World) : (a : Request) → Option (Answer a × World)
  | .apply op => some ((), { w with ledger := w.ledger ++ [op] })
  | .deliver stream => w.deliver stream
  | .latestLedger => some (attempt c.rejects c.sequence w w)
  | .begin => some (w.isMonitoring, { w with isMonitoring := true })
  | .fail => some ((), { w with isMonitoring := false })
  | .startStreams sequence =>
    some ((), (({ w with lastLedgerSequence := sequence }).open .payments).open .operations)
  | .restart endpoint => some ((), if w.isMonitoring then w.open endpoint else w)
  | .stop =>
    some ((), if w.isMonitoring then
      { w with
        streams := close (close w.streams w.paymentStream) w.offerStream
        paymentStream := none
        offerStream := none
        isMonitoring := false }
    else w)
  | .sleep _ => some ((), w)
  | .randomUUID => some (w.uuids, { w with uuids := w.uuids + 1 })
  | .save position event =>
    some (attempt c.rejects () w { w with events := (position, event) :: w.events })
  | .queueEventForDelivery _ => some (attempt c.rejects () w w)

/-! ## Programs -/

abbrev On (α : Type) : Type := Block Request Answer String Unit α

open Block

/-- A request that is not rejected. -/
def ask {α : Type} (a : Request) (f : Answer a → α) : On α := request a fun r => .ok (f r)

def startMonitoring : On Unit := do
  let isMonitoring ← ask .begin fun b : Bool => b
  if isMonitoring then pure ()
  else
    tryCatch (do
        let sequence ← request .latestLedger id
        ask (.startStreams sequence) id)
      fun error => do
        ask .fail id
        throw error

def stopMonitoring : On Unit := ask .stop id

/-- What the handlers have in common: the event is saved and queued, and an error is logged. -/
def process (position : Nat) (eventData : Uuid → StellarEventDto) : On Unit :=
  tryCatch (do
      let id ← ask .randomUUID fun id : Nat => id
      let savedEvent := (eventData id).create
      request (.save position savedEvent) fun r => r
      request (.queueEventForDelivery savedEvent) fun r => r)
    fun _ => pure ()

def handlePaymentEvent (position : Nat) (payment : HorizonOperation) : On Unit :=
  process position fun id =>
    { id
      eventType := .payment
      ledgerSequence := payment.ledger
      timestamp := payment.created_at
      transactionHash := payment.transaction_hash
      sourceAccount := payment.sender
      payload := .payment payment.amount payment.asset_type payment.asset_code
        payment.asset_issuer payment.sender payment.receiver payment.memo payment.memo_type }

/-- `parseFloat(amount) === 0` is `isZero amount`. -/
def determineOfferType (isZero : Option String → Bool) (offer : HorizonOperation) : String :=
  if isZero offer.amount then "delete"
  else if offer.offer_id.any fun id => id ≠ "" then "update"
  else "create"

def handleOfferEvent (isZero : Option String → Bool) (position : Nat) (offer : HorizonOperation) :
    On Unit :=
  process position fun id =>
    { id
      eventType := .offer
      ledgerSequence := offer.ledger
      timestamp := offer.created_at
      transactionHash := offer.transaction_hash
      sourceAccount := some offer.source_account
      payload := .offer offer.offer_id (some offer.source_account) offer.selling_asset_type
        offer.selling_asset_code offer.selling_asset_issuer offer.buying_asset_type
        offer.buying_asset_code offer.buying_asset_issuer offer.amount offer.price
        (determineOfferType isZero offer) }

/-- The `onmessage` of the stream's endpoint. -/
def handle (isZero : Option String → Bool) : Nat × Endpoint × HorizonOperation → On Unit
  | (position, .payments, op) => handlePaymentEvent position op
  | (position, .operations, op) =>
    if op.isManageOffer then handleOfferEvent isZero position op else pure ()

def onmessage (isZero : Option String → Bool) (stream : Nat) : On Unit := do
  let message ← ask (.deliver stream) fun m : Nat × Endpoint × HorizonOperation => m
  handle isZero message

def onerror (endpoint : Endpoint) : On Unit := do
  ask (.sleep 5000) id
  ask (.restart endpoint) id

/-- A call of the service, an event of a stream, or an operation that Horizon applies. -/
inductive Operation
  | startMonitoring
  | stopMonitoring
  | onmessage (stream : Nat)
  | onerror (endpoint : Endpoint)
  | apply (op : HorizonOperation)

def Operation.program (isZero : Option String → Bool) :
    Operation → Async Request Answer (Except String Unit)
  | .startMonitoring => Block.program Monitor.startMonitoring
  | .stopMonitoring => Block.program Monitor.stopMonitoring
  | .onmessage stream => (Monitor.onmessage isZero stream).program
  | .onerror endpoint => (Monitor.onerror endpoint).program
  | .apply op => (ask (.apply op) id : On Unit).program

/-- Nothing has been streamed or saved. -/
def Initial (w : World) : Prop := w.streams = [] ∧ w.events = []

abbrev machine (isZero : Option String → Bool) :=
  Async.interleave (Operation.program isZero) (fun _ => True) answer Initial

abbrev System : Type := Async.System Request Answer (Except String Unit) World

abbrev Trace : Type := List (Event Outside (Async.Move Operation) Unit System)

end Stellara.Monitor
