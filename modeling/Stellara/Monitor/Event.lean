/-!
# Stellar events

The rows of `stellar_events`.
-/

namespace Stellara.Monitor

/-- A random UUID; no two are equal. -/
abbrev Uuid : Type := Nat

inductive EventType
  | payment
  | offer
  deriving DecidableEq

inductive DeliveryStatus
  | pending
  | delivered
  | failed
  deriving DecidableEq

/-- The `payload` of an event; a field that Horizon leaves out is `none`. -/
inductive Payload
  | payment (amount assetType assetCode assetIssuer sender receiver memo memoType : Option String)
  | offer (offerId seller sellingAssetType sellingAssetCode sellingAssetIssuer buyingAssetType
      buyingAssetCode buyingAssetIssuer amount price : Option String) (type : String)
  deriving DecidableEq

/-- What is saved of an operation. -/
structure StellarEventDto where
  id : Uuid
  eventType : EventType
  ledgerSequence : Int
  timestamp : Int
  transactionHash : String
  sourceAccount : Option String
  payload : Payload
  deriving DecidableEq

structure StellarEvent extends StellarEventDto where
  deliveryStatus : DeliveryStatus
  deliveryAttempts : Nat
  lastAttemptAt : Option Int
  deliveredAt : Option Int
  deliveredTo : Option (List Uuid)
  failedDeliveries : Option (List Uuid)
  errorMessage : Option String
  isProcessed : Bool
  deriving DecidableEq

/-- `EventStorageService.saveEvent`, up to the repository. -/
def StellarEventDto.create (eventData : StellarEventDto) : StellarEvent :=
  { eventData with
    deliveryStatus := .pending
    deliveryAttempts := 0
    lastAttemptAt := none
    deliveredAt := none
    deliveredTo := none
    failedDeliveries := none
    errorMessage := none
    isProcessed := false }

end Stellara.Monitor
