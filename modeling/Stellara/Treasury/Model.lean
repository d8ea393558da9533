import Stellara.Lib.Outcome
import Stellara.Lib.Reentrancy

/-!
# Multisig treasury (`contracts/MultisigTreasury.sol`)

Owners submit transactions and confirm them; anyone can execute a transaction that has enough
confirmations.  Execution calls the account `to`: an outside account can then send messages of its
own, and a call of the treasury itself runs the function that `data` selects.

    updateLimits, emergencyFreeze, unfreezeInternal     `required` confirmations, only by a self-call
    value > threshold                                   `required` confirmations
    value ≤ threshold                                   one confirmation

`data` is read as the compiler's dispatcher reads it: four bytes of selector, words of 32 bytes.
Self-calls nest at most `depth` deep, which stands for the limit of the call stack.  What functions
return is left out, and so are gas (who runs out of it reverts and leaves no trace) and ether that
comes without a message.
-/

namespace Stellara.MultisigTreasury

open Outcome

abbrev Address : Type := Nat

abbrev Bytes : Type := List (Fin 256)

/-- `panic` is a failed check of the compiler's, and `empty` a revert without a reason. -/
inductive Revert
  | error (reason : String)
  | panic
  | empty
  deriving DecidableEq

inductive TreasuryEvent
  | deposit (sender : Address) (amount balance : Nat)
  | submitTransaction (owner : Address) (txIndex : Nat) (dest : Address) (value : Nat) (data : Bytes)
  | confirmTransaction (owner : Address) (txIndex : Nat)
  | revokeConfirmation (owner : Address) (txIndex : Nat)
  | executeTransaction (owner : Address) (txIndex : Nat)
  | limitsUpdated (dailyLimit weeklyLimit threshold : Nat)
  | emergencyFrozen (caller : Address)
  | emergencyUnfrozen (caller : Address)
  deriving DecidableEq

structure Transaction where
  /-- `to`, which is a keyword here -/
  dest : Address
  value : Nat
  data : Bytes
  executed : Bool
  numConfirmations : Nat
  created : Nat
  deriving DecidableEq

/-- The storage, with the balance and the log of the account. -/
structure Treasury where
  owners : List Address
  isOwner : Address → Bool
  required : Nat
  dailyLimit : Nat
  weeklyLimit : Nat
  threshold : Nat
  frozen : Bool := false
  transactions : List Transaction := []
  isConfirmed : Nat → Address → Bool := fun _ _ => false
  dayWindowStart : Nat
  daySpent : Nat := 0
  weekWindowStart : Nat
  weekSpent : Nat := 0
  balance : Nat
  events : List TreasuryEvent := []

def Treasury.emit (s : Treasury) (e : TreasuryEvent) : Treasury := { s with events := s.events ++ [e] }

/-! ## Arithmetic -/

/-- The sum of two `uint`s, which must be a `uint`. -/
def checkedAdd (a b : Nat) : Except Revert Nat := if a + b < 2 ^ 256 then .ok (a + b) else .error .panic

def checkedSub (a b : Nat) : Except Revert Nat := if b ≤ a then .ok (a - b) else .error .panic

/-- `1 days` and `1 weeks` -/
def day : Nat := 86400

def week : Nat := 604800

/-! ## Construction -/

/-- The arguments of the constructor, the block of the deployment, and what the account owned
before it. -/
structure Deployment where
  owners : List Address
  required : Nat
  dailyLimit : Nat
  weeklyLimit : Nat
  threshold : Nat
  timestamp : Nat
  endowment : Nat

/-- The loop of the constructor: `owners` with the owners so far. -/
def addOwners : List Address → List Address → Except Revert (List Address)
  | owners, [] => .ok owners
  | owners, o :: rest => do
    require (o ≠ 0) (.error "invalid owner")
    require (o ∉ owners) (.error "owner not unique")
    addOwners (owners ++ [o]) rest

def construct (d : Deployment) : Except Revert Treasury := do
  require (0 < d.owners.length) (.error "owners required")
  require (0 < d.required ∧ d.required ≤ d.owners.length) (.error "invalid required")
  let owners ← addOwners [] d.owners
  pure
    { owners, isOwner := fun a => a ∈ owners, required := d.required
      dailyLimit := d.dailyLimit, weeklyLimit := d.weeklyLimit, threshold := d.threshold
      dayWindowStart := d.timestamp / day, weekWindowStart := d.timestamp / week
      balance := d.endowment }

/-! ## Calldata -/

/-- A number with its most significant byte first. -/
def bigEndian (bytes : Bytes) : Nat := bytes.foldl (fun n b => n * 256 + b) 0

/-- `bytes4(data)` -/
def bytes4 (data : Bytes) : Nat := bigEndian (data.take 4)

def word (args : Bytes) (i : Nat) : Nat := bigEndian ((args.drop (32 * i)).take 32)

inductive Call
  | submitTransaction (dest : Address) (value : Nat) (data : Bytes)
  | confirmTransaction (txIndex : Nat)
  | revokeConfirmation (txIndex : Nat)
  | executeTransaction (txIndex : Nat)
  | updateLimits (dailyLimit weeklyLimit threshold : Nat)
  | emergencyFreeze
  | unfreezeInternal
  /-- `owners(uint)` -/
  | owner (i : Nat)
  /-- `transactions(uint)` and `getTransaction(uint)` -/
  | transaction (txIndex : Nat)
  /-- the getters that cannot fail -/
  | view

def updateLimitsSelector : Nat := 0x36a0f8a5

def emergencyFreezeSelector : Nat := 0xf3d4b942

def unfreezeInternalSelector : Nat := 0xcb7daa50

/-- The getters without arguments, from `getOwners` to `weekSpent`. -/
def plainGetters : List Nat :=
  [0xa0e67e2b, 0x2e7700f0, 0xdc8452cd, 0x67eeba0c, 0x861a68d6, 0x42cde4e8, 0x054f7d9c, 0xc28b8c1c,
    0x8845fcc1, 0x35a4d4da, 0x0a7d29e8]

/-- `bytes calldata`, where the word `i` says where it begins. -/
def bytesArgument (args : Bytes) (i : Nat) : Except Revert Bytes := do
  let offset := word args i
  require (offset < 2 ^ 64 ∧ offset + 31 < args.length) .empty
  let length := bigEndian ((args.drop offset).take 32)
  require (length < 2 ^ 64 ∧ offset + 32 + length ≤ args.length) .empty
  pure ((args.drop (offset + 32)).take length)

/-- There must be `n` words. -/
def words (n : Nat) (args : Bytes) : Except Revert Unit := require (32 * n ≤ args.length) .empty

def addressArgument (args : Bytes) (i : Nat) : Except Revert Address := do
  require (word args i < 2 ^ 160) .empty
  pure (word args i)

/-- The selectors of the functions, and how their arguments are read. -/
def functions : List (Nat × (Bytes → Except Revert Call)) :=
  [(0xc6427474, fun args => do
      words 3 args
      pure (.submitTransaction (← addressArgument args 0) (word args 1) (← bytesArgument args 2))),
    (0xc01a8c84, fun args => do words 1 args; pure (.confirmTransaction (word args 0))),
    (0x20ea8d86, fun args => do words 1 args; pure (.revokeConfirmation (word args 0))),
    (0xee22610b, fun args => do words 1 args; pure (.executeTransaction (word args 0))),
    (updateLimitsSelector, fun args => do
      words 3 args
      pure (.updateLimits (word args 0) (word args 1) (word args 2))),
    (emergencyFreezeSelector, fun _ => pure .emergencyFreeze),
    (unfreezeInternalSelector, fun _ => pure .unfreezeInternal),
    (0x025e7c27, fun args => do words 1 args; pure (.owner (word args 0))),
    (0x9ace38c2, fun args => do words 1 args; pure (.transaction (word args 0))),
    (0x33ea3dc8, fun args => do words 1 args; pure (.transaction (word args 0))),
    (0x2f54bf6e, fun args => do words 1 args; let _ ← addressArgument args 0; pure .view),
    (0x80f59a65, fun args => do words 2 args; let _ ← addressArgument args 1; pure .view)] ++
  plainGetters.map fun selector => (selector, fun _ => pure .view)

/-- The function that is called, and its arguments. -/
def decode (data : Bytes) : Except Revert Call := do
  require (4 ≤ data.length) .empty
  let function ← ofOption (functions.lookup (bytes4 data)) .empty
  function (data.drop 4)

/-! ## Functions -/

def onlyOwner (s : Treasury) (sender : Address) : Except Revert Unit :=
  require (s.isOwner sender = true) (.error "not owner")

def notFrozen (s : Treasury) : Except Revert Unit := require (s.frozen = false) (.error "frozen")

def submitTransaction (timestamp : Nat) (sender dest : Address) (value : Nat) (data : Bytes)
    (s : Treasury) : Except Revert Treasury := do
  onlyOwner s sender
  let txn : Transaction :=
    { dest, value, data, executed := false, numConfirmations := 0, created := timestamp }
  pure ({ s with transactions := s.transactions ++ [txn] }.emit
    (.submitTransaction sender s.transactions.length dest value data))

def setConfirmed (s : Treasury) (txIndex : Nat) (owner : Address) (confirmed : Bool) :
    Nat → Address → Bool :=
  fun i a => if i = txIndex ∧ a = owner then confirmed else s.isConfirmed i a

def confirmTransaction (sender : Address) (txIndex : Nat) (s : Treasury) :
    Except Revert Treasury := do
  onlyOwner s sender
  notFrozen s
  let txn ← ofOption s.transactions[txIndex]? (.error "tx does not exist")
  require (txn.executed = false) (.error "already executed")
  require (s.isConfirmed txIndex sender = false) (.error "already confirmed")
  let numConfirmations ← checkedAdd txn.numConfirmations 1
  pure ({ s with
    isConfirmed := setConfirmed s txIndex sender true
    transactions := s.transactions.set txIndex { txn with numConfirmations } }.emit
      (.confirmTransaction sender txIndex))

def revokeConfirmation (sender : Address) (txIndex : Nat) (s : Treasury) :
    Except Revert Treasury := do
  onlyOwner s sender
  notFrozen s
  let txn ← ofOption s.transactions[txIndex]? (.error "tx does not exist")
  require (txn.executed = false) (.error "already executed")
  require (s.isConfirmed txIndex sender = true) (.error "not confirmed")
  let numConfirmations ← checkedSub txn.numConfirmations 1
  pure ({ s with
    isConfirmed := setConfirmed s txIndex sender false
    transactions := s.transactions.set txIndex { txn with numConfirmations } }.emit
      (.revokeConfirmation sender txIndex))

/-- `_isSelfCall` -/
def isSelfCall (this : Address) (txn : Transaction) (selector : Nat) : Bool :=
  txn.dest = this ∧ 4 ≤ txn.data.length ∧ bytes4 txn.data = selector

def isSensitive (this : Address) (txn : Transaction) : Bool :=
  isSelfCall this txn unfreezeInternalSelector || isSelfCall this txn updateLimitsSelector ||
    isSelfCall this txn emergencyFreezeSelector

/-- The requirements on the confirmations. -/
def checkConfirmations (this : Address) (s : Treasury) (txn : Transaction) :
    Except Revert Unit := do
  require (s.frozen = false ∨ isSelfCall this txn unfreezeInternalSelector = true) (.error "frozen")
  if isSensitive this txn then
    require (s.required ≤ txn.numConfirmations)
      (.error "insufficient confirmations for sensitive action")
  else if s.threshold < txn.value then
    require (s.required ≤ txn.numConfirmations) (.error "insufficient confirmations for large tx")
  else require (1 ≤ txn.numConfirmations) (.error "requires at least one confirmation")

/-- What has been spent in the window of length `unit` that `timestamp` is in. -/
def spentNow (unit timestamp windowStart spent : Nat) : Nat :=
  if windowStart ≠ timestamp / unit then 0 else spent

/-- A limit of zero is none. -/
def checkLimit (limit spent value : Nat) (reason : String) : Except Revert Unit :=
  if 0 < limit then do
    let total ← checkedAdd spent value
    require (total ≤ limit) (.error reason)
  else pure ()

/-- `executeTransaction` up to its call. -/
def beginExecution (this : Address) (timestamp txIndex : Nat) (s : Treasury) :
    Except Revert (Transaction × Treasury) := do
  let txn ← ofOption s.transactions[txIndex]? (.error "tx does not exist")
  require (txn.executed = false) (.error "already executed")
  checkConfirmations this s txn
  let daySpent := spentNow day timestamp s.dayWindowStart s.daySpent
  let weekSpent := spentNow week timestamp s.weekWindowStart s.weekSpent
  checkLimit s.dailyLimit daySpent txn.value "exceeds daily limit"
  checkLimit s.weeklyLimit weekSpent txn.value "exceeds weekly limit"
  let daySpent ← checkedAdd daySpent txn.value
  let weekSpent ← checkedAdd weekSpent txn.value
  pure (txn, { s with
    transactions := s.transactions.set txIndex { txn with executed := true }
    dayWindowStart := timestamp / day, daySpent
    weekWindowStart := timestamp / week, weekSpent })

/-- The three functions that only a self-call can run. -/
inductive Operation
  | updateLimits (dailyLimit weeklyLimit threshold : Nat)
  | emergencyFreeze
  | unfreezeInternal

def Operation.apply (this : Address) (s : Treasury) : Operation → Treasury
  | updateLimits dailyLimit weeklyLimit threshold =>
    { s with dailyLimit, weeklyLimit, threshold }.emit
      (.limitsUpdated dailyLimit weeklyLimit threshold)
  | emergencyFreeze => { s with frozen := true }.emit (.emergencyFrozen this)
  | unfreezeInternal => { s with frozen := false }.emit (.emergencyUnfrozen this)

def onlySelf (this : Address) (sender : Address) (s : Treasury) (op : Operation) :
    Except Revert Treasury := do
  require (sender = this) (.error "only self")
  pure (op.apply this s)

/-! ## Messages -/

abbrev Code : Type := Reentrancy.Code Address Revert Treasury

section Messages

variable (this : Address) (timestamp : Nat)

/-- `self value data` is the code of a call of the treasury by itself. -/
def executeTransaction (self : Nat → Bytes → Treasury → Code) (sender : Address) (txIndex : Nat)
    (s : Treasury) : Code :=
  match beginExecution this timestamp txIndex s with
  | .error e => .revert e
  | .ok (txn, s) =>
    if s.balance < txn.value then .revert (.error "tx failed")
    else if txn.dest = this then
      (self txn.value txn.data s).andThen (.error "tx failed") fun s =>
        .stop (s.emit (.executeTransaction sender txIndex))
    else
      .call txn.dest { s with balance := s.balance - txn.value } fun success s =>
        if success then .stop (s.emit (.executeTransaction sender txIndex))
        else .revert (.error "tx failed")

/-- The functions; none of them is payable. -/
def runFunction (self : Nat → Bytes → Treasury → Code) (sender : Address) (s : Treasury) :
    Call → Code
  | .submitTransaction dest value data =>
    .ofExcept (submitTransaction timestamp sender dest value data s)
  | .confirmTransaction txIndex => .ofExcept (confirmTransaction sender txIndex s)
  | .revokeConfirmation txIndex => .ofExcept (revokeConfirmation sender txIndex s)
  | .executeTransaction txIndex => executeTransaction this timestamp self sender txIndex s
  | .updateLimits dailyLimit weeklyLimit threshold =>
    .ofExcept (onlySelf this sender s (.updateLimits dailyLimit weeklyLimit threshold))
  | .emergencyFreeze => .ofExcept (onlySelf this sender s .emergencyFreeze)
  | .unfreezeInternal => .ofExcept (onlySelf this sender s .unfreezeInternal)
  | .owner i => if i < s.owners.length then .stop s else .revert .empty
  | .transaction txIndex => if txIndex < s.transactions.length then .stop s else .revert .panic
  | .view => .stop s

/-- The balance with the value of a message; what the treasury sends itself, it already has. -/
def credit (sender : Address) (value : Nat) (s : Treasury) : Treasury :=
  if sender = this then s else { s with balance := s.balance + value }

/-- A message with no data is a deposit, and no other message may have a value. -/
def perform (self : Nat → Bytes → Treasury → Code) (sender : Address) (value : Nat) (data : Bytes)
    (s : Treasury) : Code :=
  if data = [] then
    let s := credit this sender value s
    .stop (s.emit (.deposit sender value s.balance))
  else if value = 0 then
    match decode data with
    | .ok call => runFunction this timestamp self sender s call
    | .error e => .revert e
  else .revert .empty

def handle : Nat → Address → Nat → Bytes → Treasury → Code
  | 0, _, _, _, _ => .revert .empty
  | depth + 1, sender, value, data, s =>
    perform this timestamp (handle depth this) sender value data s

end Messages

/-- A message of an account that is not the treasury. -/
structure Message (this : Address) where
  sender : Address
  value : Nat
  data : Bytes
  outside : sender ≠ this

/-- A message, and what accounts do meanwhile. -/
abbrev Sent (this : Address) : Type := Message this × Reentrancy.Script (Message this)

/-- The transactions of the chain that reach the treasury at `this`, from the storages in `init`;
an environment is a timestamp. -/
def treasury (this : Address) (depth : Nat) (init : Treasury → Prop) :
    Machine Nat (Sent this) Unit Revert Treasury :=
  Reentrancy.transactions init (fun timestamp => timestamp) fun timestamp m =>
    handle this timestamp depth m.sender m.value m.data

/-- The treasury that `d` deploys. -/
def deployed (this : Address) (depth : Nat) (d : Deployment) :
    Machine Nat (Sent this) Unit Revert Treasury :=
  treasury this depth fun s => construct d = .ok s

abbrev Trace (this : Address) : Type := List (Event Nat (Sent this) Unit Treasury)

end Stellara.MultisigTreasury
