import Stellara.Lib.JavaScript
import Stellara.Lib.Protocol

/-!
# The audit log

`AuditService`.  Every entry has the hash of the entry before it, a hash of its own and a signature;
`verifyAuditChain` walks the entries of both tables by timestamp and id and computes all three again.

    hash        sha256   previousHash, action_type, actor_id and timestamp, one behind the other
    signature   hmac     JSON of all fields but the id, with the keys of the metadata sorted

What is not in the source is a parameter (`Platform`): how numbers are written and read, what a
`jsonb` column makes of a value, the digests.  An id is a `uuid` as a number, so that `localeCompare`
compares numbers.  The reads of `verifyAuditChain` see the same tables: nothing else runs then.
-/

namespace Stellara.AuditService

open Async (attempt)
open Block

variable {Number Numeral Metadata : Type}

/-! ## Entries -/

/-- A time that a `Date` can hold. -/
structure Instant where
  ms : Int
  valid : -8640000000000000 ≤ ms ∧ ms ≤ 8640000000000000
  deriving DecidableEq

/-- `parse` reads a numeral of a `jsonb` column and `jsonb` stores a value there, unless it is
rejected; `hmac` has the key. -/
structure Platform (Number Numeral : Type) where
  format : NumberFormat Number
  parse : Numeral → Option Number
  jsonb : Json Number → Option (Json Numeral)
  sha256 : String → String
  hmac : String → String
  ninetyDaysBefore : Instant → Instant

/-- What is signed of an entry, and the signature.  A `timestamp` may be an invalid `Date`. -/
structure AuditContent (Metadata : Type) where
  action_type : String
  actor_id : String
  entity_id : Option String
  metadata : Metadata
  timestamp : Option Instant
  previousHash : String
  hash : String
  signature : String

structure AuditLogEntry (Metadata : Type) extends AuditContent Metadata where
  id : Nat

/-- An entry as a program has it. -/
abbrev Entry (Number : Type) : Type := AuditLogEntry (JsValue Number)

/-- An entry as it is stored, its `metadata` perhaps `NULL`. -/
abbrev Row (Numeral : Type) : Type := AuditLogEntry (Option (Json Numeral))

inductive Error
  | rangeError (message : String)
  | rejected (message : String)
  deriving DecidableEq

/-! ## Hashes and signatures -/

/-- `value ?? null` -/
def orNull : JsValue Number → JsValue Number
  | .undefined => .null
  | value => value

mutual

/-- A `Date` has no keys. -/
def sortObject : JsValue Number → JsValue Number
  | .array items => .array (sortItems items)
  | .object members =>
    .object (collect (fun key => (sortMembers members).lookup key) (sortedKeys members))
  | .date _ => .object []
  | value => value

def sortItems : List (JsValue Number) → List (JsValue Number)
  | [] => []
  | item :: rest => sortObject item :: sortItems rest

def sortMembers : List (String × JsValue Number) → List (String × JsValue Number)
  | [] => []
  | (key, value) :: rest => (key, sortObject value) :: sortMembers rest

end

/-- `toISOString` -/
def formatTimestamp : Option Instant → Except Error String
  | some timestamp => .ok (isoString timestamp.ms)
  | none => .error (.rangeError "Invalid time value")

/-- The metadata as it is signed. -/
def signedMetadata (metadata : JsValue Number) : Json Number := (sortObject (orNull metadata)).toJson

/-- What is hashed of an entry. -/
def hashedText (entry : AuditContent Metadata) : Except Error String := do
  let timestamp ← formatTimestamp entry.timestamp
  pure (entry.previousHash ++ entry.action_type ++ entry.actor_id ++ timestamp)

def signedObject (entry : AuditContent (Json Number)) (timestamp : String) : Json Number :=
  .object
    [("action_type", .string entry.action_type), ("actor_id", .string entry.actor_id),
      ("entity_id", entry.entity_id.elim .null .string), ("metadata", entry.metadata),
      ("timestamp", .string timestamp), ("previousHash", .string entry.previousHash),
      ("hash", .string entry.hash)]

/-- What is signed of an entry. -/
def signedText (format : NumberFormat Number) (entry : AuditContent (Json Number)) :
    Except Error String := do
  let timestamp ← formatTimestamp entry.timestamp
  pure (String.ofList ((signedObject entry timestamp).text format))

/-- The entry with its metadata as it is signed. -/
def AuditContent.signed (entry : AuditContent (JsValue Number)) : AuditContent (Json Number) :=
  { entry with metadata := signedMetadata entry.metadata }

section Platform

variable (P : Platform Number Numeral)

def computeHash (entry : AuditContent Metadata) : Except Error String := do
  pure (P.sha256 (← hashedText entry))

def computeSignature (entry : AuditContent (JsValue Number)) : Except Error String := do
  pure (P.hmac (← signedText P.format entry.signed))

/-! ## Order -/

/-- `a.localeCompare(b)` of two ids. -/
def localeCompare (a b : Nat) : Int := if a < b then -1 else if a = b then 0 else 1

/-- Of an invalid `Date` the difference is `NaN`. -/
def compareEntries (a b : AuditLogEntry Metadata) : Option Int :=
  match a.timestamp, b.timestamp with
  | some s, some t => some (if s.ms - t.ms ≠ 0 then s.ms - t.ms else localeCompare a.id b.id)
  | _, _ => none

/-- A sort takes `NaN` for zero. -/
def Ordered (a b : AuditLogEntry Metadata) : Prop := (compareEntries a b).getD 0 ≤ 0

instance : DecidableRel (Ordered : AuditLogEntry Metadata → AuditLogEntry Metadata → Prop) :=
  fun a b => inferInstanceAs (Decidable ((compareEntries a b).getD 0 ≤ 0))

/-! ## Tables -/

/-- `audit_logs` and `audit_log_archives`. -/
structure Tables (Numeral : Type) where
  logs : List (Row Numeral)
  archives : List (Row Numeral)

def Row.read (row : Row Numeral) : Entry Number :=
  { row with metadata := row.metadata.elim .null (JsValue.ofJson P.parse) }

/-- What a `jsonb` column stores of a value, unless it rejects it. -/
def stored : JsValue Number → Option (Option (Json Numeral))
  | .undefined | .null => some none
  | metadata => (P.jsonb metadata.toJson).map some

def Row.write (id : Nat) (content : AuditContent (JsValue Number)) : Option (Row Numeral) :=
  (stored P content.metadata).map fun metadata => { content with metadata, id }

/-- `find({ order: { timestamp: 'ASC', id: 'ASC' } })` -/
def find (rows : List (Row Numeral)) : List (Entry Number) :=
  (rows.insertionSort Ordered).map (Row.read P)

/-- `findOne({ order: { timestamp: 'DESC', id: 'DESC' } })` -/
def findLatest (rows : List (Row Numeral)) : Option (Entry Number) := (find P rows).getLast?

/-! ## Verification -/

structure Failure where
  id : Nat
  reason : String
  deriving DecidableEq

structure AuditVerificationResult where
  valid : Bool
  checkedEntries : Nat
  failures : List Failure
  deriving DecidableEq

def getOrderedEntries (tables : Tables Numeral) : List (Entry Number) :=
  (find P tables.archives ++ find P tables.logs).insertionSort Ordered

/-- The body of the loop of `verifyAuditChain`. -/
def checkEntry (previousHash : String) (entry : Entry Number) : Except Error (List Failure) := do
  let expectedHash ← computeHash P { entry.toAuditContent with previousHash }
  let expectedSignature ←
    computeSignature P { entry.toAuditContent with previousHash, hash := expectedHash }
  pure <|
    (if entry.previousHash ≠ previousHash then
      [⟨entry.id, "previousHash does not match previous entry hash"⟩] else []) ++
    (if entry.hash ≠ expectedHash then [⟨entry.id, "hash does not match entry contents"⟩] else []) ++
    if entry.signature ≠ expectedSignature then
      [⟨entry.id, "signature does not match entry contents"⟩] else []

def checkEntries (previousHash : String) : List (Entry Number) → Except Error (List Failure)
  | [] => pure []
  | entry :: rest => do
    let failures ← checkEntry P previousHash entry
    pure (failures ++ (← checkEntries entry.hash rest))

def verifyAuditChain (tables : Tables Numeral) : Except Error AuditVerificationResult := do
  let entries := getOrderedEntries P tables
  let failures ← checkEntries P "" entries
  pure { valid := failures.length = 0, checkedEntries := entries.length, failures }

end Platform

/-! ## Programs -/

inductive AuditRequest (Number : Type)
  | now
  | logsFirst
  | findLatestLog
  | findLatestArchive
  | saveLog (log : AuditContent (JsValue Number))
  | findOldLogs (cutoff : Instant)
  | saveArchives (archives : List (Entry Number))
  | deleteLogs (ids : List Nat)

abbrev AuditAnswer : AuditRequest Number → Type
  | .now => Instant
  | .logsFirst => Bool
  | .findLatestLog | .findLatestArchive => Except Error (Option (Entry Number))
  | .saveLog _ => Except Error (Entry Number)
  | .findOldLogs _ => Except Error (List (Entry Number))
  | .saveArchives _ | .deleteLogs _ => Except Error Unit

/-- `id` is the id that the table gives to a new row, and `rejects` what the database rejects with. -/
structure Outside where
  now : Instant
  logsFirst : Bool
  id : Nat
  rejects : Option String
  deriving DecidableEq

def Outside.rejection (c : Outside) : Option Error := c.rejects.map Error.rejected

section Answers

variable (P : Platform Number Numeral)

/-- The rows with new ids are inserted, the others updated. -/
def upsert (rows new : List (Row Numeral)) : List (Row Numeral) :=
  rows.filter (fun row => row.id ∉ new.map AuditLogEntry.id) ++ new

/-- The tables after `request`, and its answer. -/
def answer (c : Outside) (w : Tables Numeral) :
    (a : AuditRequest Number) → Option (AuditAnswer a × Tables Numeral)
  | .now => some (c.now, w)
  | .logsFirst => some (c.logsFirst, w)
  | .findLatestLog => some (attempt c.rejection (findLatest P w.logs) w w)
  | .findLatestArchive => some (attempt c.rejection (findLatest P w.archives) w w)
  | .saveLog log =>
    match Row.write P c.id log with
    | none => some (.error (.rejected "unsupported value of metadata"), w)
    | some row =>
      if c.id ∈ w.logs.map AuditLogEntry.id then
        some (.error (.rejected "duplicate key value violates unique constraint"), w)
      else
        some (attempt c.rejection { log with id := c.id } w { w with logs := w.logs ++ [row] })
  | .findOldLogs cutoff =>
    some (attempt c.rejection
      (find P (w.logs.filter fun row => row.timestamp.any (·.ms < cutoff.ms))) w w)
  | .saveArchives archives =>
    match archives.mapM fun entry => Row.write P entry.id entry.toAuditContent with
    | none => some (.error (.rejected "unsupported value of metadata"), w)
    | some rows => some (attempt c.rejection () w { w with archives := upsert w.archives rows })
  | .deleteLogs ids =>
    some (attempt c.rejection () w { w with logs := w.logs.filter fun row => row.id ∉ ids })

abbrev Auditing (Number : Type) (α : Type) : Type :=
  Block (AuditRequest Number) AuditAnswer Error Unit α

/-- What a computation returns or throws. -/
def ofExcept {α : Type} : Except Error α → Auditing Number α
  | .ok a => pure a
  | .error e => throw e

/-- The later one of the two. -/
def later : Option (Entry Number) → Option (Entry Number) → Option (Entry Number)
  | none, latestArchive => latestArchive
  | latestLog, none => latestLog
  | some latestLog, some latestArchive =>
    some (if (compareEntries latestLog latestArchive).any (0 ≤ ·) then latestLog else latestArchive)

/-- Both reads of `Promise.all` are sent at once, and answered in some order. -/
def getLatestEntry : Auditing Number (Option (Entry Number)) := do
  let logsFirst ← request .logsFirst .ok
  if logsFirst then do
    let latestLog ← request .findLatestLog fun r => r
    let latestArchive ← request .findLatestArchive fun r => r
    pure (later latestLog latestArchive)
  else do
    let latestArchive ← request .findLatestArchive fun r => r
    let latestLog ← request .findLatestLog fun r => r
    pure (later latestLog latestArchive)

def logAction (action_type actor_id : String) (entity_id : Option String)
    (metadata : JsValue Number) : Auditing Number (Entry Number) := do
  let timestamp ← request .now .ok
  let previousEntry ← getLatestEntry
  let previousHash := previousEntry.elim "" fun entry => entry.hash
  let log : AuditContent (JsValue Number) :=
    { action_type, actor_id, entity_id, metadata, timestamp := some timestamp, previousHash
      hash := "", signature := "" }
  let hash ← ofExcept (computeHash P log)
  let signature ← ofExcept (computeSignature P { log with hash })
  request (.saveLog { log with hash, signature }) fun r => r

/-- `create` copies all fields of the logs. -/
def archiveOldLogs : Auditing Number Nat := do
  let now ← request .now .ok
  let oldLogs ← request (.findOldLogs (P.ninetyDaysBefore now)) fun r => r
  if oldLogs.length = 0 then pure 0
  else do
    request (.saveArchives oldLogs) fun r => r
    request (.deleteLogs (oldLogs.map AuditLogEntry.id)) fun r => r
    pure oldLogs.length

/-! ## The calls together -/

inductive Call (Number : Type)
  | logAction (action_type actor_id : String) (entity_id : Option String)
      (metadata : JsValue Number)
  | archiveOldLogs

/-- What a call returns. -/
inductive Returned (Number : Type)
  | log (entry : Entry Number)
  | count (archived : Nat)

def Call.program : Call Number → Auditing Number (Returned Number)
  | .logAction action_type actor_id entity_id metadata => do
    pure (.log (← AuditService.logAction P action_type actor_id entity_id metadata))
  | .archiveOldLogs => do pure (.count (← AuditService.archiveOldLogs P))

abbrev AuditSystem (Number Numeral : Type) : Type :=
  Async.System (AuditRequest Number) AuditAnswer (Except Error (Returned Number)) (Tables Numeral)

abbrev AuditEvent (Number Numeral : Type) : Type :=
  Event Outside (Async.Move (Call Number)) Unit (AuditSystem Number Numeral)

/-- All interleavings of calls, from empty tables. -/
def auditing : Machine Outside (Async.Move (Call Number)) Unit Unit (AuditSystem Number Numeral) :=
  Async.interleave (fun op => (op.program P).program) (fun _ => True) (answer P)
    (fun w => w = ⟨[], []⟩)

end Answers

end Stellara.AuditService
