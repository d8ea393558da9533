import Stellara.Lib.Protocol
import Stellara.Lib.Store

/-!
# The queue service

The dead-letter part of `QueueService`: a job that failed for the last time is pushed to the
list of its queue in Redis (`handleJobFailure`), and `requeueFromDLQ` adds the jobs at the head
of a list to the queue again and trims the list.  Each Redis command and each `queue.add` is one
request; between two requests of one call any other may run.

`JSON.parse` and `JSON.stringify` of a list item are parameters (`Codec`).  An item has a `tag`,
which is no field of the source: it tells apart pushes of the same text.
-/

namespace Stellara.JobQueue

/-- An item of a dead-letter list. -/
structure DlqItem where
  tag : Nat
  text : String
  deriving DecidableEq

/-- The fields that `requeueFromDLQ` reads of a parsed item. -/
structure JobData where
  name : String
  data : String
  maxAttempts : Option Nat

/-- A job that failed, as Bull hands it over. -/
structure FailedJob where
  id : Nat
  name : String
  data : String
  /-- `opts.attempts` -/
  attempts : Option Nat
  attemptsMade : Nat
  /-- `queue.name` -/
  queue : String

/-- The object that `handleJobFailure` writes. -/
structure DlqRecord where
  id : Nat
  name : String
  data : String
  error : String
  attempts : Nat
  maxAttempts : Nat
  failedAt : Int

/-- `JSON.stringify` of a record, and `JSON.parse` with the reads of the result's fields. -/
structure Codec where
  stringify : DlqRecord → String
  parse : String → Except String JobData

/-- A job in a Bull queue; the tag is that of the item it was made from. -/
structure Job where
  id : Nat
  queue : String
  name : String
  data : String
  attempts : Nat
  tag : Nat
  deriving DecidableEq

/-! ## Redis lists -/

/-- Negative positions count from the end. -/
def position (i : Int) (length : Nat) : Int := if i < 0 then i + length else i

/-- The elements from `start` to `stop`, both included. -/
def range {α : Type} (start stop : Int) (l : List α) : List α :=
  let first := max 0 (position start l.length)
  (l.drop first.toNat).take (position stop l.length + 1 - first).toNat

/-- Trimming to `n .. -1` drops the first `n`. -/
theorem range_to_end {α : Type} (n : Nat) (l : List α) : range n (-1) l = l.drop n := by
  have hfirst : max 0 (position (n : Int) l.length) = n := by
    unfold position
    rw [if_neg (by omega)]
    omega
  have hlast : position (-1) l.length + 1 = l.length := by
    unfold position
    rw [if_pos (by omega)]
    omega
  unfold range
  dsimp only
  rw [hfirst, hlast, Int.toNat_natCast]
  refine List.take_of_length_le ?_
  rw [List.length_drop]
  omega

/-! ## Requests and their answers -/

inductive Request
  | lRange (key : String) (start stop : Int)
  | lTrim (key : String) (start stop : Int)
  | rPush (key text : String)
  /-- `queue.add` for the item -/
  | add (queue name data : String) (attempts : Nat) (item : DlqItem)
  | now

def Answer : Request → Type
  | .lRange _ _ _ => Except String (List DlqItem)
  | .lTrim _ _ _ | .rPush _ _ => Except String Unit
  | .add _ _ _ _ _ => Except String Nat
  | .now => Int

/-- The lists and the queues.  `ever` is everything that ever was in a list. -/
structure World where
  lists : Store String (List DlqItem)
  jobs : List Job
  ever : List (String × DlqItem)
  tags : Nat

/-- The circumstances of an answer. -/
structure Outside where
  now : Int
  rejects : Option String

def World.list (w : World) (key : String) : List DlqItem := (w.lists.lookup key).getD []

def World.setList (w : World) (key : String) (l : List DlqItem) : World :=
  { w with lists := w.lists.insert key l }

theorem World.list_setList (w : World) (key : String) (l : List DlqItem) (k : String) :
    (w.setList key l).list k = if k = key then l else w.list k := by
  unfold list setList
  rw [Store.lookup_insert_eq]
  split <;> rfl

/-- The item was made a job. -/
def World.Added (w : World) (item : DlqItem) : Bool := w.jobs.any fun job => job.tag = item.tag

/-- Redis and Bull answer, or they reject. -/
def answer (c : Outside) (w : World) : (a : Request) → Option (Answer a × World)
  | .lRange key start stop => some (Async.attempt c.rejects (range start stop (w.list key)) w w)
  | .lTrim key start stop =>
    some (Async.attempt c.rejects () w (w.setList key (range start stop (w.list key))))
  | .rPush key text =>
    let item : DlqItem := ⟨w.tags, text⟩
    some (Async.attempt c.rejects () w { w.setList key (w.list key ++ [item]) with
      ever := (key, item) :: w.ever, tags := w.tags + 1 })
  | .add queue name data attempts item =>
    let job : Job := ⟨w.jobs.length, queue, name, data, attempts, item.tag⟩
    some (Async.attempt c.rejects job.id w { w with jobs := job :: w.jobs })
  | .now => some (c.now, w)

/-! ## QueueService -/

abbrev On (α : Type) : Type := Block Request Answer String Unit α

open Block

/-- `new Date()`. -/
def newDate : On Int := request .now fun now : Int => .ok now

/-- `n || d` -/
def orDefault (n : Option Nat) (d : Nat) : Nat := if n.getD 0 = 0 then d else n.getD 0

def dlqKey (queueName : String) : String := "queue:dlq:" ++ queueName

def getQueueByName (queueName : String) : Except String String :=
  if queueName = "deploy-contract" ∨ queueName = "process-tts" ∨ queueName = "index-market-news" then
    .ok queueName
  else .error s!"Unknown queue: {queueName}"

/-- What the loop does with one item. -/
def requeueItem (codec : Codec) (queueName : String) (item : DlqItem) : On Nat :=
  match codec.parse item.text with
  | .error e => throw e
  | .ok jobData =>
    match getQueueByName queueName with
    | .error e => throw e
    | .ok queue =>
      request (.add queue jobData.name jobData.data (orDefault jobData.maxAttempts 3) item) id

/-- The jobs that were made; what is thrown for an item is logged. -/
def requeueEach (codec : Codec) (queueName : String) : List DlqItem → On (List Nat)
  | [] => pure []
  | item :: rest => do
    let job ← tryCatch (do
      let job ← requeueItem codec queueName item
      pure (some job)) fun _ => pure none
    let jobs ← requeueEach codec queueName rest
    pure (job.toList ++ jobs)

def requeueFromDLQ (codec : Codec) (queueName : String) (limit : Int) : On (List Nat) := do
  let dlqData ← request (.lRange (dlqKey queueName) 0 (limit - 1)) id
  let requeuedJobs ← requeueEach codec queueName dlqData
  if 0 < requeuedJobs.length then
    request (.lTrim (dlqKey queueName) requeuedJobs.length (-1)) id
  else pure ()
  pure requeuedJobs

def handleJobFailure (codec : Codec) (job : FailedJob) (error : String) : On (List Nat) := do
  let maxAttempts := orDefault job.attempts 1
  if maxAttempts ≤ job.attemptsMade then
    let failedAt ← newDate
    tryCatch (request (.rPush (dlqKey job.queue) (codec.stringify
      ⟨job.id, job.name, job.data, error, job.attemptsMade, maxAttempts, failedAt⟩)) id)
      fun _ => pure ()
  else pure ()
  pure []

/-- What works on the dead-letter lists. -/
inductive Operation
  | requeueFromDLQ (queueName : String) (limit : Int)
  | handleJobFailure (job : FailedJob) (error : String)

def Operation.program (codec : Codec) : Operation → Async Request Answer (Except String (List Nat))
  | .requeueFromDLQ queueName limit => Block.program (JobQueue.requeueFromDLQ codec queueName limit)
  | .handleJobFailure job error => Block.program (JobQueue.handleJobFailure codec job error)

/-- The lists before the first call, whatever they hold. -/
structure Initial (w : World) : Prop where
  distinct : ∀ key, (w.list key).Nodup
  ever : ∀ key item, item ∈ w.list key ↔ (key, item) ∈ w.ever
  tags : (w.ever.map fun e => e.2.tag).Nodup
  fresh : ∀ e ∈ w.ever, e.2.tag < w.tags
  jobs : w.jobs = []

/-- Any number of calls, interleaved. -/
abbrev machine (codec : Codec) :=
  Async.interleave (Operation.program codec) (fun _ => True) answer Initial

abbrev System : Type := Async.System Request Answer (Except String (List Nat)) World

abbrev Trace : Type := List (Event Outside (Async.Move Operation) Unit System)

end Stellara.JobQueue
