import Stellara.Voice.Sessions

/-!
# Streamed responses

`StreamingResponseService`.  A stream is generated by a timer that the start has set, so a task
goes on with it after the start has returned; what is thrown there nobody catches.

    start      getSession  addMessage  updateSessionState     set, voice:thinking
    generate   getSession  has  updateSessionState  generateResponse
               has, voice:chunk  …  has, voice:chunk
    complete   getSession  has  addMessage  voice:complete  updateSessionState  delete

`has` looks the stream up in the map of active streams; an interruption takes it out.
-/

namespace Stellara.Voice

open Block VoiceSessionService

/-- The model's answer. -/
def generateResponse (userId : String) (sessionId : Uuid) (prompt : String) : On String := fun m =>
  .await (.generateResponse userId sessionId prompt m) fun r => .done (r, m)

/-- The interruption of a stream, or of all of a session. -/
def interrupt (streamId : Option Uuid) (room : String) (sessionId : Uuid) : On Unit := fun m =>
  .await (.interrupt streamId room sessionId m) fun _ => .done (.ok (), m)

namespace StreamingResponseService

def startStreamingResponse (sessionId : Uuid) (userMessage : String) : On Uuid := do
  let streamId ← uuidv4
  let session ← getSession sessionId
  match session with
  | none => throw s!"Session {sessionId} not found"
  | some session => do
    let _ ← addMessage sessionId userMessage true none
    let _ ← updateSessionState sessionId .thinking
    request (.startStream streamId session sessionId) fun _ => .ok ()
    pure streamId

/-- `text.split(' ')`, which is never empty. -/
def words (text : String) : List String := (text.toList.splitOn ' ').map String.ofList

/-- The words are sent one after the other, each with what was sent before, unless the stream is
interrupted. -/
def emitChunks (streamId : Uuid) (room : String) (sessionId : Uuid) :
    String → Bool → List String → On Bool
  | _, _, [] => pure true
  | currentText, isFirst, word :: words => do
    let currentText := currentText ++ (if isFirst then "" else " ") ++ word
    let emitted ← request (.emitChunk streamId room sessionId currentText words.isEmpty)
      fun b : Bool => .ok b
    if emitted then
      if words.isEmpty then pure true
      else do
        sleep 100
        emitChunks streamId room sessionId currentText false words
    else pure false

def completeStreamingResponse (sessionId streamId : Uuid) (fullResponse : String) : On Unit := do
  let session ← getSession sessionId
  match session with
  | none => pure ()
  | some session => do
    let active ← request (.beginCompletion streamId) fun b : Bool => .ok b
    if active then do
      let _ ← addMessage sessionId fullResponse false none
      request (.emitComplete streamId (session.room sessionId) sessionId fullResponse) fun _ => .ok ()
      let _ ← updateSessionState sessionId .listening
      request (.deleteStream streamId) fun _ => .ok ()
    else pure ()

def generateStreamingResponse (sessionId streamId : Uuid) (userMessage : String) : On Unit := do
  let session ← getSession sessionId
  match session with
  | none => pure ()
  | some session => do
    let active ← request (.checkStream streamId) fun b : Bool => .ok b
    if active then do
      let _ ← updateSessionState sessionId .responding
      let fullResponse ← generateResponse
        (if session.userId = "" then "anonymous" else session.userId) sessionId userMessage
      let room := session.room sessionId
      request (.emitResponding streamId room sessionId) fun _ => .ok ()
      let finished ← emitChunks streamId room sessionId "" true (words fullResponse)
      if finished then completeStreamingResponse sessionId streamId fullResponse
      else pure ()
    else pure ()

/-- An empty id is none. -/
def interruptStream (sessionId : Uuid) (streamId : Option Uuid) : On Bool := do
  let session ← getSession sessionId
  match session with
  | none => pure false
  | some session => do
    interrupt (streamId.filter (· ≠ "")) (session.room sessionId) sessionId
    let _ ← interruptSession sessionId
    pure true

/-! ## A stream from its start to its end -/

/-- The timer's part, and what it throws. -/
def generate (sessionId streamId : Uuid) (userMessage : String) :
    Block Request Answer String Unit (Option String) :=
  tryCatch (do
    request (.sleep 1000) fun _ => .ok ()
    call (generateStreamingResponse sessionId streamId userMessage) { stream := some streamId }
    pure none) fun e => pure (some e)

end StreamingResponseService

/-! ## Calls, interleaved -/

open StreamingResponseService

inductive StreamOperation
  | session (op : Operation)
  | stream (sessionId : Uuid) (userMessage : String)
  | interrupt (sessionId : Uuid) (streamId : Option Uuid)
deriving DecidableEq, Repr

inductive StreamReply
  | session (reply : Reply)
  /-- the run of the stream has ended, with or without something thrown -/
  | streamed (streamId : Uuid) (thrown : Option String)
  | interrupted (success : Bool)
deriving DecidableEq, Repr

def StreamOperation.block : StreamOperation → Block Request Answer String Unit StreamReply
  | .session op => do
    let reply ← call op.block {}
    pure (.session reply)
  | .stream sessionId userMessage => do
    let streamId ← call (startStreamingResponse sessionId userMessage) {}
    let thrown ← generate sessionId streamId userMessage
    pure (.streamed streamId thrown)
  | .interrupt sessionId streamId => do
    let success ← call (interruptStream sessionId streamId) {}
    pure (.interrupted success)

def StreamOperation.program (op : StreamOperation) :
    Async Request Answer (Except String StreamReply) :=
  op.block.program

/-- Any number of calls, from an empty Redis and no active streams. -/
abbrev streamMachine := Async.interleave StreamOperation.program (fun _ => True) answer (· = {})

abbrev StreamSystem : Type := Async.System Request Answer (Except String StreamReply) World

abbrev StreamTrace : Type := List (Event Outside (Async.Move StreamOperation) Unit StreamSystem)

end Stellara.Voice
