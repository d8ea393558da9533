import Stellara.Voice.Model

/-!
# The service of voice sessions

`VoiceSessionService` and `ConversationStateMachineService`.  A method that changes a session reads
it as a whole and writes it back as a whole, with no check in between.
-/

namespace Stellara.Voice

open Block

/-- Programs that remember; the object of a block is what its task remembers. -/
abbrev On (α : Type) : Type := Block Request Answer String Memory α

/-! ## Requests -/

def now : On Int := request .now fun n : Int => .ok n
def uuidv4 : On Uuid := request .randomUUID fun id : String => .ok id
def sleep (ms : Nat) : On Unit := request (.sleep ms) fun _ => .ok ()

/-- `JSON.parse(client.get(SESSION_PREFIX + sessionId))`; the session is remembered. -/
def get (sessionId : Uuid) : On (Option VoiceSession) := fun m =>
  .await (.get sessionId m) fun r => .done (r, { m with read := (Except.toOption r).join })

def setEx (session : VoiceSession) : On Unit := fun m =>
  .await (.setEx session m) fun r => .done (r, m)

def del (sessionId : Uuid) : On Unit := request (.del sessionId) id

def scanKeys : On (List Uuid) := request .scanKeys id

/-- `client.sMembers(USER_SESSIONS_PREFIX + userId)`; it is remembered how many sessions had been
created for the user. -/
def sMembers (userId : String) : On (List Uuid) := fun m =>
  .await (.sMembers userId m) fun r =>
    match (r : Except String (List Uuid × Nat)) with
    | .ok (ids, created) => .done (.ok ids, { m with created := some created })
    | .error e => .done (.error e, m)

namespace ConversationStateMachineService

def validTransitions : ConversationState → List ConversationState
  | .idle => [.listening]
  | .listening => [.thinking, .interrupted]
  | .thinking => [.responding, .interrupted]
  | .responding => [.listening, .interrupted, .idle]
  | .interrupted => [.listening, .idle]
  -- sink states
  | .stale => []
  | .terminated => []

def canTransition (old new : ConversationState) : Bool := new ∈ validTransitions old

def transition (currentState newState : ConversationState) : Except String Unit :=
  if canTransition currentState newState then .ok ()
  else .error s!"Invalid state transition from {currentState.name} to {newState.name}"

def isInterruptible (state : ConversationState) : Bool := state ∈ [.thinking, .responding]

end ConversationStateMachineService

open ConversationStateMachineService

/-- A new session, which nobody has read. -/
def VoiceSession.create (userId : String) (context : FeatureContext)
    (walletAddress metadata : Option String) : On VoiceSession := do
  let now ← now
  let id ← uuidv4
  modify fun m => { m with read := none }
  pure ⟨id, userId, walletAddress, context, .idle, [], now, now, none, 3600, none, metadata⟩

namespace VoiceSessionService

def SESSION_TTL : Int := 3600

def USER_SESSION_POINTER_TTL : Int := 600

/-! ## Helpers -/

def saveSession (session : VoiceSession) : On Unit := setEx session

def addUserSession (userId : String) (sessionId : Uuid) : On Unit := do
  request (.sAdd userId sessionId) id
  request (.expire userId SESSION_TTL) id

def removeUserSession (userId : String) (sessionId : Uuid) : On Unit :=
  request (.sRem userId sessionId) id

/-! ## The active session of a user -/

def setUserActiveSession (userId : String) (sessionId : Uuid) : On Unit :=
  request (.setActive userId USER_SESSION_POINTER_TTL sessionId) id

def getUserActiveSession (userId : String) : On (Option Uuid) := request (.getActive userId) id

def deleteUserActiveSession (userId : String) : On Unit := request (.delActive userId) id

def refreshUserSessionTTL (userId : String) : On Unit :=
  request (.refreshActive userId USER_SESSION_POINTER_TTL) id

def clearUserActiveSessionIfMatches (userId : String) (sessionId : Uuid) : On Unit := do
  let current ← getUserActiveSession userId
  if current = some sessionId then deleteUserActiveSession userId else pure ()

/-! ## Sessions -/

def getSession (sessionId : Uuid) : On (Option VoiceSession) :=
  tryCatch (get sessionId) fun _ => pure none

/-- The sessions of `ids` that are there. -/
def getSessions : List Uuid → On (List VoiceSession)
  | [] => pure []
  | id :: ids => do
    let session ← getSession id
    let sessions ← getSessions ids
    pure (session.toList ++ sessions)

def getUserActiveSessions (userId : String) : On (List VoiceSession) :=
  tryCatch (do
    let sessionIds ← sMembers userId
    getSessions sessionIds) fun _ => pure []

def createSession (userId : String) (context : FeatureContext)
    (walletAddress metadata : Option String) : On VoiceSession := do
  let activeSessions ← getUserActiveSessions userId
  if MAX_SESSIONS_PER_USER ≤ activeSessions.length then
    throw s!"Session limit reached: users may have at most {MAX_SESSIONS_PER_USER} concurrent sessions"
  else do
    let session ← VoiceSession.create userId context walletAddress metadata
    saveSession session
    addUserSession userId session.id
    pure session

def updateSessionState (sessionId : Uuid) (newState : ConversationState) : On Bool := do
  let session ← getSession sessionId
  match session with
  | none => pure false
  | some session =>
    match transition session.state newState with
    | .error _ => pure false
    | .ok () => do
      let now ← now
      saveSession { session with state := newState, lastActivityAt := now }
      pure true

/-- Whether the message has been added; the source returns no more than that there is one. -/
def addMessage (sessionId : Uuid) (content : String) (isUser : Bool) (metadata : Option String) :
    On (Option VoiceMessage) := do
  let session ← getSession sessionId
  match session with
  | none => pure none
  | some session => do
    let id ← uuidv4
    let timestamp ← now
    let m ← Block.get
    let message : VoiceMessage := ⟨id, content, timestamp, isUser, metadata, m.stream⟩
    let lastActivityAt ← now
    saveSession
      { session with messages := session.messages ++ [message], lastActivityAt := lastActivityAt }
    pure (some message)

def interruptSession (sessionId : Uuid) : On Bool := do
  let session ← getSession sessionId
  match session with
  | none => pure false
  | some session =>
    if isInterruptible session.state then updateSessionState sessionId .interrupted
    else pure false

def resumeSession (sessionId : Uuid) : On Bool := do
  let session ← getSession sessionId
  match session with
  | none => pure false
  | some session =>
    updateSessionState sessionId (if session.state = .interrupted then .listening else .idle)

def terminateSession (sessionId : Uuid) : On Bool :=
  tryCatch (do
    let session ← getSession sessionId
    match session with
    | none => pure false
    | some session => do
      del sessionId
      removeUserSession session.userId sessionId
      clearUserActiveSessionIfMatches session.userId sessionId
      pure true) fun _ => pure false

def updateSessionSocket (sessionId : Uuid) (socketId : String) : On Bool := do
  let session ← getSession sessionId
  match session with
  | none => pure false
  | some session => do
    let now ← now
    saveSession { session with socketId := some socketId, lastActivityAt := now }
    pure true

def updateLastPingAt (sessionId : Uuid) : On Bool := do
  let session ← getSession sessionId
  match session with
  | none => pure false
  | some session => do
    let lastPingAt ← now
    let lastActivityAt ← now
    saveSession { session with lastPingAt := some lastPingAt, lastActivityAt := lastActivityAt }
    pure true

/-! ## Cleanup -/

/-- The sessions of `keys` that are due are terminated and counted; a rejection ends the loop. -/
def cleanup (due : VoiceSession → Bool) : List Uuid → Nat → On Nat
  | [], cleanedCount => pure cleanedCount
  | key :: keys, cleanedCount => do
    let session ← tryCatch (do
      let session ← get key
      pure (some session)) fun _ => pure none
    match session with
    | none => pure cleanedCount
    | some none => cleanup due keys cleanedCount
    | some (some session) =>
      if due session then do
        let _ ← terminateSession key
        cleanup due keys (cleanedCount + 1)
      else cleanup due keys cleanedCount

def isStale (now : Int) (session : VoiceSession) : Bool :=
  !(session.state ∈ [.terminated, .stale]) &&
    HEARTBEAT_TIMEOUT_MS < now - session.lastPingAt.getD session.createdAt

def isExpired (now : Int) (session : VoiceSession) : Bool :=
  session.ttl * 1000 < now - session.lastActivityAt

def cleanupWhere (due : Int → VoiceSession → Bool) : On Nat := do
  let now ← now
  tryCatch (do
    let keys ← scanKeys
    cleanup (due now) keys 0) fun _ => pure 0

def cleanupStaleSessions : On Nat := cleanupWhere isStale

def cleanupExpiredSessions : On Nat := cleanupWhere isExpired

end VoiceSessionService

/-! ## Calls, interleaved -/

open VoiceSessionService

inductive Operation
  | createSession (userId : String) (context : FeatureContext)
      (walletAddress metadata : Option String)
  | updateSessionState (sessionId : Uuid) (newState : ConversationState)
  | addMessage (sessionId : Uuid) (content : String) (isUser : Bool) (metadata : Option String)
  | interruptSession (sessionId : Uuid)
  | resumeSession (sessionId : Uuid)
  | terminateSession (sessionId : Uuid)
  | updateSessionSocket (sessionId : Uuid) (socketId : String)
  | updateLastPingAt (sessionId : Uuid)
  | cleanupStaleSessions
  | cleanupExpiredSessions
deriving DecidableEq, Repr

/-- What a call returns. -/
inductive Reply
  | session (session : VoiceSession)
  | message (message : Option VoiceMessage)
  | done (success : Bool)
  | count (cleanedCount : Nat)
deriving DecidableEq, Repr

def Operation.block : Operation → On Reply
  | .createSession userId context walletAddress metadata => do
    let session ← VoiceSessionService.createSession userId context walletAddress metadata
    pure (.session session)
  | .updateSessionState sessionId newState => do
    let success ← VoiceSessionService.updateSessionState sessionId newState
    pure (.done success)
  | .addMessage sessionId content isUser metadata => do
    let message ← VoiceSessionService.addMessage sessionId content isUser metadata
    pure (.message message)
  | .interruptSession sessionId => do
    let success ← VoiceSessionService.interruptSession sessionId
    pure (.done success)
  | .resumeSession sessionId => do
    let success ← VoiceSessionService.resumeSession sessionId
    pure (.done success)
  | .terminateSession sessionId => do
    let success ← VoiceSessionService.terminateSession sessionId
    pure (.done success)
  | .updateSessionSocket sessionId socketId => do
    let success ← VoiceSessionService.updateSessionSocket sessionId socketId
    pure (.done success)
  | .updateLastPingAt sessionId => do
    let success ← VoiceSessionService.updateLastPingAt sessionId
    pure (.done success)
  | .cleanupStaleSessions => do
    let cleanedCount ← VoiceSessionService.cleanupStaleSessions
    pure (.count cleanedCount)
  | .cleanupExpiredSessions => do
    let cleanedCount ← VoiceSessionService.cleanupExpiredSessions
    pure (.count cleanedCount)

/-- A task begins with nothing to remember. -/
def Operation.program (op : Operation) : Async Request Answer (Except String Reply) :=
  Block.program (Block.call op.block {})

/-- Any number of calls, from an empty Redis. -/
abbrev machine := Async.interleave Operation.program (fun _ => True) answer (· = {})

abbrev System : Type := Async.System Request Answer (Except String Reply) World

abbrev Trace : Type := List (Event Outside (Async.Move Operation) Unit System)

/-- Nothing is rejected, and the next UUID is this. -/
def undisturbed (uuid : Uuid) : Outside := ⟨0, uuid, none, [], ""⟩

def resumes (i : Nat) (uuid : Uuid) (answers : Nat) : List (Outside × Async.Move Operation) :=
  List.replicate answers (undisturbed uuid, .resume i)

end Stellara.Voice
