import Mathlib.Data.List.Infix
import Stellara.Voice.Streaming

/-!
# The gateway of voice sessions

`VoiceGateway`, for sockets whose token names a user, and the cleanup that runs beside it.  Most
handlers take the session from the user's active session; three take an id as the client sends it:

    handleConnection    handshake.auth.sessionId    used if the session is the user's
    handleDisconnect    handshake.auth.sessionId    used as it is
    createSession       dto.userId                  used as it is
    handleInterrupt     data.streamId               used as it is

What a handler emits to its own socket is its result; the rooms of the sockets are left out.
-/

namespace Stellara.Voice

open Block VoiceSessionService StreamingResponseService

/-- What a handler emits to its socket. -/
inductive ClientEvent
  | resumed (sessionId : Uuid) (state : ConversationState)
  | sessionCreated (session : VoiceSession)
  | interruptAcknowledged (sessionId : Uuid) (streamId : Option Uuid)
  | stateUpdated (sessionId : Uuid) (state : ConversationState)
  | terminated (sessionId : Uuid)
  | pong (timestamp : Int)
  | error (code : Option String) (message : String)
  /-- no event of the source: a stream has been started, and its timer is set -/
  | started (sessionId streamId : Uuid) (userMessage : String)
deriving DecidableEq, Repr

/-- The session of the handshake; an empty id is none. -/
def Client.handshake (client : Client) : Option Uuid := client.sessionId.filter (· ≠ "")

def includes (message text : String) : Bool := decide (text.toList <:+: message.toList)

namespace VoiceGateway

def handleConnection (client : Client) : On (Option ClientEvent) :=
  match client.handshake with
  | none => pure none
  | some sessionId => do
    let session ← getSession sessionId
    match session with
    | none => pure (some (.error none "Invalid session"))
    | some session =>
      if session.userId = client.userId then do
        let _ ← updateSessionSocket sessionId client.id
        let _ ← resumeSession sessionId
        setUserActiveSession client.userId sessionId
        pure (some (.resumed sessionId session.state))
      else pure (some (.error none "Invalid session"))

def handleDisconnect (client : Client) : On (Option ClientEvent) :=
  match client.handshake with
  | none => pure none
  | some sessionId => do
    let _ ← updateSessionState sessionId .idle
    deleteUserActiveSession client.userId
    pure none

/-- The new session, or what is said of the limit. -/
def createWithinLimit (dto : CreateSessionDto) : On (Except String VoiceSession) :=
  tryCatch (do
    let session ← VoiceSessionService.createSession dto.userId dto.context dto.walletAddress
      dto.metadata
    pure (.ok session)) fun message =>
      if includes message "Session limit reached" then pure (.error message) else throw message

def createSession (client : Client) (dto : CreateSessionDto) : On (Option ClientEvent) :=
  tryCatch (do
    let existingSessions ← getUserActiveSessions client.userId
    match existingSessions with
    | existingSession :: _ => do
      let _ ← updateSessionSocket existingSession.id client.id
      setUserActiveSession client.userId existingSession.id
      pure (some (.sessionCreated existingSession))
    | [] => do
      let created ← createWithinLimit dto
      match created with
      | .error message => pure (some (.error (some "SESSION_LIMIT_REACHED") message))
      | .ok session => do
        let _ ← updateSessionSocket session.id client.id
        setUserActiveSession client.userId session.id
        pure (some (.sessionCreated session)))
    fun _ => pure (some (.error none "Failed to create session"))

/-- What is done with the user's active session; `failure` is said when something is thrown. -/
def withActiveSession (client : Client) (failure : String)
    (handler : Uuid → On (Option ClientEvent)) : On (Option ClientEvent) :=
  tryCatch (do
    let sessionId ← getUserActiveSession client.userId
    match sessionId with
    | none => pure (some (.error none "No active session"))
    | some sessionId => handler sessionId) fun _ => pure (some (.error none failure))

def handleMessage (client : Client) (content : String) : On (Option ClientEvent) :=
  withActiveSession client "Failed to process message" fun sessionId => do
    let session ← getSession sessionId
    match session with
    | none => pure (some (.error none "Invalid session"))
    | some session =>
      if session.userId = client.userId then do
        let streamId ← startStreamingResponse sessionId content
        pure (some (.started sessionId streamId content))
      else pure (some (.error none "Invalid session"))

def handleInterrupt (client : Client) (streamId : Option Uuid) : On (Option ClientEvent) :=
  withActiveSession client "Failed to interrupt" fun sessionId => do
    let success ← interruptStream sessionId streamId
    pure (some (if success then .interruptAcknowledged sessionId streamId
      else .error none "Failed to interrupt"))

/-- `if (actionDto.interrupt)` -/
def interruptIfAsked (sessionId : Uuid) (interrupt : Option Bool) : On Bool :=
  if interrupt = some true then interruptStream sessionId none else pure true

def handleSessionAction (client : Client) (dto : SessionActionDto) : On (Option ClientEvent) :=
  withActiveSession client "Failed to perform action" fun sessionId => do
    let _ ← interruptIfAsked sessionId dto.interrupt
    match dto.state with
    | none => pure none
    | some state => do
      let success ← updateSessionState sessionId state
      pure (some (if success then .stateUpdated sessionId state
        else .error none "Invalid state transition"))

def handleTerminate (client : Client) : On (Option ClientEvent) :=
  withActiveSession client "Failed to terminate session" fun sessionId => do
    let _ ← interruptStream sessionId none
    let success ← terminateSession sessionId
    if success then do
      deleteUserActiveSession client.userId
      pure (some (.terminated sessionId))
    else pure (some (.error none "Failed to terminate session"))

/-- `if (sessionId)` -/
def keepAlive (client : Client) : Option Uuid → On Unit
  | none => pure ()
  | some sessionId => do
    let _ ← updateSessionSocket sessionId client.id
    let _ ← updateLastPingAt sessionId
    refreshUserSessionTTL client.userId

/-- What is thrown here nobody catches. -/
def handlePing (client : Client) : On (Option ClientEvent) := do
  let sessionId ← getUserActiveSession client.userId
  keepAlive client sessionId
  let timestamp ← now
  pure (some (.pong timestamp))

def handle (client : Client) : SocketEvent → On (Option ClientEvent)
  | .connection => handleConnection client
  | .disconnect => handleDisconnect client
  | .createSession dto => createSession client dto
  | .message content => handleMessage client content
  | .interrupt streamId => handleInterrupt client streamId
  | .action dto => handleSessionAction client dto
  | .terminate => handleTerminate client
  | .ping => handlePing client

end VoiceGateway

/-! ## Events, interleaved -/

inductive GatewayOperation
  | event (client : Client) (payload : SocketEvent)
  | cleanupStaleSessions
  | cleanupExpiredSessions
deriving DecidableEq, Repr

inductive GatewayReply
  | told (event : Option ClientEvent)
  /-- the run of the stream has ended, with or without something thrown -/
  | streamed (streamId : Uuid) (thrown : Option String)
  | count (cleanedCount : Nat)
deriving DecidableEq, Repr

/-- The user whose event it is. -/
def GatewayOperation.userId : GatewayOperation → Option String
  | .event client _ => some client.userId
  | .cleanupStaleSessions | .cleanupExpiredSessions => none

def GatewayOperation.block : GatewayOperation → Block Request Answer String Unit GatewayReply
  | .event client payload => do
    let response ← call (VoiceGateway.handle client payload) { handles := some (client, payload) }
    match response with
    | some (.started sessionId streamId userMessage) => do
      let thrown ← generate sessionId streamId userMessage
      pure (.streamed streamId thrown)
    | response => pure (.told response)
  | .cleanupStaleSessions => do
    let cleanedCount ← call VoiceSessionService.cleanupStaleSessions {}
    pure (.count cleanedCount)
  | .cleanupExpiredSessions => do
    let cleanedCount ← call VoiceSessionService.cleanupExpiredSessions {}
    pure (.count cleanedCount)

def GatewayOperation.program (op : GatewayOperation) :
    Async Request Answer (Except String GatewayReply) :=
  op.block.program

/-- Any number of events, from an empty Redis and no active streams. -/
abbrev gatewayMachine :=
  Async.interleave GatewayOperation.program (fun _ => True) answer (· = {})

abbrev GatewaySystem : Type := Async.System Request Answer (Except String GatewayReply) World

abbrev GatewayTrace : Type :=
  List (Event Outside (Async.Move GatewayOperation) Unit GatewaySystem)

end Stellara.Voice
