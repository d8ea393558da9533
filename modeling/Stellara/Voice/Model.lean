import Stellara.Lib.Expiring
import Stellara.Lib.Protocol
import Stellara.Lib.Table

/-!
# Voice sessions

`VoiceSessionService` with `ConversationStateMachineService`, and the world that they share with
`StreamingResponseService` and `VoiceGateway`: Redis, whose keys expire, and the active streams in
memory.  Every Redis command is one request, and so is every read of the clock, every new UUID,
every wait and every stretch of code between two awaits that uses the active streams; between two
requests of one call any other may run.

    get    voice:session:<id>            the session, as a whole
    setEx  voice:session:<id>            … written back as a whole
    sAdd   voice:user:sessions:<user>    the user's sessions, which expire on their own

Not in the source is what a task remembers (`Memory`), which its requests carry along: the event of
a socket that it handles, the stream that it generates, the session that it has read last, and
how many sessions had been created for the user whose sessions it has listed last.  Nor are
`history`, `created` and `terminated`, which tell what has happened.
-/

namespace Stellara.Voice

open Block

/-- A random UUID, or what a client sends in place of one. -/
abbrev Uuid : Type := String

def MAX_SESSIONS_PER_USER : Nat := 3

def HEARTBEAT_TIMEOUT_MS : Int := 60000

/-! ## Sessions -/

inductive ConversationState
  | listening
  | thinking
  | responding
  | interrupted
  | idle
  | stale
  | terminated
deriving DecidableEq, Repr

def ConversationState.name : ConversationState → String
  | .listening => "listening"
  | .thinking => "thinking"
  | .responding => "responding"
  | .interrupted => "interrupted"
  | .idle => "idle"
  | .stale => "stale"
  | .terminated => "terminated"

inductive FeatureContext
  | academy
  | trading
  | general
  | community
deriving DecidableEq, Repr

/-- A message; `stream` is not in the source, and names the stream whose text it is. -/
structure VoiceMessage where
  id : Uuid
  content : String
  timestamp : Int
  isUser : Bool
  metadata : Option String
  stream : Option Uuid
deriving DecidableEq, Repr

structure VoiceSession where
  id : Uuid
  userId : String
  walletAddress : Option String
  context : FeatureContext
  state : ConversationState
  messages : List VoiceMessage
  createdAt : Int
  lastActivityAt : Int
  lastPingAt : Option Int
  /-- in seconds -/
  ttl : Int
  socketId : Option String
  metadata : Option String
deriving DecidableEq, Repr

/-- `session.socketId || sessionId`, the room that is emitted to. -/
def VoiceSession.room (session : VoiceSession) (sessionId : Uuid) : String :=
  match session.socketId with
  | some socketId => if socketId = "" then sessionId else socketId
  | none => sessionId

/-! ## Streams -/

structure StreamingChunk where
  id : Uuid
  content : String
  isComplete : Bool
  isPartial : Bool
deriving DecidableEq, Repr

/-- A stream; `userId` is not in the source, and is the user of its session. -/
structure StreamingResponse where
  id : Uuid
  sessionId : Uuid
  chunks : List StreamingChunk
  startTime : Int
  endTime : Option Int
  isInterrupted : Bool
  userId : String
deriving DecidableEq, Repr

inductive VoiceEvent
  | thinking
  | responding
  | chunk (chunk : StreamingChunk)
  | interrupted
  | complete (response : String)
  /-- no event of the source: the stream's text has been added to the session's messages -/
  | added
deriving DecidableEq, Repr

/-- What has been emitted to a room. -/
structure Emission where
  room : String
  sessionId : Uuid
  streamId : Uuid
  event : VoiceEvent
deriving DecidableEq, Repr

/-! ## Sockets -/

structure CreateSessionDto where
  userId : String
  walletAddress : Option String
  context : FeatureContext
  metadata : Option String
deriving DecidableEq, Repr

structure SessionActionDto where
  state : Option ConversationState
  interrupt : Option Bool
deriving DecidableEq, Repr

/-- A socket whose token names a user, with the session of its handshake. -/
structure Client where
  id : String
  userId : String
  sessionId : Option Uuid
deriving DecidableEq, Repr

inductive SocketEvent
  | connection
  | disconnect
  | createSession (dto : CreateSessionDto)
  | message (content : String)
  | interrupt (streamId : Option Uuid)
  | action (dto : SessionActionDto)
  | terminate
  | ping
deriving DecidableEq, Repr

/-! ## Requests and their answers -/

/-- What a task remembers, for the proofs. -/
structure Memory where
  handles : Option (Client × SocketEvent) := none
  stream : Option Uuid := none
  read : Option VoiceSession := none
  created : Option Nat := none
deriving DecidableEq, Repr

inductive Request
  /-- `new Date()` and `Date.now()` -/
  | now
  | randomUUID
  | sleep (ms : Nat)
  -- voice:session:<id>
  | get (sessionId : Uuid) (m : Memory)
  | setEx (session : VoiceSession) (m : Memory)
  | del (sessionId : Uuid)
  | scanKeys
  -- voice:user:sessions:<user>
  | sMembers (userId : String) (m : Memory)
  | sAdd (userId : String) (sessionId : Uuid)
  | expire (userId : String) (seconds : Int)
  | sRem (userId : String) (sessionId : Uuid)
  -- voice:usersession:<user>
  | getActive (userId : String)
  | setActive (userId : String) (seconds : Int) (sessionId : Uuid)
  | delActive (userId : String)
  | refreshActive (userId : String) (seconds : Int)
  -- the active streams, and the model that answers
  | generateResponse (userId : String) (sessionId : Uuid) (prompt : String) (m : Memory)
  | startStream (streamId : Uuid) (session : VoiceSession) (sessionId : Uuid)
  | checkStream (streamId : Uuid)
  | emitResponding (streamId : Uuid) (room : String) (sessionId : Uuid)
  | emitChunk (streamId : Uuid) (room : String) (sessionId : Uuid) (content : String)
      (isComplete : Bool)
  | interrupt (streamId : Option Uuid) (room : String) (sessionId : Uuid) (m : Memory)
  | beginCompletion (streamId : Uuid)
  | emitComplete (streamId : Uuid) (room : String) (sessionId : Uuid) (response : String)
  | deleteStream (streamId : Uuid)

def Answer : Request → Type
  | .now => Int
  | .randomUUID => Uuid
  | .sleep _ => Unit
  | .get _ _ => Except String (Option VoiceSession)
  | .scanKeys => Except String (List Uuid)
  | .sMembers _ _ => Except String (List Uuid × Nat)
  | .getActive _ => Except String (Option Uuid)
  | .setEx _ _ | .del _ | .sAdd _ _ | .expire _ _ | .sRem _ _ | .setActive _ _ _ | .delActive _
  | .refreshActive _ _ => Except String Unit
  | .generateResponse _ _ _ _ => Except String String
  | .checkStream _ | .emitChunk _ _ _ _ _ | .beginCompletion _ => Bool
  | .startStream _ _ _ | .emitResponding _ _ _ | .interrupt _ _ _ _ | .emitComplete _ _ _ _
  | .deleteStream _ => Unit

structure World where
  sessions : Store Uuid (Expiring VoiceSession) := ∅
  userSessions : Store String (Expiring (List Uuid)) := ∅
  activeSessions : Store String (Expiring Uuid) := ∅
  /-- the map of the active streams, in the order of insertion -/
  streams : List StreamingResponse := []
  /-- the UUIDs that have been drawn -/
  uuids : List Uuid := []
  now : Int := 0
  history : List Emission := []
  /-- the sessions that have been created, with their users -/
  created : List (Uuid × String) := []
  /-- the sessions that have been terminated -/
  terminated : List Uuid := []

/-- The circumstances of an answer. -/
structure Outside where
  now : Int
  uuid : Uuid
  rejects : Option String
  /-- what a scan returns: a key that is set or gone meanwhile may be returned or not -/
  scanned : List Uuid
  /-- the text of the model -/
  content : String

namespace World

/-- The session that is stored. -/
def session (w : World) (sessionId : Uuid) : Option VoiceSession :=
  Expiring.read w.now w.sessions sessionId

/-- The ids of the user's sessions in the index. -/
def members (w : World) (userId : String) : List Uuid :=
  (Expiring.read w.now w.userSessions userId).getD []

/-- How many sessions have been created for the user. -/
def createdFor (w : World) (userId : String) : Nat := w.created.countP fun x => x.2 = userId

/-- The user's active session. -/
def active (w : World) (userId : String) : Option Uuid :=
  Expiring.read w.now w.activeSessions userId

def stream (w : World) (streamId : Uuid) : Option StreamingResponse :=
  w.streams.find? fun s => s.id = streamId

/-- The user's set in the index as it is to be, with the expiry that it has; a set that is new has
none, and one without members is removed. -/
def setMembers (w : World) (userId : String) (ids : List Uuid) : World :=
  let expiresAt := ((w.userSessions.lookup userId).filter fun e => e.Live w.now).bind (·.expiresAt)
  { w with
    userSessions :=
      if ids = [] then w.userSessions.erase userId
      else w.userSessions.insert userId ⟨ids, expiresAt⟩ }

/-- The user's set in the index expires, if there is one. -/
def expireMembers (w : World) (userId : String) (expiresAt : Int) : World :=
  match Expiring.read w.now w.userSessions userId with
  | some ids => { w with userSessions := w.userSessions.insert userId ⟨ids, some expiresAt⟩ }
  | none => w

def setActive (w : World) (userId : String) (sessionId : Uuid) (expiresAt : Int) : World :=
  { w with activeSessions := w.activeSessions.insert userId ⟨sessionId, some expiresAt⟩ }

/-- The messages that a session has beyond those it was read with. -/
def newMessages (session : VoiceSession) (m : Memory) : List VoiceMessage :=
  session.messages.drop ((m.read.map (·.messages.length)).getD 0)

/-- What the history says of a message that is stored. -/
def addition (session : VoiceSession) (message : VoiceMessage) : Option Emission :=
  message.stream.map fun streamId => ⟨session.room session.id, session.id, streamId, .added⟩

/-- A session is written, with its time to live. -/
def save (w : World) (session : VoiceSession) (m : Memory) : World :=
  { w with
    sessions := w.sessions.insert session.id ⟨session, some (w.now + session.ttl * 1000)⟩
    history := w.history ++ (newMessages session m).filterMap (addition session)
    created := if m.read = none then (session.id, session.userId) :: w.created else w.created }

/-- A session is terminated. -/
def remove (w : World) (sessionId : Uuid) : World :=
  { w with sessions := w.sessions.erase sessionId, terminated := sessionId :: w.terminated }

/-- The streams that an interruption is for: one, or all of the session. -/
def concerns (sessionId : Uuid) (streamId : Option Uuid) (s : StreamingResponse) : Bool :=
  match streamId with
  | some id => s.id = id
  | none => s.sessionId = sessionId

/-- The streams are told to be interrupted and are no longer active; as that is one stretch of code,
no stream that is active has `isInterrupted` set. -/
def interrupt (w : World) (streamId : Option Uuid) (room : String) (sessionId : Uuid) : World :=
  { w with
    streams := w.streams.filter fun s => ¬ concerns sessionId streamId s
    history := w.history ++ (w.streams.filter (concerns sessionId streamId)).map fun s =>
      ⟨room, sessionId, s.id, .interrupted⟩ }

def emit (w : World) (room : String) (sessionId streamId : Uuid) (event : VoiceEvent) : World :=
  { w with history := w.history ++ [⟨room, sessionId, streamId, event⟩] }

def setStream (w : World) (streamId : Uuid) (f : StreamingResponse → StreamingResponse) : World :=
  { w with streams := updateWhere (fun s => s.id = streamId) f w.streams }

end World

open Async (attempt)

/-- Redis answers, the model does, or the code runs on to its next await. -/
def reply (c : Outside) (w : World) : (a : Request) → Option (Answer a × World)
  | .now => some (w.now, w)
  | .randomUUID =>
    if c.uuid ∈ w.uuids then none else some (c.uuid, { w with uuids := c.uuid :: w.uuids })
  | .sleep _ => some ((), w)
  | .get sessionId _ => some (attempt c.rejects (w.session sessionId) w w)
  | .setEx session m => some (attempt c.rejects () w (w.save session m))
  | .del sessionId => some (attempt c.rejects () w (w.remove sessionId))
  | .scanKeys => some (attempt c.rejects c.scanned w w)
  | .sMembers userId _ =>
    some (attempt c.rejects (w.members userId, w.createdFor userId) w w)
  | .sAdd userId sessionId =>
    some (attempt c.rejects () w <|
      if sessionId ∈ w.members userId then w
      else w.setMembers userId (w.members userId ++ [sessionId]))
  | .expire userId seconds =>
    some (attempt c.rejects () w (w.expireMembers userId (w.now + seconds * 1000)))
  | .sRem userId sessionId =>
    some (attempt c.rejects () w
      (w.setMembers userId ((w.members userId).filter (· ≠ sessionId))))
  | .getActive userId => some (attempt c.rejects (w.active userId) w w)
  | .setActive userId seconds sessionId =>
    some (attempt c.rejects () w (w.setActive userId sessionId (w.now + seconds * 1000)))
  | .delActive userId =>
    some (attempt c.rejects () w { w with activeSessions := w.activeSessions.erase userId })
  | .refreshActive userId seconds =>
    some (attempt c.rejects () w <|
      match w.active userId with
      | some sessionId => w.setActive userId sessionId (w.now + seconds * 1000)
      | none => w)
  | .generateResponse _ _ _ _ => some (attempt c.rejects c.content w w)
  | .startStream streamId session sessionId =>
    let s : StreamingResponse := ⟨streamId, sessionId, [], w.now, none, false, session.userId⟩
    some ((), { w with streams := w.streams ++ [s] }.emit (session.room sessionId) sessionId streamId
      .thinking)
  | .checkStream streamId => some ((w.stream streamId).any fun s => !s.isInterrupted, w)
  | .emitResponding streamId room sessionId =>
    some ((), w.emit room sessionId streamId .responding)
  | .emitChunk streamId room sessionId content isComplete =>
    let chunk : StreamingChunk := ⟨c.uuid, content, isComplete, !isComplete⟩
    if (w.stream streamId).any fun s => !s.isInterrupted then
      some (true, (w.setStream streamId fun s => { s with chunks := s.chunks ++ [chunk] }).emit
        room sessionId streamId (.chunk chunk))
    else some (false, w)
  | .interrupt streamId room sessionId _ => some ((), w.interrupt streamId room sessionId)
  | .beginCompletion streamId =>
    if (w.stream streamId).isSome then
      some (true, w.setStream streamId fun s => { s with endTime := some w.now })
    else some (false, w)
  | .emitComplete streamId room sessionId response =>
    some ((), w.emit room sessionId streamId (.complete response))
  | .deleteStream streamId =>
    some ((), { w with streams := w.streams.filter fun s => s.id ≠ streamId })

def World.tick (w : World) (now : Int) : World := { w with now := now }

/-- Time does not go back. -/
def answer (c : Outside) (w : World) (a : Request) : Option (Answer a × World) :=
  if w.now ≤ c.now then reply c (w.tick c.now) a else none

/-! ## What an answer leaves alone -/

def OfStreams : Request → Prop
  | .startStream _ _ _ | .emitChunk _ _ _ _ _ | .interrupt _ _ _ _ | .beginCompletion _
  | .deleteStream _ => True
  | _ => False

def OfHistory : Request → Prop
  | .setEx _ _ | .startStream _ _ _ | .emitResponding _ _ _ | .emitChunk _ _ _ _ _
  | .interrupt _ _ _ _ | .emitComplete _ _ _ _ => True
  | _ => False

def OfIndex : Request → Prop
  | .sAdd _ _ | .expire _ _ | .sRem _ _ => True
  | _ => False

def OfActive : Request → Prop
  | .setActive _ _ _ | .delActive _ | .refreshActive _ _ => True
  | _ => False

/-- What only some requests change. -/
structure Frame (a : Request) (w w' : World) : Prop where
  streams : ¬ OfStreams a → w'.streams = w.streams
  history : ¬ OfHistory a → w'.history = w.history
  index : ¬ OfIndex a → w'.userSessions = w.userSessions
  active : ¬ OfActive a → w'.activeSessions = w.activeSessions

theorem frame_answered {c : Outside} {w w' : World} {a : Request} {r : Answer a}
    (h : answer c w a = some (r, w')) : Frame a w w' := by
  unfold answer at h
  split at h
  · cases a with
    | now | sleep | checkStream =>
      cases h
      exact ⟨fun _ => rfl, fun _ => rfl, fun _ => rfl, fun _ => rfl⟩
    | randomUUID =>
      dsimp only [reply] at h
      split at h <;> cases h
      exact ⟨fun _ => rfl, fun _ => rfl, fun _ => rfl, fun _ => rfl⟩
    | get | del | scanKeys | sMembers | getActive | generateResponse =>
      obtain ⟨e, -, -, rfl⟩ | ⟨-, -, rfl⟩ := Async.attempt_cases h <;>
        exact ⟨fun _ => rfl, fun _ => rfl, fun _ => rfl, fun _ => rfl⟩
    | setEx =>
      obtain ⟨e, -, -, rfl⟩ | ⟨-, -, rfl⟩ := Async.attempt_cases h <;>
        exact ⟨fun _ => rfl, fun h => absurd trivial h, fun _ => rfl, fun _ => rfl⟩
    | sRem =>
      obtain ⟨e, -, -, rfl⟩ | ⟨-, -, rfl⟩ := Async.attempt_cases h <;>
        exact ⟨fun _ => rfl, fun _ => rfl, fun h => absurd trivial h, fun _ => rfl⟩
    | sAdd =>
      obtain ⟨e, -, -, rfl⟩ | ⟨-, -, rfl⟩ := Async.attempt_cases h
      · exact ⟨fun _ => rfl, fun _ => rfl, fun _ => rfl, fun _ => rfl⟩
      · split <;> exact ⟨fun _ => rfl, fun _ => rfl, fun h => absurd trivial h, fun _ => rfl⟩
    | expire =>
      obtain ⟨e, -, -, rfl⟩ | ⟨-, -, rfl⟩ := Async.attempt_cases h
      · exact ⟨fun _ => rfl, fun _ => rfl, fun _ => rfl, fun _ => rfl⟩
      · unfold World.expireMembers
        split <;> exact ⟨fun _ => rfl, fun _ => rfl, fun h => absurd trivial h, fun _ => rfl⟩
    | setActive | delActive =>
      obtain ⟨e, -, -, rfl⟩ | ⟨-, -, rfl⟩ := Async.attempt_cases h <;>
        exact ⟨fun _ => rfl, fun _ => rfl, fun _ => rfl, fun h => absurd trivial h⟩
    | refreshActive =>
      obtain ⟨e, -, -, rfl⟩ | ⟨-, -, rfl⟩ := Async.attempt_cases h
      · exact ⟨fun _ => rfl, fun _ => rfl, fun _ => rfl, fun _ => rfl⟩
      · split <;> exact ⟨fun _ => rfl, fun _ => rfl, fun _ => rfl, fun h => absurd trivial h⟩
    | startStream | interrupt =>
      cases h
      exact ⟨fun h => absurd trivial h, fun h => absurd trivial h, fun _ => rfl, fun _ => rfl⟩
    | emitResponding | emitComplete =>
      cases h
      exact ⟨fun _ => rfl, fun h => absurd trivial h, fun _ => rfl, fun _ => rfl⟩
    | emitChunk =>
      dsimp only [reply] at h
      split at h <;> cases h <;>
        exact ⟨fun h => absurd trivial h, fun h => absurd trivial h, fun _ => rfl, fun _ => rfl⟩
    | beginCompletion =>
      dsimp only [reply] at h
      split at h <;> cases h <;>
        exact ⟨fun h => absurd trivial h, fun _ => rfl, fun _ => rfl, fun _ => rfl⟩
    | deleteStream =>
      cases h
      exact ⟨fun h => absurd trivial h, fun _ => rfl, fun _ => rfl, fun _ => rfl⟩
  · cases h

/-! ## What an answer does to the sessions -/

section Answers

variable {c : Outside} {w w' : World} {a : Request} {r : Answer a}

theorem answer_cases (h : answer c w a = some (r, w')) :
    w.now ≤ c.now ∧ reply c (w.tick c.now) a = some (r, w') := by
  unfold answer at h
  split at h
  · next hle => exact ⟨hle, h⟩
  · cases h

/-- The sessions, and what is told of them, are as they were. -/
structure World.SameSessions (w w' : World) : Prop where
  sessions : w'.sessions = w.sessions
  created : w'.created = w.created
  terminated : w'.terminated = w.terminated
  now : w'.now = w.now

theorem World.SameSessions.session (h : w.SameSessions w') (sessionId : Uuid) :
    w'.session sessionId = w.session sessionId := by
  unfold World.session
  rw [h.sessions, h.now]

/-- **An answer** leaves the sessions as they are, writes one or removes one. -/
theorem sessions_answered (h : answer c w a = some (r, w')) :
    (w.tick c.now).SameSessions w' ∨
    (∃ session m, a = .setEx session m ∧ HEq r (Except.ok () : Except String Unit) ∧
      w' = (w.tick c.now).save session m) ∨
    ∃ sessionId, a = .del sessionId ∧ w' = (w.tick c.now).remove sessionId := by
  obtain ⟨-, h⟩ := answer_cases h
  cases a with
  | setEx session m =>
    obtain ⟨e, -, -, rfl⟩ | ⟨-, rfl, rfl⟩ := Async.attempt_cases h
    · exact .inl ⟨rfl, rfl, rfl, rfl⟩
    · exact .inr (.inl ⟨session, m, rfl, .rfl, rfl⟩)
  | del sessionId =>
    obtain ⟨e, -, -, rfl⟩ | ⟨-, -, rfl⟩ := Async.attempt_cases h
    · exact .inl ⟨rfl, rfl, rfl, rfl⟩
    · exact .inr (.inr ⟨sessionId, rfl, rfl⟩)
  | get _ _ | scanKeys | sMembers _ _ | getActive _ | generateResponse _ _ _ _ =>
    obtain ⟨e, -, -, rfl⟩ | ⟨-, -, rfl⟩ := Async.attempt_cases h <;> exact .inl ⟨rfl, rfl, rfl, rfl⟩
  | sRem _ _ | setActive _ _ _ | delActive _ =>
    obtain ⟨e, -, -, rfl⟩ | ⟨-, -, rfl⟩ := Async.attempt_cases h <;> exact .inl ⟨rfl, rfl, rfl, rfl⟩
  | sAdd _ _ | refreshActive _ _ =>
    obtain ⟨e, -, -, rfl⟩ | ⟨-, -, rfl⟩ := Async.attempt_cases h
    · exact .inl ⟨rfl, rfl, rfl, rfl⟩
    · split <;> exact .inl ⟨rfl, rfl, rfl, rfl⟩
  | expire userId seconds =>
    obtain ⟨e, -, -, rfl⟩ | ⟨-, -, rfl⟩ := Async.attempt_cases h
    · exact .inl ⟨rfl, rfl, rfl, rfl⟩
    · unfold World.expireMembers
      split <;> exact .inl ⟨rfl, rfl, rfl, rfl⟩
  | randomUUID | emitChunk _ _ _ _ _ | beginCompletion _ =>
    dsimp only [reply] at h
    split at h <;> cases h <;> exact .inl ⟨rfl, rfl, rfl, rfl⟩
  | now | sleep _ | startStream _ _ _ | checkStream _ | emitResponding _ _ _ | interrupt _ _ _ _
  | emitComplete _ _ _ _ | deleteStream _ =>
    cases h
    exact .inl ⟨rfl, rfl, rfl, rfl⟩

/-- What has been created changes only when a session is saved. -/
theorem created_answered (h : answer c w a = some (r, w')) :
    w'.created = w.created ∨ ∃ session m, a = .setEx session m ∧
      HEq r (Except.ok () : Except String Unit) ∧ m.read = none ∧
      w'.created = (session.id, session.userId) :: w.created := by
  obtain hcase | ⟨session, m, rfl, hr, rfl⟩ | ⟨key, rfl, rfl⟩ := sessions_answered h
  · exact .inl hcase.created
  · by_cases hnone : m.read = none
    · exact .inr ⟨session, m, rfl, hr, hnone, if_pos hnone⟩
    · exact .inl (if_neg hnone)
  · exact .inl rfl

theorem session_save {session : VoiceSession} {m : Memory} (httl : 0 < session.ttl)
    (sessionId : Uuid) : (w.save session m).session sessionId =
      if sessionId = session.id then some session else w.session sessionId := by
  have hlive : Expiring.Live w.now (⟨session, some (w.now + session.ttl * 1000)⟩ :
      Expiring VoiceSession) = true := by
    unfold Expiring.Live
    rw [Option.all_some, decide_eq_true_eq]
    omega
  show Expiring.read w.now (w.sessions.insert _ _) sessionId = _
  rw [Expiring.read_insert, if_pos hlive]
  rfl

theorem session_remove (key sessionId : Uuid) : (w.remove key).session sessionId =
    if sessionId = key then none else w.session sessionId :=
  Expiring.read_erase

theorem session_of_tick {now : Int} (hle : w.now ≤ now) {sessionId : Uuid} {s : VoiceSession}
    (h : (w.tick now).session sessionId = some s) : w.session sessionId = some s :=
  Expiring.read_of_le hle h

/-- Sessions are stored under their ids. -/
def World.Sound (w : World) : Prop := ∀ sessionId s, w.session sessionId = some s → s.id = sessionId

theorem sound_answered (hsound : w.Sound) (h : answer c w a = some (r, w')) : w'.Sound := by
  have hold : ∀ sessionId s, (w.tick c.now).session sessionId = some s → s.id = sessionId :=
    fun sessionId s hs => hsound sessionId s (session_of_tick (answer_cases h).1 hs)
  intro sessionId s hs
  obtain hcase | ⟨session, m, rfl, -, rfl⟩ | ⟨key, rfl, rfl⟩ := sessions_answered h
  · rw [hcase.session] at hs
    exact hold sessionId s hs
  · have hread : Expiring.read _ ((w.tick c.now).sessions.insert _ _) sessionId = some s := hs
    rw [Expiring.read_insert] at hread
    split at hread
    · next hid =>
      split at hread
      · cases hread
        exact hid.symm
      · cases hread
    · exact hold sessionId s hread
  · rw [session_remove] at hs
    split at hs
    · cases hs
    · exact hold sessionId s hs

/-- So what is read has the id that was asked for. -/
theorem id_of_get (hsound : w.Sound) {sessionId : Uuid} {m : Memory}
    {r : Answer (.get sessionId m)} (h : answer c w (.get sessionId m) = some (r, w')) :
    ∀ s, (r : Except String (Option VoiceSession)) = .ok (some s) → s.id = sessionId := by
  rintro s rfl
  obtain ⟨hle, h⟩ := answer_cases h
  obtain ⟨e, -, hr, -⟩ | ⟨-, hr, -⟩ := Async.attempt_cases h
  · cases hr
  · exact hsound sessionId s (session_of_tick hle (Except.ok.inj hr).symm)

theorem uuids_answered (h : answer c w a = some (r, w')) : w.uuids ⊆ w'.uuids := by
  obtain ⟨-, h⟩ := answer_cases h
  cases a with
  | randomUUID =>
    dsimp only [reply] at h
    split at h <;> cases h
    exact List.subset_cons_self _ _
  | setEx _ _ | del _ | get _ _ | scanKeys | sMembers _ _ | getActive _ | generateResponse _ _ _ _
  | sRem _ _ | setActive _ _ _ | delActive _ =>
    obtain ⟨e, -, -, rfl⟩ | ⟨-, -, rfl⟩ := Async.attempt_cases h <;> exact List.Subset.refl _
  | sAdd _ _ | refreshActive _ _ =>
    obtain ⟨e, -, -, rfl⟩ | ⟨-, -, rfl⟩ := Async.attempt_cases h
    · exact List.Subset.refl _
    · split <;> exact List.Subset.refl _
  | expire userId seconds =>
    obtain ⟨e, -, -, rfl⟩ | ⟨-, -, rfl⟩ := Async.attempt_cases h
    · exact List.Subset.refl _
    · unfold World.expireMembers
      split <;> exact List.Subset.refl _
  | emitChunk _ _ _ _ _ | beginCompletion _ =>
    dsimp only [reply] at h
    split at h <;> cases h <;> exact List.Subset.refl _
  | now | sleep _ | startStream _ _ _ | checkStream _ | emitResponding _ _ _ | interrupt _ _ _ _
  | emitComplete _ _ _ _ | deleteStream _ =>
    cases h
    exact List.Subset.refl _

/-- A UUID is drawn once. -/
theorem uuid_answered {id : Answer .randomUUID} (h : answer c w .randomUUID = some (id, w')) :
    id ∉ w.uuids ∧ id ∈ w'.uuids := by
  obtain ⟨-, h⟩ := answer_cases h
  dsimp only [reply] at h
  split at h
  · cases h
  · next hnew =>
    cases h
    exact ⟨hnew, List.mem_cons_self⟩

end Answers

end Stellara.Voice
