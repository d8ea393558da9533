import Stellara.Voice.Rules
import Stellara.Voice.Streaming

/-!
# Interrupted streams

A stream that is interrupted is taken out of the active ones, and its task looks there before every
chunk.  It does not look again while it completes the stream:

    generate:    has  chunk  …  has  chunk  has ───────── addMessage  complete
    interrupt:                                 interrupted

Nor does a run that ends early take its stream out, when the session has gone or something is
rejected.  Without both, an interrupted stream stays silent, each stream completes at most once, and
no stream stays active when its run has ended (`streams_silent`).
-/

namespace Stellara.Voice

open Block VoiceSessionService StreamingResponseService
open Async (Answered obeying Apart)

/-- What an interrupted stream does no more. -/
def VoiceEvent.Speaks : VoiceEvent → Prop
  | .chunk _ | .complete _ | .added => True
  | _ => False

def VoiceEvent.Completes : VoiceEvent → Prop
  | .complete _ => True
  | _ => False

instance : DecidablePred VoiceEvent.Completes := fun event => by
  unfold VoiceEvent.Completes
  split <;> infer_instance

instance : DecidablePred VoiceEvent.Speaks := fun event => by
  unfold VoiceEvent.Speaks
  split <;> infer_instance

/-- An event of this kind has been emitted for the stream. -/
def World.Heard (w : World) (streamId : Uuid) (kind : VoiceEvent → Prop) : Prop :=
  ∃ x ∈ w.history, x.streamId = streamId ∧ kind x.event

instance (w : World) (streamId : Uuid) (kind : VoiceEvent → Prop) [DecidablePred kind] :
    Decidable (w.Heard streamId kind) :=
  inferInstanceAs (Decidable (∃ _ ∈ _, _))

structure Silent (t : StreamSystem) : Prop where
  /-- after it was interrupted, a stream emits no chunk and does not complete, and its text is not
  added to the session -/
  interrupted : t.world.history.Pairwise fun x y =>
    x.event = .interrupted → y.streamId = x.streamId → ¬ y.event.Speaks
  once : t.world.history.Pairwise fun x y =>
    x.event.Completes → y.event.Completes → y.streamId ≠ x.streamId
  /-- a stream whose run has ended is not active -/
  ended : ∀ (i : Nat) streamId thrown,
    t.tasks[i]? = some (.done (.ok (.streamed streamId thrown))) → t.world.stream streamId = none
  quiet : t.Quiet → t.world.streams = []

/-- The session of an active stream is there when its run begins and after its chunks, nothing that
a run with an active stream asks for is rejected, and a stream that is completing is interrupted
only after it has completed. -/
def Undivided (c : Outside) (w : World) : Request → Prop
  | .get sessionId m => ∀ streamId ∈ m.stream, ∀ s ∈ w.stream streamId, s.endTime = none →
    (m.read = none ∨ s.chunks ≠ []) → c.rejects = none ∧ (w.session sessionId).isSome
  | .setEx _ m | .generateResponse _ _ _ m =>
    ∀ streamId ∈ m.stream, (w.stream streamId).isSome → c.rejects = none
  | .interrupt streamId _ sessionId _ => ∀ s ∈ w.streams, World.concerns sessionId streamId s →
    s.endTime ≠ none → w.Heard s.id VoiceEvent.Completes
  | _ => True

instance (c : Outside) (w : World) : DecidablePred (Undivided c w) := fun a => by
  induction a using Request.casesOn <;> unfold Undivided <;> infer_instance

abbrev StepUndivided (e : Event Outside (Async.Move StreamOperation) Unit StreamSystem) : Prop :=
  Async.Meets (fun (c : Outside) (w : World) => Undivided c (w.tick c.now)) e

namespace Silence

/-! ## The way of a call -/

inductive Phase
  | idle
  /-- a UUID has been drawn -/
  | drawn
  /-- the stream is active -/
  | started
  | running
  /-- a chunk has been emitted -/
  | spoken
  | completing
  | completed
  /-- the run of the stream has ended -/
  | silent
deriving DecidableEq

/-- The stream is active, unless it was interrupted. -/
def Phase.Live : Phase → Prop
  | .started | .running | .spoken | .completing | .completed => True
  | _ => False

/-- The stream may yet emit chunks. -/
def Phase.Open : Phase → Prop
  | .started | .running | .spoken => True
  | _ => False

structure Point where
  stream : Option Uuid := none
  phase : Phase := .idle

/-- The stream that the task remembers. -/
def Point.memory (g : Point) : Option Uuid :=
  match g.phase with
  | .idle | .drawn => none
  | _ => g.stream

def Point.end (g : Point) : Point := { g with phase := .silent }

def asks (g : Point) : Request → Prop
  | .get _ m => m.stream = g.memory ∧ (g.phase = .started → m.read = none)
  | .setEx session m => m.stream = g.memory ∧ ∀ message ∈ World.newMessages session m,
    ∀ streamId, message.stream = some streamId → g = ⟨some streamId, .completing⟩
  | .generateResponse _ _ _ m => m.stream = g.memory
  | .startStream streamId _ _ => g = ⟨some streamId, .drawn⟩
  | .checkStream streamId | .emitResponding streamId _ _ => g = ⟨some streamId, .running⟩
  | .emitChunk streamId _ _ _ _ => g = ⟨some streamId, .running⟩ ∨ g = ⟨some streamId, .spoken⟩
  | .interrupt _ _ _ _ => g = {}
  | .beginCompletion streamId => g = ⟨some streamId, .spoken⟩
  | .emitComplete streamId _ _ _ => g = ⟨some streamId, .completing⟩
  | .deleteStream streamId => g = ⟨some streamId, .completed⟩
  | _ => True

def told : (a : Request) → Answer a → Prop
  | .get sessionId _, r =>
    ∀ s, (r : Except String (Option VoiceSession)) = .ok (some s) → s.id = sessionId
  | _, _ => True

/-- The session is looked for. -/
def Point.get (g : Point) (found : Bool) : Point :=
  match g.phase, found with
  | .started, true => { g with phase := .running }
  | .started, false | .spoken, false => g.end
  | _, _ => g

/-- Something is rejected. -/
def Point.reject (g : Point) : Point :=
  match g.phase with
  | .idle | .drawn => g
  | _ => g.end

def next (g : Point) : (a : Request) → Answer a → Point
  | .randomUUID, id => if g.phase = .idle then ⟨some id, .drawn⟩ else g
  | .get _ _, .ok (some _) => g.get true
  | .get _ _, _ => g.get false
  | .setEx _ _, .error _ | .generateResponse _ _ _ _, .error _ => g.reject
  | .startStream _ _ _, _ => { g with phase := .started }
  | .emitChunk _ _ _ _ _, true => { g with phase := .spoken }
  | .beginCompletion _, true => { g with phase := .completing }
  | .checkStream _, false | .emitChunk _ _ _ _ _, false | .beginCompletion _, false => g.end
  | .emitComplete _ _ _ _, _ => { g with phase := .completed }
  | .deleteStream _, _ => g.end
  | _, _ => g

abbrev protocol : Protocol Request Answer Point := ⟨asks, fun _ => told, next⟩

/-- A call that has ended leaves no stream active. -/
def End (x : Except String StreamReply) (g : Point) : Prop :=
  ¬ g.phase.Live ∧
    ∀ streamId thrown, x = .ok (.streamed streamId thrown) → g = ⟨some streamId, .silent⟩

section Programs

variable {α : Type} {m : Memory} {g : Point}

/-! ### Calls without a stream -/

/-- No stream is active, and none is remembered. -/
def Waits (m : Memory) (g : Point) : Prop :=
  m.stream = none ∧ (g.phase = .idle ∨ g.phase = .drawn)

theorem Waits.memory (h : Waits m g) : m.stream = g.memory := by
  obtain ⟨hm, hphase⟩ := h
  unfold Point.memory
  rcases hphase with hphase | hphase <;> rw [hm, hphase]

theorem Waits.get (h : Waits m g) (found : Bool) : g.get found = g := by
  unfold Point.get
  rcases h.2 with hphase | hphase <;> rw [hphase]

theorem Waits.reject (h : Waits m g) : g.reject = g := by
  unfold Point.reject
  rcases h.2 with hphase | hphase <;> rw [hphase]

theorem Waits.draw (h : Waits m g) (id : Uuid) : Waits m (next g .randomUUID id) := by
  refine ⟨h.1, .inr ?_⟩
  unfold next
  dsimp only
  split
  · rfl
  · next hidle => exact h.2.resolve_left hidle

theorem Waits.asks_get (h : Waits m g) (sessionId : Uuid) : asks g (.get sessionId m) := by
  refine ⟨h.memory, fun hstarted => ?_⟩
  rcases h.2 with hphase | hphase <;> rw [hphase] at hstarted <;> cases hstarted

/-- What is read does not matter. -/
theorem Waits.read (h : Waits m g) (read : Option VoiceSession) :
    Waits { m with read := read } g := h

theorem newMessages_of_follows {r session : VoiceSession} (hread : m.read = some r)
    (hfollows : Follows r session) : World.newMessages session m = [] := by
  unfold World.newMessages
  rw [hread, hfollows.messages]
  exact List.drop_length

theorem newMessages_of_extends {r session : VoiceSession} (hread : m.read = some r)
    (hextends : Extends m r session) : ∃ message, message.stream = m.stream ∧
      World.newMessages session m = [message] := by
  obtain ⟨message, hstream, hmessages⟩ := hextends.messages
  refine ⟨message, hstream, ?_⟩
  unfold World.newMessages
  rw [hread, hmessages]
  exact List.drop_left

theorem Waits.wrote (h : Waits m g) (session : VoiceSession) (x : Except String Unit) :
    Written Waits Waits m x (next g (.setEx session m) x) := by
  match x with
  | .ok () => exact h
  | .error _ =>
    show Waits m g.reject
    rw [h.reject]
    exact h

theorem waiting : SessionRules (obeying protocol) (fun _ => Waits) (fun _ => Waits)
    (fun s m g => m.read = some s ∧ Waits m g) (fun _ => Waits) where
  of_held h := h.2
  at_of h := h
  draw ha hheld := by
    rcases ha with rfl | rfl
    · exact ⟨trivial, fun _ _ => hheld⟩
    · exact ⟨trivial, fun id _ => ⟨hheld.1, hheld.2.draw id⟩⟩
  get {sessionId m g} h := by
    refine ⟨h.asks_get sessionId, fun r hr => ?_⟩
    match r, hr with
    | .error _, _ =>
      show Waits _ (g.get false)
      rw [h.get]
      exact h
    | .ok none, _ =>
      show Waits _ (g.get false)
      rw [h.get]
      exact h
    | .ok (some s), hr =>
      refine ⟨hr s rfl, rfl, ?_⟩
      show Waits _ (g.get true)
      rw [h.get]
      exact h
  save {r session m g} hheld hfollows := by
    obtain ⟨hread, h⟩ := hheld
    refine ⟨⟨h.memory, ?_⟩, fun x _ => h.wrote session x⟩
    rw [newMessages_of_follows hread hfollows]
    exact fun _ hmem => by cases hmem
  remove h := ⟨trivial, fun _ _ => h.2⟩
  index {a s m g} ha h := by
    cases a with
    | sRem | getActive | delActive =>
      exact ⟨trivial, fun _ _ => h⟩
    | _ => exact ha.elim

theorem waiting_add (r session : VoiceSession) (m : Memory) (g : Point)
    (hheld : m.read = some r ∧ Waits m g) (hextends : Extends m r session) :
    (obeying protocol).pre (.setEx session m) (fun x g' => Written Waits Waits m x g') g := by
  obtain ⟨hread, h⟩ := hheld
  refine ⟨⟨h.memory, fun message hmem streamId hstream => ?_⟩, fun x _ => h.wrote session x⟩
  obtain ⟨added, hadded, hnew⟩ := newMessages_of_extends hread hextends
  rw [hnew] at hmem
  rw [List.mem_singleton.mp hmem, hadded, h.1] at hstream
  cases hstream

/-- No stream becomes active. -/
abbrev Safe (block : On α) : Prop := Preserves (obeying protocol) Waits Waits block

theorem getSession_safe {sessionId : Uuid} : Safe (getSession sessionId) := by
  intro m g h
  refine wp_mono (fun x m g hx => ?_) (fun _ _ _ h => h.elim) (waiting.getSession h)
  cases x with
  | none => exact hx
  | some s => exact hx.2.2

theorem getSessions_safe (ids : List Uuid) : Safe (getSessions ids) := by
  induction ids with
  | nil => exact .pure
  | cons id ids ih => exact getSession_safe.bind fun _ => ih.bind fun _ => .pure

theorem getUserActiveSessions_safe {userId : String} : Safe (getUserActiveSessions userId) := by
  refine .tryCatch (F := Waits) (.bind ?_ fun ids => getSessions_safe ids) fun _ _ _ h => h
  refine fun m g h => ⟨trivial, fun r _ => ?_⟩
  match r with
  | .error e => exact h
  | .ok (ids, created) => exact h

theorem addUserSession_safe {userId : String} {sessionId : Uuid} :
    Safe (addUserSession userId sessionId) :=
  .bind (.request (fun _ _ h => h) fun _ _ h => ⟨trivial, fun _ _ => h⟩) fun _ =>
    .request (fun _ _ h => h) fun _ _ h => ⟨trivial, fun _ _ => h⟩

theorem saveSession_obeys (h : Waits m g) {session : VoiceSession}
    (hmessages : World.newMessages session m = []) :
    wp (obeying protocol) (saveSession session) (fun _ => Waits) (fun _ => Waits) m g := by
  have hwrote := fun x => h.wrote session x
  refine ⟨⟨h.memory, ?_⟩, fun x _ => ?_⟩
  · rw [hmessages]
    exact fun _ hmem => by cases hmem
  · have hthis := hwrote x
    match x with
    | .error _ => exact hthis
    | .ok () => exact hthis

/-- A new session has no messages. -/
theorem createSession_safe {userId : String} {context : FeatureContext}
    {walletAddress metadata : Option String} :
    Safe (createSession userId context walletAddress metadata) := by
  refine getUserActiveSessions_safe.bind fun sessions => ?_
  split
  · exact .throw fun _ _ h => h
  · intro m g h
    unfold VoiceSession.create
    rw [wp_bind, wp_bind]
    refine ⟨trivial, fun now _ => ?_⟩
    show wp (obeying protocol) (uuidv4 >>= fun id => _) _ _ m g
    rw [wp_bind]
    refine ⟨trivial, fun id _ => ?_⟩
    have hdrawn := (h.draw id).read none
    show wp (obeying protocol) (saveSession _ >>= fun _ => _) _ _ { m with read := none }
      (next g .randomUUID id)
    rw [wp_bind]
    refine wp_mono ?_ (fun _ _ _ h => h) (saveSession_obeys hdrawn rfl)
    exact fun _ _ _ hsaved => addUserSession_safe.bind (fun _ => .pure) _ _ hsaved

theorem cleanupWhere_safe {due : Int → VoiceSession → Bool} : Safe (cleanupWhere due) := by
  refine waiting.cleanupWhere_preserves (fun _ _ _ => Iff.rfl) fun a m g ha h => ?_
  rcases ha with rfl | rfl <;> exact ⟨trivial, fun _ _ => h⟩

theorem addMessage_safe {sessionId : Uuid} {content : String} {isUser : Bool}
    {metadata : Option String} : Safe (addMessage sessionId content isUser metadata) :=
  waiting.addMessage_preserves fun r session m g _ => waiting_add r session m g

theorem block_safe (op : Operation) : Safe op.block := by
  cases op with
  | createSession => exact createSession_safe.bind fun _ => .pure
  | addMessage => exact addMessage_safe.bind fun _ => .pure
  | updateSessionState => exact waiting.updateSessionState_preserves.bind fun _ => .pure
  | interruptSession => exact waiting.interruptSession_preserves.bind fun _ => .pure
  | resumeSession => exact waiting.resumeSession_preserves.bind fun _ => .pure
  | terminateSession => exact waiting.terminateSession_preserves.bind fun _ => .pure
  | updateSessionSocket => exact waiting.updateSessionSocket_preserves.bind fun _ => .pure
  | updateLastPingAt => exact waiting.updateLastPingAt_preserves.bind fun _ => .pure
  | cleanupStaleSessions => exact Preserves.bind cleanupWhere_safe fun _ => .pure
  | cleanupExpiredSessions => exact Preserves.bind cleanupWhere_safe fun _ => .pure

/-- An interruption is asked for by a task without a stream. -/
theorem interruptStream_obeys {sessionId : Uuid} {streamId : Option Uuid} :
    wp (obeying protocol) (interruptStream sessionId streamId) (fun _ => Waits) (fun _ => Waits)
      {} {} := by
  have hwaits : Waits {} {} := ⟨rfl, .inl rfl⟩
  unfold interruptStream getSession
  rw [wp_bind, wp_tryCatch]
  refine ⟨hwaits.asks_get sessionId, fun r _ => ?_⟩
  match r with
  | .error _ => exact hwaits
  | .ok none => exact hwaits
  | .ok (some s) =>
    refine ⟨rfl, fun _ _ => ?_⟩
    exact waiting.interruptSession_preserves.bind (fun _ => .pure) { read := some s } {} hwaits

/-! ### The run of a stream -/

/-- The task is in this phase of its stream. -/
def In (streamId : Uuid) (phase : Phase) (m : Memory) (g : Point) : Prop :=
  m.stream = g.memory ∧ g = ⟨some streamId, phase⟩

/-- The run of the stream has ended. -/
def Ended (streamId : Uuid) (_ : Memory) (g : Point) : Prop := g = ⟨some streamId, .silent⟩

/-- Where sessions are read and written, and the run goes on whether they are there or not. -/
def Phase.Steady : Phase → Prop
  | .drawn | .running | .completing | .completed => True
  | _ => False

/-- Something was rejected in this phase. -/
def Rejected (streamId : Uuid) (phase : Phase) (_ : Memory) (g : Point) : Prop :=
  g = (⟨some streamId, phase⟩ : Point).reject

variable {streamId : Uuid} {phase : Phase}

theorem in_wrote (h : In streamId phase m g) (session : VoiceSession) (x : Except String Unit) :
    Written (In streamId phase) (Rejected streamId phase) m x (next g (.setEx session m) x) := by
  obtain ⟨hm, rfl⟩ := h
  match x with
  | .ok () => exact ⟨hm, rfl⟩
  | .error _ => rfl

theorem in_get (hsteady : phase.Steady) (found : Bool) :
    (⟨some streamId, phase⟩ : Point).get found = ⟨some streamId, phase⟩ := by
  cases phase <;> first | rfl | cases hsteady

theorem streaming (hsteady : phase.Steady) : SessionRules (obeying protocol)
    (fun _ => In streamId phase) (fun _ => Rejected streamId phase)
    (fun s m g => m.read = some s ∧ In streamId phase m g) (fun _ => In streamId phase) where
  of_held h := h.2
  at_of h := h
  draw {a s m g} ha hheld := by
    rcases ha with rfl | rfl
    · exact ⟨trivial, fun _ _ => hheld⟩
    · refine ⟨trivial, fun id _ => ?_⟩
      have hsame : next g .randomUUID id = g := by
        refine if_neg ?_
        rw [hheld.2.2]
        rintro (rfl : phase = .idle)
        exact hsteady
      show m.read = some s ∧ In streamId phase m (next g .randomUUID id)
      rw [hsame]
      exact hheld
  get {sessionId m g} h := by
    obtain ⟨hm, rfl⟩ := h
    refine ⟨⟨hm, ?_⟩, fun r hr => ?_⟩
    · rintro (rfl : phase = .started)
      exact hsteady.elim
    · match r, hr with
      | .error _, _ =>
        show In _ _ _ (Point.get _ false)
        rw [in_get hsteady]
        exact ⟨hm, rfl⟩
      | .ok none, _ =>
        show In _ _ _ (Point.get _ false)
        rw [in_get hsteady]
        exact ⟨hm, rfl⟩
      | .ok (some s), hr =>
        refine ⟨hr s rfl, rfl, ?_⟩
        show In _ _ _ (Point.get _ true)
        rw [in_get hsteady]
        exact ⟨hm, rfl⟩
  save {r session m g} hheld hfollows := by
    obtain ⟨hread, h⟩ := hheld
    refine ⟨⟨h.1, ?_⟩, fun x _ => in_wrote h session x⟩
    rw [newMessages_of_follows hread hfollows]
    exact fun _ hmem => by cases hmem
  remove h := ⟨trivial, fun _ _ => h.2⟩
  index {a s m g} ha h := by
    cases a with
    | sRem | getActive | delActive =>
      exact ⟨trivial, fun _ _ => h⟩
    | _ => exact ha.elim

/-- The user's message is added before the stream starts, and its own text while it completes. -/
theorem addMessage_streaming (hphase : phase = .drawn ∨ phase = .completing) {sessionId : Uuid}
    {content : String} {isUser : Bool} {metadata : Option String} :
    Preserves (obeying protocol) (In streamId phase) (Rejected streamId phase)
      (addMessage sessionId content isUser metadata) := by
  have hsteady : phase.Steady := by
    rcases hphase with rfl | rfl <;> trivial
  refine (streaming hsteady).addMessage_preserves fun r session m g _ hheld hextends => ?_
  obtain ⟨hread, h⟩ := hheld
  refine ⟨⟨h.1, fun message hmem added hstream => ?_⟩, fun x _ => in_wrote h session x⟩
  obtain ⟨message', hthis, hnew⟩ := newMessages_of_extends hread hextends
  obtain ⟨hm, rfl⟩ := h
  rw [hnew] at hmem
  rw [List.mem_singleton.mp hmem, hthis, hm] at hstream
  rcases hphase with rfl | rfl
  · cases hstream
  · rw [← Option.some.inj hstream]

/-- The session is there, or the run ends. -/
theorem getSession_obeys {sessionId : Uuid} {Q : Option VoiceSession → Memory → Point → Prop}
    {E : String → Memory → Point → Prop} (hasks : asks g (.get sessionId m))
    (hnone : Q none { m with read := none } (g.get false))
    (hsome : ∀ s, Q (some s) { m with read := some s } (g.get true)) :
    wp (obeying protocol) (getSession sessionId) Q E m g := by
  unfold getSession
  rw [wp_tryCatch]
  refine ⟨hasks, fun r _ => ?_⟩
  match r with
  | .error _ => exact hnone
  | .ok none => exact hnone
  | .ok (some s) => exact hsome s

theorem words_ne_nil (text : String) : words text ≠ [] := by
  unfold words
  rw [Ne, List.map_eq_nil_iff]
  exact List.splitOn_ne_nil _ _

/-- A stream whose chunks are all emitted has spoken; otherwise its run ends. -/
theorem emitChunks_obeys {room : String} {sessionId : Uuid} (rest : List String) :
    ∀ text isFirst m g, m.stream = some streamId →
      g = ⟨some streamId, .running⟩ ∧ rest ≠ [] ∨ g = ⟨some streamId, .spoken⟩ →
      wp (obeying protocol) (emitChunks streamId room sessionId text isFirst rest)
        (fun finished m g => m.stream = some streamId ∧
          g = ⟨some streamId, if finished then .spoken else .silent⟩)
        (fun _ _ _ => False) m g := by
  induction rest with
  | nil =>
    intro text isFirst m g hm hg
    exact ⟨hm, hg.resolve_left fun h => h.2 rfl⟩
  | cons word rest ih =>
    intro text isFirst m g hm hg
    unfold emitChunks
    rw [wp_bind]
    refine ⟨hg.imp And.left id, fun r _ => ?_⟩
    have hstream : g.stream = some streamId := by
      rcases hg with ⟨rfl, -⟩ | rfl <;> rfl
    match r with
    | false =>
      refine ⟨hm, ?_⟩
      show (⟨g.stream, .silent⟩ : Point) = _
      rw [hstream]
      rfl
    | true =>
      show wp (obeying protocol) (if rest.isEmpty = true then _ else _) _ _ m
        ⟨g.stream, .spoken⟩
      rw [hstream]
      split
      · exact ⟨hm, rfl⟩
      · rw [wp_bind]
        exact ⟨trivial, fun _ _ => ih _ _ _ _ hm (.inr rfl)⟩

theorem completeStreamingResponse_obeys {sessionId : Uuid} {fullResponse : String}
    (h : In streamId .spoken m g) :
    wp (obeying protocol) (completeStreamingResponse sessionId streamId fullResponse)
      (fun _ => Ended streamId) (fun _ => Ended streamId) m g := by
  obtain ⟨hm, rfl⟩ := h
  unfold completeStreamingResponse
  rw [wp_bind]
  refine getSession_obeys ⟨hm, fun h => by cases h⟩ rfl fun session => ?_
  dsimp only
  rw [wp_bind]
  refine ⟨rfl, fun r _ => ?_⟩
  match r with
  | false => rfl
  | true =>
    show wp (obeying protocol) (addMessage sessionId fullResponse false none >>= fun _ => _) _ _ _
      ⟨some streamId, .completing⟩
    rw [wp_bind]
    refine wp_mono ?_ (fun _ _ _ h => h) (addMessage_streaming (.inr rfl) _ _ ⟨hm, rfl⟩)
    rintro _ m' g' ⟨hm', rfl⟩
    rw [wp_bind]
    refine ⟨rfl, fun _ _ => ?_⟩
    show wp (obeying protocol) (updateSessionState sessionId .listening >>= fun _ => _) _ _ _
      ⟨some streamId, .completed⟩
    rw [wp_bind]
    have hsteady : Phase.completed.Steady := trivial
    refine wp_mono ?_ (fun _ _ _ h => h)
      ((streaming hsteady).updateSessionState_preserves _ _ ⟨hm', rfl⟩)
    rintro _ m'' g'' ⟨-, rfl⟩
    exact ⟨rfl, fun _ _ => rfl⟩

theorem generateStreamingResponse_obeys {sessionId : Uuid} {userMessage : String} :
    wp (obeying protocol) (generateStreamingResponse sessionId streamId userMessage)
      (fun _ => Ended streamId) (fun _ => Ended streamId) { stream := some streamId }
      ⟨some streamId, .started⟩ := by
  unfold generateStreamingResponse
  rw [wp_bind]
  refine getSession_obeys ⟨rfl, fun _ => rfl⟩ rfl fun session => ?_
  dsimp only
  rw [wp_bind]
  refine ⟨rfl, fun r _ => ?_⟩
  match r with
  | false => rfl
  | true =>
    show wp (obeying protocol) (updateSessionState sessionId .responding >>= fun _ => _) _ _ _
      ⟨some streamId, .running⟩
    rw [wp_bind]
    have hsteady : Phase.running.Steady := trivial
    refine wp_mono ?_ (fun _ _ _ h => h)
      ((streaming hsteady).updateSessionState_preserves _ _ ⟨rfl, rfl⟩)
    rintro _ m g ⟨hm, rfl⟩
    rw [wp_bind]
    refine ⟨hm, fun r _ => ?_⟩
    match r with
    | .error _ => rfl
    | .ok fullResponse =>
      show wp (obeying protocol) (request _ _ >>= fun _ => _) _ _ m ⟨some streamId, .running⟩
      rw [wp_bind]
      refine ⟨rfl, fun _ _ => ?_⟩
      show wp (obeying protocol) (emitChunks streamId _ sessionId "" true (words fullResponse) >>=
        fun _ => _) _ _ m ⟨some streamId, .running⟩
      rw [wp_bind]
      refine wp_mono ?_ (fun _ _ _ h => h.elim)
        (emitChunks_obeys _ _ _ _ _ hm (.inl ⟨rfl, words_ne_nil fullResponse⟩))
      rintro finished m' g' ⟨hm', rfl⟩
      split
      · exact completeStreamingResponse_obeys ⟨hm', rfl⟩
      · rfl

/-- The entry of the stream is set after everything that may fail. -/
theorem startStreamingResponse_obeys {sessionId : Uuid} {userMessage : String} :
    wp (obeying protocol) (startStreamingResponse sessionId userMessage)
      (fun streamId _ g => g = ⟨some streamId, .started⟩) (fun _ _ g => ¬ g.phase.Live) {} {} := by
  unfold startStreamingResponse
  rw [wp_bind]
  refine ⟨trivial, fun streamId _ => ?_⟩
  have hsteady : Phase.drawn.Steady := trivial
  show wp (obeying protocol) (getSession sessionId >>= fun _ => _) _ _ {} ⟨some streamId, .drawn⟩
  rw [wp_bind]
  refine wp_mono (fun x m g hx => ?_) (fun _ _ _ h => h.elim)
    ((streaming hsteady).getSession ⟨rfl, rfl⟩)
  cases x with
  | none =>
    obtain ⟨-, rfl⟩ := hx
    exact id
  | some session =>
    obtain ⟨-, -, hin⟩ := hx
    dsimp only
    rw [wp_bind]
    refine wp_mono ?_ ?_ (addMessage_streaming (.inl rfl) _ _ hin)
    · intro _ m g hin
      rw [wp_bind]
      refine wp_mono ?_ ?_ ((streaming hsteady).updateSessionState_preserves _ _ hin)
      · rintro _ m g ⟨-, rfl⟩
        exact ⟨rfl, fun _ _ => rfl⟩
      · rintro _ _ _ rfl
        exact id
    · rintro _ _ _ rfl
      exact id

theorem generate_obeys {sessionId : Uuid} {userMessage : String} :
    wp (obeying protocol) (generate sessionId streamId userMessage)
      (fun _ _ g => g = ⟨some streamId, .silent⟩) (fun _ _ _ => False) ()
      ⟨some streamId, .started⟩ := by
  unfold generate
  rw [wp_tryCatch, wp_bind]
  refine ⟨trivial, fun _ _ => ?_⟩
  show wp (obeying protocol) (call _ _ >>= fun _ => _) _ _ () ⟨some streamId, .started⟩
  rw [wp_bind, wp_call]
  exact wp_mono (fun _ _ _ h => h) (fun _ _ _ h => h) generateStreamingResponse_obeys

theorem end_of_waits {x : Except String StreamReply} (h : Waits m g)
    (hx : ∀ streamId thrown, x ≠ .ok (.streamed streamId thrown)) : End x g := by
  refine ⟨?_, fun streamId thrown hstreamed => absurd hstreamed (hx streamId thrown)⟩
  rcases h.2 with hphase | hphase <;> rw [hphase] <;> exact id

theorem program_obeys (op : StreamOperation) :
    Async.wp (obeying protocol) op.program End {} := by
  refine wp_program.mpr ?_
  cases op with
  | session op =>
    unfold StreamOperation.block
    rw [wp_bind, wp_call]
    refine wp_mono ?_ ?_ (block_safe op {} {} ⟨rfl, .inl rfl⟩)
    · exact fun _ _ _ h => end_of_waits h fun _ _ hx => by cases hx
    · exact fun _ _ _ h => end_of_waits h fun _ _ hx => by cases hx
  | stream sessionId userMessage =>
    unfold StreamOperation.block
    rw [wp_bind, wp_call]
    refine wp_mono ?_ ?_ startStreamingResponse_obeys
    · rintro streamId _ g rfl
      rw [wp_bind]
      refine wp_mono ?_ (fun _ _ _ h => h.elim) generate_obeys
      rintro thrown _ g rfl
      refine ⟨id, fun _ _ hx => ?_⟩
      cases hx
      rfl
    · exact fun _ _ _ h => ⟨h, fun _ _ hx => by cases hx⟩
  | interrupt sessionId streamId =>
    unfold StreamOperation.block
    rw [wp_bind, wp_call]
    refine wp_mono ?_ ?_ interruptStream_obeys
    · exact fun _ _ _ h => end_of_waits h fun _ _ hx => by cases hx
    · exact fun _ _ _ h => end_of_waits h fun _ _ hx => by cases hx

end Programs

/-! ## The invariant -/

/-- The second may follow the first. -/
def Fine (x y : Emission) : Prop := y.streamId = x.streamId →
  (x.event = .interrupted → ¬ y.event.Speaks) ∧ (x.event.Completes → ¬ y.event.Completes)

/-- What there is of the stream of a task in this phase. -/
structure Fits (w : World) (phase : Phase) (streamId : Uuid) : Prop where
  absent : phase = .drawn ∨ phase = .silent → ∀ s ∈ w.streams, s.id ≠ streamId
  unheard : phase = .drawn → ∀ x ∈ w.history, x.streamId ≠ streamId
  active : ∀ s ∈ w.streams, s.id = streamId →
    (s.endTime = none ↔ phase.Open) ∧ (phase = .spoken → s.chunks ≠ [])
  incomplete : phase.Open ∨ phase = .completing → ¬ w.Heard streamId VoiceEvent.Completes
  uninterrupted : phase = .completing → ¬ w.Heard streamId (· = .interrupted)

structure Books (w : World) (gs : List Point) : Prop where
  sound : w.Sound
  uuids : ∀ g ∈ gs, ∀ streamId, g.stream = some streamId → streamId ∈ w.uuids
  heard : ∀ x ∈ w.history, x.streamId ∈ w.uuids
  apart : Apart Point.stream gs
  running : ∀ s ∈ w.streams, ∃ g ∈ gs, g.stream = some s.id ∧ g.phase.Live
  flags : ∀ s ∈ w.streams, s.isInterrupted = false
  unique : ∀ s ∈ w.streams, ∀ s' ∈ w.streams, s'.id = s.id → s' = s
  fits : ∀ g ∈ gs, ∀ streamId, g.stream = some streamId → Fits w g.phase streamId
  interrupted : ∀ s ∈ w.streams, ¬ w.Heard s.id (· = .interrupted)
  fine : w.history.Pairwise Fine

theorem books_init : Books {} [] where
  sound _ _ h := by cases h
  uuids _ h := by cases h
  heard _ h := by cases h
  apart := .nil
  running _ h := by cases h
  flags _ h := by cases h
  unique _ h := by cases h
  fits _ h := by cases h
  interrupted _ h := by cases h
  fine := .nil

variable {w w' : World} {gs : List Point}

theorem Books.start (h : Books w gs) : Books w (gs ++ [({} : Point)]) := by
  have hmem : ∀ g ∈ gs ++ [({} : Point)], ∀ streamId, g.stream = some streamId → g ∈ gs := by
    intro g hg streamId hstream
    rcases List.mem_append.mp hg with hg | hg
    · exact hg
    · rw [List.mem_singleton.mp hg] at hstream
      cases hstream
  refine ⟨h.sound, ?_, h.heard, h.apart.append rfl, ?_, h.flags, h.unique, ?_, h.interrupted,
    h.fine⟩
  · exact fun g hg streamId hstream => h.uuids g (hmem g hg streamId hstream) streamId hstream
  · intro s hs
    obtain ⟨g, hg, hlive⟩ := h.running s hs
    exact ⟨g, List.mem_append_left _ hg, hlive⟩
  · exact fun g hg streamId hstream => h.fits g (hmem g hg streamId hstream) streamId hstream

/-! ### One answer -/

section Step

variable {c : Outside} {a : Request} {r : Answer a} {g g' : Point}

/-- An event of the task's own stream. -/
structure Own (g : Point) (w : World) (y : Emission) : Prop where
  stream : g.stream = some y.streamId
  event : y.event ≠ .interrupted
  speaks : y.event.Speaks → ¬ w.Heard y.streamId (· = .interrupted)
  completes : y.event.Completes → ¬ w.Heard y.streamId VoiceEvent.Completes

/-- An active stream is interrupted. -/
structure Interruption (w w' : World) (y : Emission) : Prop where
  event : y.event = .interrupted
  active : ∃ s ∈ w.streams, s.id = y.streamId ∧
    (s.endTime ≠ none → w.Heard y.streamId VoiceEvent.Completes)
  absent : ∀ s ∈ w'.streams, s.id ≠ y.streamId

/-- What one answer does to the streams, whichever request it is for. -/
structure Moved (g g' : Point) (w w' : World) : Prop where
  others : ∀ s ∈ w'.streams, s ∈ w.streams ∨ g.stream = some s.id
  known : ∀ s ∈ w'.streams, (∃ s₀ ∈ w.streams, s₀.id = s.id) ∨
    g = ⟨some s.id, .drawn⟩ ∧ g' = ⟨some s.id, .started⟩
  flags : ∀ s ∈ w'.streams, s.isInterrupted = false
  unique : ∀ s ∈ w'.streams, ∀ s' ∈ w'.streams, s'.id = s.id → s' = s
  history : ∃ new, w'.history = w.history ++ new ∧ new.Pairwise Fine ∧
    ∀ y ∈ new, Own g w y ∨ Interruption w w' y
  fits : ∀ streamId, g'.stream = some streamId → Fits w' g'.phase streamId

theorem World.heard_append {new : List Emission} (hhistory : w'.history = w.history ++ new)
    {streamId : Uuid} {kind : VoiceEvent → Prop} (h : w'.Heard streamId kind) :
    w.Heard streamId kind ∨ ∃ y ∈ new, y.streamId = streamId ∧ kind y.event := by
  obtain ⟨x, hx, hthis⟩ := h
  rw [hhistory] at hx
  exact (List.mem_append.mp hx).imp (fun hx => ⟨x, hx, hthis⟩) fun hx => ⟨x, hx, hthis⟩

/-- What others have of their streams. -/
theorem Fits.of_moved {phase : Phase} {streamId : Uuid} (h : Fits w phase streamId)
    (hmoved : Moved g g' w w') (hother : g.stream ≠ some streamId) : Fits w' phase streamId := by
  obtain ⟨new, hhistory, -, hnew⟩ := hmoved.history
  have hold : ∀ s ∈ w'.streams, s.id = streamId → s ∈ w.streams := by
    rintro s hs rfl
    exact (hmoved.others s hs).resolve_right hother
  have hinterruption : ∀ y ∈ new, y.streamId = streamId → Interruption w w' y := by
    rintro y hy rfl
    exact (hnew y hy).resolve_left fun hown => hother hown.stream
  refine ⟨?_, ?_, ?_, ?_, ?_⟩
  · exact fun hphase s hs hid => h.absent hphase s (hold s hs hid) hid
  · intro hphase x hx hid
    rw [hhistory] at hx
    rcases List.mem_append.mp hx with hx | hx
    · exact h.unheard hphase x hx hid
    · obtain ⟨s, hs, hsid, -⟩ := (hinterruption x hx hid).active
      exact h.absent (.inl hphase) s hs (hsid.trans hid)
  · exact fun s hs hid => h.active s (hold s hs hid) hid
  · intro hphase hheard
    rcases World.heard_append hhistory hheard with hheard | ⟨y, hy, hid, hcompletes⟩
    · exact h.incomplete hphase hheard
    · rw [(hinterruption y hy hid).event] at hcompletes
      exact hcompletes
  · intro hphase hheard
    rcases World.heard_append hhistory hheard with hheard | ⟨y, hy, hid, -⟩
    · exact h.uninterrupted hphase hheard
    · -- a stream that is completing is interrupted when it has completed
      obtain ⟨s, hs, hsid, hcompleted⟩ := (hinterruption y hy hid).active
      rw [hid] at hsid hcompleted
      refine h.incomplete (.inr hphase) (hcompleted fun hnone => ?_)
      have hopen := (h.active s hs hsid).1.mp hnone
      rw [hphase] at hopen
      exact hopen

theorem Fits.silent {streamId : Uuid} (h : ∀ s ∈ w.streams, s.id ≠ streamId) :
    Fits w .silent streamId where
  absent _ := h
  unheard hphase := by cases hphase
  active s hs hid := absurd hid (h s hs)
  incomplete hphase := by
    rcases hphase with hphase | hphase
    · exact hphase.elim
    · cases hphase
  uninterrupted hphase := by cases hphase

/-- The points move on with the streams. -/
theorem Books.of_moved (h : Books w gs) {i : Nat} (hg : gs[i]? = some g) (hmoved : Moved g g' w w')
    (hsound : w'.Sound) (huuids : w.uuids ⊆ w'.uuids)
    (hstream : ∀ id, g'.stream = some id → g.stream = some id ∨ id ∉ w.uuids ∧ id ∈ w'.uuids)
    (hlive : g.phase.Live → g'.stream = g.stream ∧ (g'.phase.Live ∨ g'.phase = .silent)) :
    Books w' (gs.set i g') := by
  have hmem := List.mem_of_getElem? hg
  have hothers := fun x => Async.of_mem_set (k := g') (x := x) hg
  obtain ⟨new, hhistory, hfine, hnew⟩ := hmoved.history
  refine ⟨hsound, ?_, ?_, h.apart.set hg ?_, ?_, hmoved.flags, hmoved.unique, ?_, ?_, ?_⟩
  · intro x hx streamId hid
    rcases hothers x hx with rfl | ⟨j, -, hj⟩
    · rcases hstream streamId hid with hold | hfresh
      · exact huuids (h.uuids g hmem streamId hold)
      · exact hfresh.2
    · exact huuids (h.uuids x (List.mem_of_getElem? hj) streamId hid)
  · intro x hx
    rw [hhistory] at hx
    rcases List.mem_append.mp hx with hx | hx
    · exact huuids (h.heard x hx)
    · rcases hnew x hx with hown | hinterruption
      · exact huuids (h.uuids g hmem _ hown.stream)
      · obtain ⟨s, hs, hsid, -⟩ := hinterruption.active
        obtain ⟨g₀, hg₀, hthis, -⟩ := h.running s hs
        exact huuids (h.uuids g₀ hg₀ _ (hsid ▸ hthis))
  · intro id hid
    rcases hstream id hid with hold | hfresh
    · exact .inl hold
    · exact .inr fun x hx hthis => hfresh.1 (h.uuids x hx id hthis)
  · intro s hs
    have hnext := Async.mem_set g' hg
    rcases hmoved.known s hs with ⟨s₀, hs₀, hid⟩ | ⟨-, rfl⟩
    · rcases Async.exists_mem_set g' hg (h.running s₀ hs₀) with ⟨x, hx, hthis⟩ | ⟨hthis, hgl⟩
      · exact ⟨x, hx, hid ▸ hthis⟩
      · obtain ⟨hsame, hgl | hsilent⟩ := hlive hgl
        · exact ⟨g', hnext, by rw [hsame, hthis, hid], hgl⟩
        · -- a run that has ended leaves no stream active
          have hfits := hmoved.fits s.id (by rw [hsame, hthis, hid])
          exact absurd rfl (hfits.absent (.inr hsilent) s hs)
    · exact ⟨_, hnext, rfl, trivial⟩
  · intro x hx streamId hid
    rcases hothers x hx with rfl | ⟨j, hji, hj⟩
    · exact hmoved.fits streamId hid
    · refine (h.fits x (List.mem_of_getElem? hj) streamId hid).of_moved hmoved fun hthis => ?_
      exact hji (h.apart j i x g streamId hj hg hid hthis)
  · intro s hs hheard
    rcases World.heard_append hhistory hheard with ⟨x, hx, hxid, hevent⟩ | ⟨y, hy, hyid, hevent⟩
    · rcases hmoved.known s hs with ⟨s₀, hs₀, hid⟩ | ⟨rfl, -⟩
      · exact h.interrupted s₀ hs₀ ⟨x, hx, hxid.trans hid.symm, hevent⟩
      · exact (h.fits _ hmem s.id rfl).unheard rfl x hx hxid
    · rcases hnew y hy with hown | hinterruption
      · exact hown.event hevent
      · exact hinterruption.absent s hs hyid.symm
  · rw [hhistory, List.pairwise_append]
    refine ⟨h.fine, hfine, fun x hx y hy hid => ?_⟩
    rcases hnew y hy with hown | hinterruption
    · exact ⟨fun hevent hspeaks => hown.speaks hspeaks ⟨x, hx, hid.symm, hevent⟩,
        fun hevent hcompletes => hown.completes hcompletes ⟨x, hx, hid.symm, hevent⟩⟩
    · rw [hinterruption.event]
      exact ⟨fun _ => id, fun _ => id⟩

/-! ### The streams at one answer -/

theorem stream_eq_some {streamId : Uuid} {s : StreamingResponse} (h : w.stream streamId = some s) :
    s ∈ w.streams ∧ s.id = streamId := by
  have hid := List.find?_some h
  exact ⟨List.mem_of_find?_eq_some h, of_decide_eq_true hid⟩

theorem absent_of_stream {streamId : Uuid} (h : w.stream streamId = none) :
    ∀ s ∈ w.streams, s.id ≠ streamId :=
  fun s hs hid => List.find?_eq_none.mp h s hs (decide_eq_true hid)

theorem exists_stream {s : StreamingResponse} (h : s ∈ w.streams) :
    ∃ s₀, w.stream s.id = some s₀ := by
  cases hstream : w.stream s.id with
  | some s₀ => exact ⟨s₀, rfl⟩
  | none => exact absurd rfl (absent_of_stream hstream s h)

theorem Fits.congr {phase : Phase} {streamId : Uuid} (h : Fits w phase streamId)
    (hstreams : w'.streams = w.streams) (hhistory : w'.history = w.history) :
    Fits w' phase streamId := by
  refine ⟨?_, ?_, ?_, ?_, ?_⟩
  · rw [hstreams]; exact h.absent
  · rw [hhistory]; exact h.unheard
  · rw [hstreams]; exact h.active
  · unfold World.Heard; rw [hhistory]; exact h.incomplete
  · unfold World.Heard; rw [hhistory]; exact h.uninterrupted

/-- Neither the streams nor the history change. -/
theorem Books.moved_same (h : Books w gs) (hstreams : w'.streams = w.streams)
    (hhistory : w'.history = w.history)
    (hfits : ∀ streamId, g'.stream = some streamId → Fits w g'.phase streamId) :
    Moved g g' w w' where
  others s hs := .inl (hstreams ▸ hs)
  known s hs := .inl ⟨s, hstreams ▸ hs, rfl⟩
  flags := by rw [hstreams]; exact h.flags
  unique := by rw [hstreams]; exact h.unique
  history := ⟨[], by rw [hhistory, List.append_nil], .nil, fun _ hy => by cases hy⟩
  fits streamId hid := (hfits streamId hid).congr hstreams hhistory

/-- Streams are told of, and stay as they are. -/
theorem Books.moved_told (h : Books w gs) {new : List Emission} (hstreams : w'.streams = w.streams)
    (hhistory : w'.history = w.history ++ new) (hnew : new.Pairwise Fine)
    (hown : ∀ y ∈ new, Own g w y)
    (hfits : ∀ streamId, g'.stream = some streamId → Fits w' g'.phase streamId) :
    Moved g g' w w' where
  others s hs := .inl (hstreams ▸ hs)
  known s hs := .inl ⟨s, hstreams ▸ hs, rfl⟩
  flags := by rw [hstreams]; exact h.flags
  unique := by rw [hstreams]; exact h.unique
  history := ⟨new, hhistory, hnew, fun y hy => .inl (hown y hy)⟩
  fits := hfits

/-- Streams are taken out. -/
theorem Books.moved_filter (h : Books w gs) {p : StreamingResponse → Bool} {new : List Emission}
    (hstreams : w'.streams = w.streams.filter p) (hhistory : w'.history = w.history ++ new)
    (hnew : new.Pairwise Fine) (hinterruption : ∀ y ∈ new, Interruption w w' y)
    (hfits : ∀ streamId, g'.stream = some streamId → Fits w' g'.phase streamId) :
    Moved g g' w w' := by
  have hold : ∀ s ∈ w'.streams, s ∈ w.streams := by
    rw [hstreams]
    exact fun s hs => (List.mem_filter.mp hs).1
  refine ⟨fun s hs => .inl (hold s hs), fun s hs => .inl ⟨s, hold s hs, rfl⟩,
    fun s hs => h.flags s (hold s hs), fun s hs s' hs' => h.unique s (hold s hs) s' (hold s' hs'),
    ⟨new, hhistory, hnew, fun y hy => .inr (hinterruption y hy)⟩, hfits⟩

/-- The task's stream is changed. -/
theorem Books.moved_set (h : Books w gs) {streamId : Uuid} {f : StreamingResponse → StreamingResponse}
    {new : List Emission} (hstream : g.stream = some streamId)
    (hstreams : w'.streams = updateWhere (fun s => s.id = streamId) f w.streams)
    (hf : ∀ s, (f s).id = s.id ∧ (f s).isInterrupted = s.isInterrupted)
    (hhistory : w'.history = w.history ++ new) (hnew : new.Pairwise Fine)
    (hown : ∀ y ∈ new, Own g w y)
    (hfits : ∀ streamId, g'.stream = some streamId → Fits w' g'.phase streamId) :
    Moved g g' w w' := by
  have hold : ∀ s ∈ w'.streams, ∃ s₀ ∈ w.streams, s = if s₀.id = streamId then f s₀ else s₀ := by
    intro s hs
    rw [hstreams] at hs
    obtain ⟨s₀, hs₀, rfl⟩ := List.mem_map.mp hs
    exact ⟨s₀, hs₀, by simp only [decide_eq_true_eq]⟩
  have hid : ∀ s₀, (if s₀.id = streamId then f s₀ else s₀).id = s₀.id := by
    intro s₀
    split
    · exact (hf s₀).1
    · rfl
  refine ⟨?_, ?_, ?_, ?_, ⟨new, hhistory, hnew, fun y hy => .inl (hown y hy)⟩, hfits⟩
  · intro s hs
    obtain ⟨s₀, hs₀, rfl⟩ := hold s hs
    by_cases hthis : s₀.id = streamId
    · rw [hid, hthis]
      exact .inr hstream
    · rw [if_neg hthis]
      exact .inl hs₀
  · intro s hs
    obtain ⟨s₀, hs₀, rfl⟩ := hold s hs
    exact .inl ⟨s₀, hs₀, (hid s₀).symm⟩
  · intro s hs
    obtain ⟨s₀, hs₀, rfl⟩ := hold s hs
    split
    · rw [(hf s₀).2, h.flags s₀ hs₀]
    · exact h.flags s₀ hs₀
  · intro s hs s' hs' heq
    obtain ⟨s₀, hs₀, rfl⟩ := hold s hs
    obtain ⟨s₁, hs₁, rfl⟩ := hold s' hs'
    rw [hid, hid] at heq
    rw [h.unique s₀ hs₀ s₁ hs₁ heq]

/-- What was rejected was not for an active stream. -/
theorem absent_of_rejects {m : Memory} {e : String} (hm : m.stream = g.memory)
    (hundivided : ∀ streamId ∈ m.stream, (w.stream streamId).isSome → c.rejects = none)
    (hrejects : c.rejects = some e) {streamId : Uuid} (hid : g.memory = some streamId) :
    ∀ s ∈ w.streams, s.id ≠ streamId := by
  rintro s hs rfl
  obtain ⟨s₀, hs₀⟩ := exists_stream hs
  have hnone := hundivided s.id (hm.trans hid) (by rw [hs₀]; rfl)
  rw [hnone] at hrejects
  cases hrejects

theorem Books.fits_reject (h : Books w gs) (hmem : g ∈ gs)
    (habsent : ∀ streamId, g.memory = some streamId → ∀ s ∈ w.streams, s.id ≠ streamId)
    {streamId : Uuid} (hid : g.reject.stream = some streamId) :
    Fits w g.reject.phase streamId := by
  obtain ⟨stream, phase⟩ := g
  cases phase with
  | idle | drawn => exact h.fits _ hmem streamId hid
  | started | running | spoken | completing | completed | silent =>
    exact .silent (habsent streamId hid)

theorem Fits.completed {streamId : Uuid}
    (h : ∀ s ∈ w.streams, s.id = streamId → s.endTime ≠ none) : Fits w .completed streamId where
  absent hphase := by rcases hphase with hphase | hphase <;> cases hphase
  unheard hphase := by cases hphase
  active s hs hid := ⟨⟨fun hnone => absurd hnone (h s hs hid), fun hopen => hopen.elim⟩,
    fun hphase => by cases hphase⟩
  incomplete hphase := by
    rcases hphase with hphase | hphase
    · exact hphase.elim
    · cases hphase
  uninterrupted hphase := by cases hphase

theorem Fits.completing {streamId : Uuid}
    (h : ∀ s ∈ w.streams, s.id = streamId → s.endTime ≠ none)
    (hincomplete : ¬ w.Heard streamId VoiceEvent.Completes)
    (huninterrupted : ¬ w.Heard streamId (· = .interrupted)) : Fits w .completing streamId where
  absent hphase := by rcases hphase with hphase | hphase <;> cases hphase
  unheard hphase := by cases hphase
  active s hs hid := ⟨⟨fun hnone => absurd hnone (h s hs hid), fun hopen => hopen.elim⟩,
    fun hphase => by cases hphase⟩
  incomplete _ := hincomplete
  uninterrupted _ := huninterrupted

/-- A stream that may yet emit chunks. -/
theorem Fits.of_open {phase : Phase} {streamId : Uuid} (hopen : phase.Open)
    (hactive : ∀ s ∈ w.streams, s.id = streamId →
      s.endTime = none ∧ (phase = .spoken → s.chunks ≠ []))
    (hincomplete : ¬ w.Heard streamId VoiceEvent.Completes) : Fits w phase streamId where
  absent hphase := by rcases hphase with rfl | rfl <;> exact hopen.elim
  unheard hphase := by
    subst hphase
    exact hopen.elim
  active s hs hid := by
    obtain ⟨hnone, hchunks⟩ := hactive s hs hid
    exact ⟨⟨fun _ => hopen, fun _ => hnone⟩, hchunks⟩
  incomplete _ := hincomplete
  uninterrupted hphase := by
    subst hphase
    exact hopen.elim

theorem Fits.run {streamId : Uuid} (h : Fits w .started streamId) : Fits w .running streamId :=
  .of_open trivial
    (fun s hs hid => ⟨(h.active s hs hid).1.mpr trivial, fun hphase => by cases hphase⟩)
    (h.incomplete (.inl trivial))

/-- The phases in which the session must be there. -/
theorem Books.fits_get (h : Books w gs) (hmem : g ∈ gs) {sessionId : Uuid} {m : Memory}
    {found : Bool} (hasks : asks g (.get sessionId m))
    (hundivided : ∀ streamId ∈ m.stream, ∀ s ∈ w.stream streamId, s.endTime = none →
      (m.read = none ∨ s.chunks ≠ []) → found = true)
    {streamId : Uuid} (hid : (g.get found).stream = some streamId) :
    Fits w (g.get found).phase streamId := by
  obtain ⟨stream, phase⟩ := g
  obtain ⟨hm, hstarted⟩ := hasks
  cases phase with
  | started =>
    have hread := hstarted rfl
    cases found with
    | true =>
      exact (h.fits _ hmem streamId hid).run
    | false =>
      refine .silent ?_
      rintro s hs rfl
      obtain ⟨s₀, hs₀⟩ := exists_stream hs
      obtain ⟨hs₀mem, hs₀id⟩ := stream_eq_some hs₀
      have hnone := ((h.fits _ hmem s.id hid).active s₀ hs₀mem hs₀id).1.mpr trivial
      cases hundivided s.id (hm.trans hid) s₀ hs₀ hnone (.inl hread)
  | spoken =>
    cases found with
    | true => exact h.fits _ hmem streamId hid
    | false =>
      refine .silent ?_
      rintro s hs rfl
      obtain ⟨s₀, hs₀⟩ := exists_stream hs
      obtain ⟨hs₀mem, hs₀id⟩ := stream_eq_some hs₀
      obtain ⟨hopen, hchunks⟩ := (h.fits _ hmem s.id hid).active s₀ hs₀mem hs₀id
      cases hundivided s.id (hm.trans hid) s₀ hs₀ (hopen.mpr trivial) (.inr (hchunks rfl))
  | idle | drawn | running | completing | completed | silent => exact h.fits _ hmem streamId hid

theorem streams_answered (h : answer c w a = some (r, w')) (hstreams : ¬ OfStreams a)
    (hhistory : ¬ OfHistory a) : w'.streams = w.streams ∧ w'.history = w.history :=
  ⟨(frame_answered h).streams hstreams, (frame_answered h).history hhistory⟩

theorem Books.moved_uuid (h : Books w gs) (hmem : g ∈ gs) {id : Answer .randomUUID}
    (hx : answer c w .randomUUID = some (id, w')) :
    Moved g (next g .randomUUID id) w w' := by
  obtain ⟨hstreams, hhistory⟩ := streams_answered hx (fun h => h) (fun h => h)
  have hnew := (uuid_answered hx).1
  refine h.moved_same hstreams hhistory ?_
  show ∀ streamId, (if g.phase = .idle then (⟨some id, .drawn⟩ : Point) else g).stream =
    some streamId → Fits w (if g.phase = .idle then (⟨some id, .drawn⟩ : Point) else g).phase streamId
  split
  · -- a stream or an event with this id would have been known
    rintro streamId hid
    cases hid
    have habsent : ∀ s ∈ w.streams, s.id ≠ id := by
      rintro s hs rfl
      obtain ⟨g₀, hg₀, hthis, -⟩ := h.running s hs
      exact hnew (h.uuids g₀ hg₀ s.id hthis)
    have hunheard : ∀ x ∈ w.history, x.streamId ≠ id := by
      rintro x hheard rfl
      exact hnew (h.heard x hheard)
    exact ⟨fun _ => habsent, fun _ => hunheard, fun s hs hsid => absurd hsid (habsent s hs),
      fun _ ⟨x, hx, hid, _⟩ => hunheard x hx hid, fun _ ⟨x, hx, hid, _⟩ => hunheard x hx hid⟩
  · exact h.fits g hmem

theorem Books.moved_get (h : Books w gs) (hmem : g ∈ gs) {sessionId : Uuid} {m : Memory}
    {r : Answer (.get sessionId m)} (hasks : asks g (.get sessionId m))
    (hundivided : Undivided c (w.tick c.now) (.get sessionId m))
    (hx : answer c w (.get sessionId m) = some (r, w')) :
    Moved g (next g (.get sessionId m) r) w w' := by
  obtain ⟨hstreams, hhistory⟩ := streams_answered hx id id
  obtain ⟨-, hx⟩ := answer_cases hx
  have hfound : ∀ found, (c.rejects = none ∧ ((w.tick c.now).session sessionId).isSome →
      found = true) → ∀ streamId, (g.get found).stream = some streamId →
      Fits w (g.get found).phase streamId := by
    intro found hthere streamId hid
    refine h.fits_get hmem hasks (fun streamId hm s hs hnone hread => ?_) hid
    exact hthere (hundivided streamId hm s hs hnone hread)
  refine h.moved_same hstreams hhistory ?_
  obtain ⟨e, hrejects, rfl, -⟩ | ⟨-, rfl, -⟩ := Async.attempt_cases hx
  · refine hfound false fun hthere => ?_
    rw [hrejects] at hthere
    cases hthere.1
  · cases hsession : (w.tick c.now).session sessionId with
    | none =>
      refine hfound false fun hthere => ?_
      rw [hsession] at hthere
      cases hthere.2
    | some s => exact hfound true fun _ => rfl

/-- The streams whose text is added are completing. -/
theorem Books.moved_setEx (h : Books w gs) (hmem : g ∈ gs) {session : VoiceSession} {m : Memory}
    {r : Answer (.setEx session m)} (hasks : asks g (.setEx session m))
    (hundivided : Undivided c (w.tick c.now) (.setEx session m))
    (hx : answer c w (.setEx session m) = some (r, w')) :
    Moved g (next g (.setEx session m) r) w w' := by
  obtain ⟨-, hx⟩ := answer_cases hx
  obtain ⟨e, hrejects, rfl, rfl⟩ | ⟨-, rfl, rfl⟩ := Async.attempt_cases hx
  · refine h.moved_same rfl rfl fun streamId hid => ?_
    exact h.fits_reject hmem (fun _ => absent_of_rejects hasks.1 hundivided hrejects) hid
  · have hadded : ∀ y ∈ (World.newMessages session m).filterMap (World.addition session),
        y.event = .added ∧ g = ⟨some y.streamId, .completing⟩ := by
      intro y hy
      obtain ⟨message, hmessage, hthis⟩ := List.mem_filterMap.mp hy
      obtain ⟨streamId, hstream, rfl⟩ := Option.map_eq_some_iff.mp hthis
      exact ⟨rfl, hasks.2 message hmessage streamId hstream⟩
    refine h.moved_told rfl rfl (List.pairwise_of_forall_mem_list fun x hx y hy _ => ?_)
      (fun y hy => ?_) fun streamId hid => ?_
    · rw [(hadded x hx).1, (hadded y hy).1]
      exact ⟨fun hevent => (by cases hevent), fun _ hevent => hevent⟩
    · obtain ⟨hevent, hg⟩ := hadded y hy
      have hfits := h.fits g hmem y.streamId (by rw [hg])
      refine ⟨by rw [hg], ?_, fun _ => hfits.uninterrupted (by rw [hg]), ?_⟩
      · rw [hevent]
        exact fun h => by cases h
      · rw [hevent]
        exact fun h => h.elim
    · have hfits := h.fits g hmem streamId hid
      refine ⟨hfits.absent, fun hphase x hx => ?_, hfits.active, fun hphase hheard => ?_,
        fun hphase hheard => ?_⟩
      · rcases List.mem_append.mp hx with hx | hx
        · exact hfits.unheard hphase x hx
        · rw [(hadded x hx).2] at hphase
          cases hphase
      · rcases World.heard_append rfl hheard with hheard | ⟨y, hy, -, hevent⟩
        · exact hfits.incomplete hphase hheard
        · rw [(hadded y hy).1] at hevent
          exact hevent
      · rcases World.heard_append rfl hheard with hheard | ⟨y, hy, -, hevent⟩
        · exact hfits.uninterrupted hphase hheard
        · rw [(hadded y hy).1] at hevent
          cases hevent

/-- The task's own stream is told of. -/
theorem fine_singleton (y : Emission) : [y].Pairwise Fine := List.pairwise_singleton _ _

theorem Books.moved_startStream (h : Books w gs) (hmem : g ∈ gs) {streamId sessionId : Uuid}
    {session : VoiceSession} {r : Answer (.startStream streamId session sessionId)}
    (hasks : asks g (.startStream streamId session sessionId))
    (hx : answer c w (.startStream streamId session sessionId) = some (r, w')) :
    Moved g (next g (.startStream streamId session sessionId) r) w w' := by
  obtain ⟨-, hx⟩ := answer_cases hx
  cases hx
  obtain rfl : g = ⟨some streamId, .drawn⟩ := hasks
  have hfits := h.fits _ hmem streamId rfl
  have habsent := hfits.absent (.inl rfl)
  have hunheard := hfits.unheard rfl
  refine ⟨?_, ?_, ?_, ?_, ⟨_, rfl, fine_singleton _, ?_⟩, ?_⟩
  · intro s hs
    rcases List.mem_append.mp hs with hs | hs
    · exact .inl hs
    · rw [List.mem_singleton.mp hs]
      exact .inr rfl
  · intro s hs
    rcases List.mem_append.mp hs with hs | hs
    · exact .inl ⟨s, hs, rfl⟩
    · rw [List.mem_singleton.mp hs]
      exact .inr ⟨rfl, rfl⟩
  · intro s hs
    rcases List.mem_append.mp hs with hs | hs
    · exact h.flags s hs
    · rw [List.mem_singleton.mp hs]
  · intro s hs s' hs' hid
    rcases List.mem_append.mp hs with hs | hs <;> rcases List.mem_append.mp hs' with hs' | hs'
    · exact h.unique s hs s' hs' hid
    · rw [List.mem_singleton.mp hs'] at hid
      exact absurd hid.symm (habsent s hs)
    · rw [List.mem_singleton.mp hs] at hid
      exact absurd hid (habsent s' hs')
    · rw [List.mem_singleton.mp hs, List.mem_singleton.mp hs']
  · intro y hy
    rw [List.mem_singleton.mp hy]
    exact .inl ⟨rfl, fun hevent => (by cases hevent), fun hevent => hevent.elim,
      fun hevent => hevent.elim⟩
  · rintro id hid
    cases hid
    refine .of_open trivial (fun s hs hid => ?_) fun hheard => ?_
    · rcases List.mem_append.mp hs with hs | hs
      · exact absurd hid (habsent s hs)
      · rw [List.mem_singleton.mp hs]
        exact ⟨rfl, fun hphase => by cases hphase⟩
    · rcases World.heard_append rfl hheard with ⟨x, hx, hid, -⟩ | ⟨y, hy, -, hevent⟩
      · exact hunheard x hx hid
      · rw [List.mem_singleton.mp hy] at hevent
        exact hevent

/-- One event of the task's own stream is emitted. -/
theorem Books.moved_emit (h : Books w gs) {streamId sessionId : Uuid} {room : String}
    {event : VoiceEvent} (hstreams : w'.streams = w.streams)
    (hhistory : w'.history = w.history ++ [⟨room, sessionId, streamId, event⟩])
    (hown : Own g w ⟨room, sessionId, streamId, event⟩)
    (hfits : ∀ id, g'.stream = some id → Fits w' g'.phase id) : Moved g g' w w' := by
  refine h.moved_told hstreams hhistory (fine_singleton _) (fun y hy => ?_) hfits
  rw [List.mem_singleton.mp hy]
  exact hown

theorem Books.moved_emitResponding (h : Books w gs) (hmem : g ∈ gs) {streamId sessionId : Uuid}
    {room : String} {r : Answer (.emitResponding streamId room sessionId)}
    (hasks : asks g (.emitResponding streamId room sessionId))
    (hx : answer c w (.emitResponding streamId room sessionId) = some (r, w')) :
    Moved g (next g (.emitResponding streamId room sessionId) r) w w' := by
  obtain ⟨-, hx⟩ := answer_cases hx
  cases hx
  obtain rfl : g = ⟨some streamId, .running⟩ := hasks
  refine h.moved_emit rfl rfl ⟨rfl, fun hevent => (by cases hevent), fun hevent => hevent.elim,
    fun hevent => hevent.elim⟩ ?_
  rintro id hid
  have hfits := h.fits _ hmem id hid
  refine .of_open trivial (fun s hs hsid => ?_) fun hheard => ?_
  · obtain ⟨hopen, hchunks⟩ := hfits.active s hs hsid
    exact ⟨hopen.mpr trivial, hchunks⟩
  · rcases World.heard_append rfl hheard with hheard | ⟨y, hy, -, hevent⟩
    · exact hfits.incomplete (.inl trivial) hheard
    · rw [List.mem_singleton.mp hy] at hevent
      exact hevent

theorem Books.moved_emitComplete (h : Books w gs) (hmem : g ∈ gs) {streamId sessionId : Uuid}
    {room response : String} {r : Answer (.emitComplete streamId room sessionId response)}
    (hasks : asks g (.emitComplete streamId room sessionId response))
    (hx : answer c w (.emitComplete streamId room sessionId response) = some (r, w')) :
    Moved g (next g (.emitComplete streamId room sessionId response) r) w w' := by
  obtain ⟨-, hx⟩ := answer_cases hx
  cases hx
  obtain rfl : g = ⟨some streamId, .completing⟩ := hasks
  have hthis := h.fits _ hmem streamId rfl
  refine h.moved_emit rfl rfl ⟨rfl, fun hevent => (by cases hevent),
    fun _ => hthis.uninterrupted rfl, fun _ => hthis.incomplete (.inr rfl)⟩ ?_
  rintro id hid
  cases hid
  exact .completed fun s hs hid hnone => (hthis.active s hs hid).1.mp hnone

/-- A stream that is not found has gone. -/
theorem Books.absent_of_any (h : Books w gs) {streamId : Uuid}
    (hnone : ((w.stream streamId).any fun s => !s.isInterrupted) = false) :
    ∀ s ∈ w.streams, s.id ≠ streamId := by
  rintro s hs rfl
  obtain ⟨s₀, hs₀⟩ := exists_stream hs
  have hflag := h.flags s₀ (stream_eq_some hs₀).1
  rw [hs₀, Option.any_some, hflag] at hnone
  cases hnone

theorem Books.moved_checkStream (h : Books w gs) (hmem : g ∈ gs) {streamId : Uuid}
    {r : Answer (.checkStream streamId)} (hasks : asks g (.checkStream streamId))
    (hx : answer c w (.checkStream streamId) = some (r, w')) :
    Moved g (next g (.checkStream streamId) r) w w' := by
  obtain ⟨hstreams, hhistory⟩ := streams_answered hx id id
  obtain ⟨-, hx⟩ := answer_cases hx
  cases hx
  obtain rfl : g = ⟨some streamId, .running⟩ := hasks
  refine h.moved_same hstreams hhistory ?_
  cases hany : ((w.tick c.now).stream streamId).any fun s => !s.isInterrupted with
  | true => exact h.fits _ hmem
  | false =>
    rintro id hid
    cases hid
    exact .silent (h.absent_of_any hany)

theorem mem_setStream {streamId : Uuid} {f : StreamingResponse → StreamingResponse}
    {s : StreamingResponse} (hs : s ∈ (w.setStream streamId f).streams)
    (hid : s.id = streamId) : ∃ s₀ ∈ w.streams, s₀.id = streamId ∧ s = f s₀ := by
  obtain ⟨s₀, hs₀, rfl⟩ := List.mem_map.mp hs
  simp only [decide_eq_true_eq] at hid ⊢
  split at hid
  · next hthis => exact ⟨s₀, hs₀, hthis, if_pos hthis⟩
  · next hother => exact absurd hid hother

theorem Books.moved_emitChunk (h : Books w gs) (hmem : g ∈ gs) {streamId sessionId : Uuid}
    {room content : String} {isComplete : Bool}
    {r : Answer (.emitChunk streamId room sessionId content isComplete)}
    (hasks : asks g (.emitChunk streamId room sessionId content isComplete))
    (hx : answer c w (.emitChunk streamId room sessionId content isComplete) = some (r, w')) :
    Moved g (next g (.emitChunk streamId room sessionId content isComplete) r) w w' := by
  obtain ⟨-, hx⟩ := answer_cases hx
  have hstream : g.stream = some streamId := by rcases hasks with rfl | rfl <;> rfl
  have hopen : g.phase.Open := by rcases hasks with rfl | rfl <;> trivial
  have hfits := h.fits g hmem streamId hstream
  dsimp only [reply] at hx
  split at hx
  · next hany =>
    obtain ⟨s, hs, -⟩ := (Option.any_eq_true _ _).mp hany
    obtain ⟨hs, hid⟩ := stream_eq_some hs
    cases hx
    refine h.moved_set hstream rfl (fun _ => ⟨rfl, rfl⟩) rfl (fine_singleton _) (fun y hy => ?_) ?_
    · rw [List.mem_singleton.mp hy]
      refine ⟨hstream, fun hevent => (by cases hevent), fun _ => ?_, fun hevent => hevent.elim⟩
      exact hid ▸ h.interrupted s hs
    · intro id hthis
      obtain rfl : streamId = id := Option.some.inj (hstream.symm.trans hthis)
      refine .of_open trivial (fun s hs hsid => ?_) fun hheard => ?_
      · obtain ⟨s₀, hs₀, hs₀id, rfl⟩ := mem_setStream hs hsid
        refine ⟨(hfits.active s₀ hs₀ hs₀id).1.mpr hopen, fun _ => ?_⟩
        exact List.append_ne_nil_of_right_ne_nil _ (List.cons_ne_nil _ _)
      · rcases World.heard_append rfl hheard with hheard | ⟨y, hy, -, hevent⟩
        · exact hfits.incomplete (.inl hopen) hheard
        · rw [List.mem_singleton.mp hy] at hevent
          exact hevent
  · next hany =>
    cases hx
    refine h.moved_same rfl rfl ?_
    rintro id hid
    obtain rfl : streamId = id := Option.some.inj (hstream.symm.trans hid)
    exact .silent (h.absent_of_any (Bool.eq_false_of_not_eq_true hany))

theorem Books.moved_beginCompletion (h : Books w gs) (hmem : g ∈ gs) {streamId : Uuid}
    {r : Answer (.beginCompletion streamId)} (hasks : asks g (.beginCompletion streamId))
    (hx : answer c w (.beginCompletion streamId) = some (r, w')) :
    Moved g (next g (.beginCompletion streamId) r) w w' := by
  obtain ⟨-, hx⟩ := answer_cases hx
  obtain rfl : g = ⟨some streamId, .spoken⟩ := hasks
  have hfits := h.fits _ hmem streamId rfl
  dsimp only [reply] at hx
  split at hx
  · next hsome =>
    obtain ⟨s, hs⟩ := Option.isSome_iff_exists.mp hsome
    obtain ⟨hs, hid⟩ := stream_eq_some hs
    cases hx
    refine h.moved_set rfl rfl (fun _ => ⟨rfl, rfl⟩) (List.append_nil _).symm .nil
      (fun _ hy => by cases hy) ?_
    rintro id hthis
    cases hthis
    refine .completing (fun s hs hsid => ?_) (hfits.incomplete (.inl trivial))
      (hid ▸ h.interrupted s hs)
    obtain ⟨s₀, -, -, rfl⟩ := mem_setStream hs hsid
    exact fun hnone => by cases hnone
  · next hnone =>
    cases hx
    refine h.moved_same rfl rfl ?_
    rintro id hid
    cases hid
    exact .silent (absent_of_stream (Option.not_isSome_iff_eq_none.mp hnone))

theorem Books.moved_deleteStream (h : Books w gs) {streamId : Uuid}
    {r : Answer (.deleteStream streamId)} (hasks : asks g (.deleteStream streamId))
    (hx : answer c w (.deleteStream streamId) = some (r, w')) :
    Moved g (next g (.deleteStream streamId) r) w w' := by
  obtain ⟨-, hx⟩ := answer_cases hx
  cases hx
  obtain rfl : g = ⟨some streamId, .completed⟩ := hasks
  refine h.moved_filter rfl (List.append_nil _).symm .nil (fun _ hy => by cases hy) ?_
  rintro id hid
  cases hid
  exact .silent fun s hs => of_decide_eq_true (List.mem_filter.mp hs).2

/-- Whoever interrupts has no stream of its own. -/
theorem Books.moved_interrupt (h : Books w gs) {streamId : Option Uuid}
    {sessionId : Uuid} {room : String} {m : Memory}
    {r : Answer (.interrupt streamId room sessionId m)}
    (hasks : asks g (.interrupt streamId room sessionId m))
    (hundivided : Undivided c (w.tick c.now) (.interrupt streamId room sessionId m))
    (hx : answer c w (.interrupt streamId room sessionId m) = some (r, w')) :
    Moved g (next g (.interrupt streamId room sessionId m) r) w w' := by
  obtain ⟨-, hx⟩ := answer_cases hx
  cases hx
  have hnew : ∀ y ∈ (w.streams.filter (World.concerns sessionId streamId)).map fun s =>
      (⟨room, sessionId, s.id, .interrupted⟩ : Emission), y.event = .interrupted ∧
      ∃ s ∈ w.streams, World.concerns sessionId streamId s ∧ s.id = y.streamId := by
    intro y hy
    obtain ⟨s, hs, rfl⟩ := List.mem_map.mp hy
    obtain ⟨hs, hconcerns⟩ := List.mem_filter.mp hs
    exact ⟨rfl, s, hs, hconcerns, rfl⟩
  refine h.moved_filter rfl rfl (List.pairwise_of_forall_mem_list fun x hx y hy _ => ?_)
    (fun y hy => ?_) fun id hid => ?_
  · rw [(hnew x hx).1, (hnew y hy).1]
    exact ⟨fun _ hspeaks => hspeaks, fun hcompletes => hcompletes.elim⟩
  · obtain ⟨hevent, s, hs, hconcerns, hid⟩ := hnew y hy
    refine ⟨hevent, ⟨s, hs, hid, fun hend => hid ▸ hundivided s hs hconcerns hend⟩, ?_⟩
    -- ids are unique, so a stream that is left is another one
    intro s' hs' hid'
    obtain ⟨hs', hleft⟩ := List.mem_filter.mp hs'
    obtain rfl := h.unique s hs s' hs' (hid'.trans hid.symm)
    rw [hconcerns] at hleft
    exact absurd rfl (of_decide_eq_true hleft)
  · obtain rfl : g = {} := hasks
    cases hid

theorem Books.moved (h : Books w gs) (hmem : g ∈ gs) (hasks : asks g a)
    (hundivided : Undivided c (w.tick c.now) a) (hx : answer c w a = some (r, w')) :
    Moved g (next g a r) w w' := by
  cases a with
  | randomUUID => exact h.moved_uuid hmem hx
  | get => exact h.moved_get hmem hasks hundivided hx
  | setEx => exact h.moved_setEx hmem hasks hundivided hx
  | startStream => exact h.moved_startStream hmem hasks hx
  | checkStream => exact h.moved_checkStream hmem hasks hx
  | emitResponding => exact h.moved_emitResponding hmem hasks hx
  | emitChunk => exact h.moved_emitChunk hmem hasks hx
  | interrupt => exact h.moved_interrupt hasks hundivided hx
  | beginCompletion => exact h.moved_beginCompletion hmem hasks hx
  | emitComplete => exact h.moved_emitComplete hmem hasks hx
  | deleteStream => exact h.moved_deleteStream hasks hx
  | generateResponse =>
    obtain ⟨hstreams, hhistory⟩ := streams_answered hx id id
    obtain ⟨-, hx⟩ := answer_cases hx
    refine h.moved_same hstreams hhistory ?_
    obtain ⟨e, hrejects, rfl, -⟩ | ⟨-, rfl, -⟩ := Async.attempt_cases hx
    · exact fun streamId hid => h.fits_reject hmem
        (fun _ => absent_of_rejects hasks hundivided hrejects) hid
    · exact h.fits g hmem
  | now | sleep | del | scanKeys | sMembers | sAdd | expire | sRem | getActive | setActive
  | delActive | refreshActive =>
    obtain ⟨hstreams, hhistory⟩ := streams_answered hx id id
    exact h.moved_same hstreams hhistory (h.fits g hmem)

theorem Point.get_stream (found : Bool) : (g.get found).stream = g.stream := by
  unfold Point.get
  split <;> rfl

theorem Point.reject_stream : g.reject.stream = g.stream := by
  unfold Point.reject
  split <;> rfl

theorem stream_answered (hx : answer c w a = some (r, w')) {id : Uuid}
    (hid : (next g a r).stream = some id) :
    g.stream = some id ∨ id ∉ w.uuids ∧ id ∈ w'.uuids := by
  cases a with
  | randomUUID =>
    unfold next at hid
    dsimp only at hid
    split at hid
    · cases hid
      exact .inr (uuid_answered hx)
    · exact .inl hid
  | get =>
    match r, hid with
    | .ok (some _), hid => exact .inl (Point.get_stream true ▸ hid)
    | .ok none, hid => exact .inl (Point.get_stream false ▸ hid)
    | .error _, hid => exact .inl (Point.get_stream false ▸ hid)
  | setEx | generateResponse =>
    match r, hid with
    | .ok _, hid => exact .inl hid
    | .error _, hid => exact .inl (Point.reject_stream ▸ hid)
  | checkStream | emitChunk | beginCompletion =>
    match r, hid with
    | true, hid => exact .inl hid
    | false, hid => exact .inl hid
  | _ => exact .inl hid

theorem live_answered (hasks : asks g a) (hlive : g.phase.Live) :
    (next g a r).stream = g.stream ∧
      ((next g a r).phase.Live ∨ (next g a r).phase = .silent) := by
  have hget : ∀ found, (g.get found).phase.Live ∨ (g.get found).phase = .silent := by
    intro found
    unfold Point.get
    split
    · exact .inl trivial
    · exact .inr rfl
    · exact .inr rfl
    · exact .inl hlive
  have hreject : g.reject.phase.Live ∨ g.reject.phase = .silent := by
    unfold Point.reject
    split
    · exact .inl hlive
    · exact .inl hlive
    · exact .inr rfl
  cases a with
  | randomUUID =>
    have hsame : next g .randomUUID r = g := by
      refine if_neg fun hidle => ?_
      rw [hidle] at hlive
      exact hlive
    rw [hsame]
    exact ⟨rfl, .inl hlive⟩
  | get =>
    match r with
    | .ok (some _) => exact ⟨Point.get_stream true, hget true⟩
    | .ok none => exact ⟨Point.get_stream false, hget false⟩
    | .error _ => exact ⟨Point.get_stream false, hget false⟩
  | setEx | generateResponse =>
    match r with
    | .ok _ => exact ⟨rfl, .inl hlive⟩
    | .error _ => exact ⟨Point.reject_stream, hreject⟩
  | checkStream =>
    match r with
    | true => exact ⟨rfl, .inl hlive⟩
    | false => exact ⟨rfl, .inr rfl⟩
  | emitChunk | beginCompletion =>
    match r with
    | true => exact ⟨rfl, .inl trivial⟩
    | false => exact ⟨rfl, .inr rfl⟩
  | startStream | emitComplete => exact ⟨rfl, .inl trivial⟩
  | deleteStream => exact ⟨rfl, .inr rfl⟩
  | _ => exact ⟨rfl, .inl hlive⟩

theorem Books.answered (h : Books w gs) {i : Nat} (hg : gs[i]? = some g) (hasks : asks g a)
    (hundivided : Undivided c (w.tick c.now) a) (hx : answer c w a = some (r, w')) :
    Books w' (gs.set i (next g a r)) :=
  h.of_moved hg (h.moved (List.mem_of_getElem? hg) hasks hundivided hx)
    (sound_answered h.sound hx) (uuids_answered hx) (fun _ => stream_answered hx)
    (live_answered hasks)

theorem told_of_answer (hsound : w.Sound) (hx : answer c w a = some (r, w')) : told a r := by
  cases a with
  | get => exact id_of_get hsound hx
  | _ => trivial

end Step

end Silence

open Silence

/-- **An interrupted stream stays silent**, a stream completes at most once, and none is active when
its run has ended, if no stream is interrupted while it completes and no run ends early. -/
theorem streams_silent {tr : StreamTrace} {t : StreamSystem} (h : Run streamMachine tr t)
    (hundivided : ∀ e ∈ tr, StepUndivided e) : Silent t := by
  obtain ⟨gs, hbooks, hat⟩ := Async.interleave_obeys (J := fun _ => Books) (P := protocol)
    (fun op _ => program_obeys op) (by rintro _ rfl; exact books_init)
    (fun _ _ _ _ _ _ _ hJ => hJ.start)
    (fun _ e _ i a r g hgood hans _ hg hasks hJ =>
      ⟨told_of_answer hJ.sound hans.answer,
        hJ.answered hg hasks (hans.meets hgood) hans.answer⟩)
    h hundivided
  refine ⟨?_, ?_, ?_, ?_⟩
  · exact hbooks.fine.imp fun hfine hevent hid => (hfine hid).1 hevent
  · exact hbooks.fine.imp fun hfine hx hy hid => (hfine hid).2 hx hy
  · intro i streamId thrown htask
    obtain ⟨g, hg, -, hend⟩ := Async.exists_of_getElem? hat htask
    obtain rfl := hend streamId thrown rfl
    have hfits := hbooks.fits _ (List.mem_of_getElem? hg) streamId rfl
    refine List.find?_eq_none.mpr fun s hs hid => ?_
    exact hfits.absent (.inr rfl) s hs (of_decide_eq_true hid)
  · intro hquiet
    refine List.eq_nil_iff_forall_not_mem.mpr fun s hs => ?_
    obtain ⟨g, hg, -, hlive⟩ := hbooks.running s hs
    obtain ⟨x, hend⟩ := Async.ends_of_quiet hat hquiet g hg
    exact hend.1 hlive

/-! ### Streams in turn, and an interruption at the end -/

/-- Task `i` gets its next answers; the model says `Hello there`. -/
def talks (i : Nat) (uuid : Uuid) (answers : Nat) : List (Outside × Async.Move StreamOperation) :=
  List.replicate answers (⟨0, uuid, none, [], "Hello there"⟩, .resume i)

def starts (op : StreamOperation) : Outside × Async.Move StreamOperation :=
  (undisturbed "", .start op)

/-- A session `s` is created, and the stream `a` begins. -/
def streamStarted : List (Outside × Async.Move StreamOperation) :=
  starts (.session (.createSession "alice" .general none none)) :: talks 0 "s" 6 ++
    starts (.stream "s" "Hi") :: talks 1 "a" 1 ++ talks 1 "m" 12

/-- The stream `a` completes, and the stream `b` is interrupted after a chunk. -/
theorem streams_silent_in_turn :
    ∃ (tr : StreamTrace) (t : StreamSystem), Run streamMachine tr t ∧ t.Quiet ∧
      t.world.Heard "a" VoiceEvent.Completes ∧ t.world.Heard "b" (· = .interrupted) ∧ Silent t := by
  obtain ⟨tr, t, hrun, hok⟩ := Machine.exists_run_of_replay (m := streamMachine) (s := ⟨{}, []⟩)
    ⟨rfl, rfl⟩
    (streamStarted ++ talks 1 "n" 17 ++
      starts (.stream "s" "More") :: talks 2 "b" 1 ++ talks 2 "o" 19 ++
      starts (.interrupt "s" (some "b")) :: talks 3 "" 6 ++ talks 2 "" 2)
    (fun tr t => decide ((∀ e ∈ tr, StepUndivided e) ∧ t.Quiet ∧
      t.world.Heard "a" VoiceEvent.Completes ∧ t.world.Heard "b" (· = .interrupted)))
    (fun c _ => c.2.starts_of_true) (by decide) (by decide +kernel)
  obtain ⟨hundivided, hquiet, hcompleted, hinterrupted⟩ := of_decide_eq_true hok
  exact ⟨tr, t, hrun, hquiet, hcompleted, hinterrupted, streams_silent hrun hundivided⟩

/-- A stream is interrupted while its text is being added to the session. -/
theorem stream_not_silent :
    ¬ ∀ (tr : StreamTrace) (t : StreamSystem), Run streamMachine tr t → Silent t := by
  intro hall
  obtain ⟨tr, t, hrun, hok⟩ := Machine.exists_run_of_replay (m := streamMachine) (s := ⟨{}, []⟩)
    ⟨rfl, rfl⟩
    (streamStarted ++ talks 1 "n" 8 ++
      starts (.interrupt "s" (some "a")) :: talks 2 "" 3 ++ talks 1 "n" 9)
    (fun _ t => decide (¬ t.world.history.Pairwise fun (x y : Emission) =>
      x.event = VoiceEvent.interrupted → y.streamId = x.streamId → ¬ y.event.Speaks))
    (fun c _ => c.2.starts_of_true) (by decide) (by decide +kernel)
  exact of_decide_eq_true hok (hall tr t hrun).interrupted

end Stellara.Voice
