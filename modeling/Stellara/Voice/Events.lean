import Stellara.Lib.Isolation
import Stellara.Voice.Gateway
import Stellara.Voice.Rules

/-!
# What an event asks for

An event of the gateway asks for the sessions and the streams of its user, and for what is kept for
its user, if the ids that the client sends are its own (`asks`, `told`).  A task knows the sessions
that it has found to be its user's: those of the user's index, the active one, those it has read.

    getActive  ──▶  known  ── get ──▶  read  ── setEx ──▶  …

Only a connection and a disconnect read a session that is not known, and go on with one of another
user as with none (`program_blind`).
-/

namespace Stellara.Voice

open Block VoiceSessionService StreamingResponseService ConversationStateMachineService
open Async (obeying)

namespace Isolation

/-! ## The way of an event -/

/-- The user whose event it is, whether nothing has been asked yet, the user's sessions that are
known, the session that was read last, the UUID that was drawn and names nothing yet, and the
stream. -/
structure Point where
  user : Option String := none
  fresh : Bool := true
  known : List Uuid := []
  read : Option VoiceSession := none
  drawn : Option Uuid := none
  stream : Option Uuid := none

/-- The user is the task's, if it has one. -/
def Point.Mine (g : Point) (userId : String) : Prop := ∀ u, g.user = some u → userId = u

/-- The session is the user's, if the task has one. -/
def Point.Knows (g : Point) (sessionId : Uuid) : Prop := ∀ u, g.user = some u → sessionId ∈ g.known

/-- What is handled is an event of the task's user. -/
def Point.Handles (g : Point) (m : Memory) : Prop :=
  ∃ client payload, m.handles = some (client, payload) ∧ g.user = some client.userId

def asks (g : Point) : Request → Prop
  | .get sessionId m => g.Knows sessionId ∨ g.fresh = true ∧ g.Handles m
  | .setEx session m => m.read = none ∧ g.drawn = some session.id ∧ g.user = some session.userId ∨
    ∃ r, m.read = some r ∧ g.read = some r ∧ session.id = r.id ∧ session.userId = r.userId ∧
      g.Mine r.userId
  | .del sessionId => g.Knows sessionId
  | .sMembers _ m => g.Handles m
  | .sAdd userId sessionId | .setActive userId _ sessionId =>
    g.user = some userId ∧ sessionId ∈ g.known
  | .expire userId _ | .sRem userId _ | .getActive userId | .delActive userId
  | .refreshActive userId _ => g.Mine userId
  | .startStream streamId session sessionId =>
    g.drawn = some streamId ∧ g.user = some session.userId ∧ sessionId ∈ g.known
  | .checkStream streamId | .emitChunk streamId _ _ _ _ | .beginCompletion streamId
  | .deleteStream streamId => g.user ≠ none ∧ g.stream = some streamId
  | .interrupt _ _ sessionId m => g.Handles m ∧ sessionId ∈ g.known
  | _ => True

def told (g : Point) : (a : Request) → Answer a → Prop
  | .get sessionId m, r => ∀ s, (r : Except String (Option VoiceSession)) = .ok (some s) →
    s.id = sessionId ∧ (g.Knows sessionId → g.Mine s.userId) ∧
    ∀ x ∈ m.handles, x.2 = .disconnect →
      s.userId = x.1.userId ∨ canTransition s.state .idle = false
  | .sMembers userId _, _ => g.user = some userId
  | _, _ => True

/-- What a task learns. -/
def Point.learn (g : Point) : (a : Request) → Answer a → Point
  | .get _ _, .ok (some s) =>
    { g with read := some s, known := if g.user = some s.userId then s.id :: g.known else g.known }
  | .sMembers _ _, .ok (ids, _) => { g with known := ids ++ g.known }
  | .getActive _, .ok (some sessionId) => { g with known := sessionId :: g.known }
  | .randomUUID, id => { g with drawn := g.drawn.or (some id) }
  | .setEx session m, .ok () =>
    if m.read = none then { g with known := session.id :: g.known, drawn := none } else g
  | .startStream streamId _ _, _ => { g with drawn := none, stream := some streamId }
  | _, _ => g

def next (g : Point) (a : Request) (r : Answer a) : Point := { g.learn a r with fresh := false }

abbrev protocol : Protocol Request Answer Point := ⟨asks, told, next⟩

def begin (op : GatewayOperation) : Point := { user := op.userId }

/-- A session of another user is found, and none. -/
def Unlike (g : Point) : (a : Request) → Answer a → Answer a → Prop
  | .get _ m, r, r' => g.fresh = true ∧
    ∃ s, (r : Except String (Option VoiceSession)) = .ok (some s) ∧
      (r' : Except String (Option VoiceSession)) = .ok none ∧ ∀ x ∈ m.handles,
        s.userId ≠ x.1.userId ∧ (x.2 = .disconnect → canTransition s.state .idle = false)
  | _, _, _ => False

theorem learn_user (g : Point) (a : Request) (r : Answer a) : (g.learn a r).user = g.user := by
  unfold Point.learn
  split
  · rfl
  · rfl
  · rfl
  · rfl
  · split <;> rfl
  · rfl
  · rfl

theorem learn_known (g : Point) (a : Request) (r : Answer a) : g.known ⊆ (g.learn a r).known := by
  unfold Point.learn
  split
  · dsimp only
    split
    · exact List.subset_cons_self _ _
    · exact List.Subset.refl _
  · exact List.subset_append_right _ _
  · exact List.subset_cons_self _ _
  · exact List.Subset.refl _
  · split
    · exact List.subset_cons_self _ _
    · exact List.Subset.refl _
  · exact List.Subset.refl _
  · exact List.Subset.refl _

section Programs

variable {α : Type} {m : Memory} {g : Point}

theorem Point.Knows.next {sessionId : Uuid} (h : g.Knows sessionId) (a : Request) (r : Answer a) :
    (next g a r).Knows sessionId :=
  fun u hu => learn_known g a r (h u (learn_user g a r ▸ hu))

theorem Point.Mine.next {userId : String} (h : g.Mine userId) (a : Request) (r : Answer a) :
    (next g a r).Mine userId :=
  fun u hu => h u (learn_user g a r ▸ hu)

/-- What stays the same while sessions are read and written: the user, the event, the stream, and
the UUID that was drawn. -/
structure Stays (g₀ : Point) (handles : Option (Client × SocketEvent)) (m : Memory) (g : Point) :
    Prop where
  user : g.user = g₀.user
  handles : m.handles = handles
  stream : g.stream = g₀.stream
  drawn : ∀ id, g₀.drawn = some id → g.drawn = some id
  known : g₀.known ⊆ g.known

/-- The requests after which a stream and a drawn UUID are what they were. -/
def Plain : Request → Prop
  | .setEx _ m => m.read ≠ none
  | .startStream _ _ _ => False
  | _ => True

theorem Stays.next {g₀ : Point} {handles : Option (Client × SocketEvent)}
    (h : Stays g₀ handles m g) {a : Request} (ha : Plain a) (r : Answer a) :
    Stays g₀ handles m (next g a r) := by
  refine ⟨(learn_user g a r).trans h.user, h.handles, ?_, ?_,
    List.Subset.trans h.known (learn_known g a r)⟩
  · show (g.learn a r).stream = _
    unfold Point.learn
    split
    · exact h.stream
    · exact h.stream
    · exact h.stream
    · exact h.stream
    · split <;> exact h.stream
    · exact ha.elim
    · exact h.stream
  · intro id hid
    have hdrawn := h.drawn id hid
    show (g.learn a r).drawn = _
    unfold Point.learn
    split
    · exact hdrawn
    · exact hdrawn
    · exact hdrawn
    · show g.drawn.or _ = _
      rw [hdrawn]
      rfl
    · rw [if_neg ha]
      exact hdrawn
    · exact ha.elim
    · exact hdrawn

theorem Stays.read {g₀ : Point} {handles : Option (Client × SocketEvent)}
    (h : Stays g₀ handles m g) (read : Option VoiceSession) :
    Stays g₀ handles { m with read := read } g := ⟨h.user, h.handles, h.stream, h.drawn, h.known⟩

variable {g₀ : Point} {handles : Option (Client × SocketEvent)}

/-- The session may be read. -/
abbrev At (g₀ : Point) (handles : Option (Client × SocketEvent)) (sessionId : Uuid) (m : Memory)
    (g : Point) : Prop := Stays g₀ handles m g ∧ g.Knows sessionId

/-- The session has been read. -/
structure Held (g₀ : Point) (handles : Option (Client × SocketEvent)) (s : VoiceSession)
    (m : Memory) (g : Point) : Prop where
  stays : Stays g₀ handles m g
  knows : g.Knows s.id
  mine : g.Mine s.userId
  memory : m.read = some s
  read : g.read = some s

theorem Held.asks {r session : VoiceSession} (h : Held g₀ handles r m g) (hid : session.id = r.id)
    (huser : session.userId = r.userId) : asks g (.setEx session m) :=
  .inr ⟨r, h.memory, h.read, hid, huser, h.mine⟩

theorem Held.wrote {r session : VoiceSession} (h : Held g₀ handles r m g)
    (x : Except String Unit) : Written (At g₀ handles r.id) (At g₀ handles r.id) m x
      (Isolation.next g (.setEx session m) x) := by
  have hplain : Plain (.setEx session m) := by
    show m.read ≠ none
    rw [h.memory]
    exact fun h => by cases h
  have hat := (⟨h.stays.next hplain x, h.knows.next (.setEx session m) x⟩ :
    At g₀ handles r.id m (Isolation.next g (.setEx session m) x))
  match x with
  | .ok () => exact hat
  | .error _ => exact hat

theorem rules : SessionRules (obeying protocol) (At g₀ handles) (At g₀ handles) (Held g₀ handles)
    (fun s m g => At g₀ handles s.id m g ∧ g.Mine s.userId) where
  of_held h := ⟨⟨h.stays, h.knows⟩, h.mine⟩
  at_of h := h.1
  draw {a s m g} ha h := by
    rcases ha with rfl | rfl
    · exact ⟨trivial, fun r _ => ⟨h.stays.next (a := .now) trivial r, h.knows.next .now r, h.mine.next .now r,
        h.memory, h.read⟩⟩
    · exact ⟨trivial, fun r _ => ⟨h.stays.next (a := .randomUUID) trivial r,
        h.knows.next .randomUUID r, h.mine.next .randomUUID r, h.memory, h.read⟩⟩
  get {sessionId m g} h := by
    refine ⟨.inl h.2, fun r hr => ?_⟩
    have hstays := h.1.next (a := .get sessionId m) trivial r
    have hknows := h.2.next (.get sessionId m) r
    match r, hr with
    | .error _, _ => exact ⟨hstays.read none, hknows⟩
    | .ok none, _ => exact ⟨hstays.read none, hknows⟩
    | .ok (some s), hr =>
      obtain ⟨rfl, hmine, -⟩ := hr s rfl
      exact ⟨rfl, hstays.read (some s), hknows, (hmine h.2).next (.get s.id m) (.ok (some s)), rfl,
        rfl⟩
  save h hfollows := ⟨h.asks hfollows.id hfollows.userId, fun x _ => h.wrote x⟩
  remove {s m g} h := by
    refine ⟨h.knows, fun r _ => ⟨⟨h.stays.next (a := .del s.id) trivial r,
      h.knows.next (.del s.id) r⟩, h.mine.next (.del s.id) r⟩⟩
  index {a s m g} ha h := by
    have hnext := fun r (hplain : Plain a) =>
      (⟨⟨h.1.1.next hplain r, h.1.2.next a r⟩, h.2.next a r⟩ :
        At g₀ handles s.id m (Isolation.next g a r) ∧ (Isolation.next g a r).Mine s.userId)
    cases a with
    | sRem user | getActive user | delActive user =>
      obtain rfl : user = s.userId := ha
      exact ⟨h.2, fun r _ => hnext r trivial⟩
    | _ => exact ha.elim

theorem add {sessionId : Uuid} (r session : VoiceSession) (m : Memory) (g : Point)
    (hid : r.id = sessionId) (h : Held g₀ handles r m g) (hextends : Extends m r session) :
    (obeying protocol).pre (.setEx session m)
      (fun x g' => Written (At g₀ handles sessionId) (At g₀ handles sessionId) m x g') g := by
  subst hid
  exact ⟨h.asks hextends.id hextends.userId, fun x _ => h.wrote x⟩

/-! ### Reads -/

theorem Stays.refl (g : Point) (m : Memory) : Stays g m.handles m g :=
  ⟨rfl, rfl, rfl, fun _ h => h, List.Subset.refl _⟩

theorem Stays.trans {g₁ : Point} {m₁ : Memory} (h₁ : Stays g₀ handles m₁ g₁)
    (h : Stays g₁ m₁.handles m g) : Stays g₀ handles m g :=
  ⟨h.user.trans h₁.user, h.handles.trans h₁.handles, h.stream.trans h₁.stream,
    fun id hid => h.drawn id (h₁.drawn id hid), List.Subset.trans h₁.known h.known⟩

theorem Stays.knows (h : Stays g₀ handles m g) {sessionId : Uuid} (hknows : g₀.Knows sessionId) :
    g.Knows sessionId :=
  fun u hu => h.known (hknows u (h.user ▸ hu))

/-- What a task knows of a session that it has read. -/
structure HasRead (g : Point) (m : Memory) (sessionId : Uuid) (s : VoiceSession) (m' : Memory)
    (g' : Point) : Prop where
  id : s.id = sessionId
  memory : m'.read = some s
  read : g'.read = some s
  mine : g.Knows sessionId → g.Mine s.userId
  known : g.user = some s.userId → sessionId ∈ g'.known
  disconnect : ∀ x ∈ m.handles, x.2 = .disconnect →
    s.userId = x.1.userId ∨ canTransition s.state .idle = false

theorem getSession_obeys {sessionId : Uuid} (hasks : asks g (.get sessionId m)) :
    wp (obeying protocol) (getSession sessionId) (fun x m' g' => Stays g m.handles m' g' ∧
      g'.drawn = g.drawn ∧ ∀ s ∈ x, HasRead g m sessionId s m' g') (fun _ _ _ => False) m g := by
  unfold getSession
  rw [wp_tryCatch]
  refine ⟨hasks, fun r hr => ?_⟩
  have hstays := (Stays.refl g m).next (a := .get sessionId m) trivial r
  match r, hr with
  | .error _, _ => exact ⟨hstays.read none, rfl, fun _ h => by cases h⟩
  | .ok none, _ => exact ⟨hstays.read none, rfl, fun _ h => by cases h⟩
  | .ok (some s), hr =>
    obtain ⟨rfl, hmine, hdisconnect⟩ := hr s rfl
    refine ⟨hstays.read (some s), rfl, fun s' hs' => ?_⟩
    cases hs'
    refine ⟨rfl, rfl, rfl, hmine, fun huser => ?_, hdisconnect⟩
    show s.id ∈ if g.user = some s.userId then s.id :: g.known else g.known
    rw [if_pos huser]
    exact List.mem_cons_self

theorem HasRead.held {sessionId : Uuid} {s : VoiceSession} {m' : Memory} {g' : Point}
    (h : HasRead g m sessionId s m' g') (hstays : Stays g m.handles m' g') (hmine : g.Mine s.userId)
    (hknows : g'.Knows sessionId) : Held g m.handles s m' g' :=
  ⟨hstays, h.id ▸ hknows, fun u hu => hmine u (hstays.user ▸ hu), h.memory, h.read⟩

theorem getSessions_obeys (ids : List Uuid) : ∀ m g, (∀ id ∈ ids, g.Knows id) →
    wp (obeying protocol) (getSessions ids) (fun sessions m' g' => Stays g m.handles m' g' ∧
      g'.drawn = g.drawn ∧ ∀ s ∈ sessions, g'.Knows s.id) (fun _ _ _ => False) m g := by
  induction ids with
  | nil => exact fun m g _ => ⟨.refl g m, rfl, fun _ h => by cases h⟩
  | cons id ids ih =>
    intro m g hids
    rw [List.forall_mem_cons] at hids
    unfold getSessions
    rw [wp_bind]
    refine wp_mono ?_ (fun _ _ _ h => h) (getSession_obeys (.inl hids.1))
    rintro x m₁ g₁ ⟨hstays₁, hdrawn₁, hx⟩
    rw [wp_bind]
    refine wp_mono ?_ (fun _ _ _ h => h) (ih m₁ g₁ fun id hid => hstays₁.knows (hids.2 id hid))
    rintro sessions m₂ g₂ ⟨hstays₂, hdrawn₂, hsessions⟩
    refine ⟨hstays₁.trans hstays₂, hdrawn₂.trans hdrawn₁, fun s hs => ?_⟩
    rcases List.mem_append.mp hs with hs | hs
    · rw [(hx s (Option.mem_toList.mp hs)).id]
      exact hstays₂.knows (hstays₁.knows hids.1)
    · exact hsessions s hs

/-- The sessions that are listed are the user's. -/
theorem getUserActiveSessions_obeys {userId : String} (hhandles : g.Handles m) :
    wp (obeying protocol) (getUserActiveSessions userId) (fun sessions m' g' =>
      Stays g m.handles m' g' ∧ g'.drawn = g.drawn ∧ g.user = some userId ∧
        ∀ s ∈ sessions, g'.Knows s.id) (fun _ _ _ => False) m g := by
  unfold getUserActiveSessions
  rw [wp_tryCatch, wp_bind]
  refine ⟨hhandles, fun r huser => ?_⟩
  have hstays := (Stays.refl g m).next (a := .sMembers userId m) trivial r
  match r with
  | .error _ => exact ⟨hstays, rfl, huser, fun _ h => by cases h⟩
  | .ok (ids, created) =>
    have hstays' : Stays g m.handles { m with created := some created }
        (next g (.sMembers userId m) (.ok (ids, created))) :=
      ⟨hstays.user, hstays.handles, hstays.stream, hstays.drawn, hstays.known⟩
    refine wp_mono ?_ (fun _ _ _ h => h.elim) (getSessions_obeys ids _ _ fun id hid => ?_)
    · rintro sessions m' g' ⟨hmore, hdrawn, hsessions⟩
      exact ⟨hstays'.trans hmore, hdrawn, huser, hsessions⟩
    · exact fun _ _ => List.mem_append_left _ hid

/-! ### Creating a session -/

theorem addUserSession_obeys {userId : String} {sessionId : Uuid} (huser : g.user = some userId)
    (hknown : sessionId ∈ g.known) :
    wp (obeying protocol) (addUserSession userId sessionId)
      (fun _ m' g' => Stays g m.handles m' g' ∧ g'.Knows sessionId)
      (fun _ m' g' => Stays g m.handles m' g' ∧ g'.Knows sessionId) m g := by
  have hmine : g.Mine userId := fun u hu => Option.some.inj (huser.symm.trans hu)
  unfold addUserSession
  rw [wp_bind]
  refine ⟨⟨huser, hknown⟩, fun r _ => ?_⟩
  have hstays := (Stays.refl g m).next (a := .sAdd userId sessionId) trivial r
  have hat := (⟨hstays, fun _ _ => hstays.known hknown⟩ : At g m.handles sessionId m _)
  match r with
  | .error _ => exact hat
  | .ok () =>
    refine ⟨hmine.next (.sAdd userId sessionId) (.ok ()), fun r _ => ?_⟩
    have hat' := (⟨hstays.next (a := .expire userId SESSION_TTL) trivial r,
      hat.2.next (.expire userId SESSION_TTL) r⟩ : At g m.handles sessionId m _)
    match r with
    | .error _ => exact hat'
    | .ok () => exact hat'

/-- A session is created for the user of the event. -/
theorem createSession_obeys {userId : String} {context : FeatureContext}
    {walletAddress metadata : Option String} (hhandles : g.Handles m) (hdrawn : g.drawn = none) :
    wp (obeying protocol) (VoiceSessionService.createSession userId context walletAddress metadata)
      (fun session m' g' => Stays g m.handles m' g' ∧ g'.Knows session.id)
      (fun _ m' g' => Stays g m.handles m' g') m g := by
  unfold VoiceSessionService.createSession
  rw [wp_bind]
  refine wp_mono ?_ (fun _ _ _ h => h.elim) (getUserActiveSessions_obeys hhandles)
  rintro sessions m₁ g₁ ⟨hstays₁, hdrawn₁, huser, -⟩
  split
  · exact hstays₁
  · unfold VoiceSession.create
    rw [wp_bind, wp_bind]
    refine ⟨trivial, fun now _ => ?_⟩
    show wp (obeying protocol) (uuidv4 >>= fun id => _) _ _ m₁ (next g₁ .now now)
    rw [wp_bind]
    refine ⟨trivial, fun id _ => ?_⟩
    rw [hdrawn] at hdrawn₁
    have hid : (next (next g₁ .now now) .randomUUID id).drawn = some id := by
      show g₁.drawn.or (some id) = some id
      rw [hdrawn₁]
      rfl
    have hstays₂ : Stays g m.handles { m₁ with read := none }
        (next (next g₁ .now now) .randomUUID id) :=
      ((hstays₁.next (a := .now) trivial now).next (a := .randomUUID) trivial id).read none
    show wp (obeying protocol) (saveSession _ >>= fun _ => addUserSession _ _ >>= fun _ => pure _) _
      _ { m₁ with read := none } (next (next g₁ .now now) .randomUUID id)
    generalize next (next g₁ .now now) .randomUUID id = g₂ at hid hstays₂
    have huser₂ := hstays₂.user.trans huser
    rw [wp_bind]
    refine ⟨.inl ⟨rfl, hid, huser₂⟩, fun r _ => ?_⟩
    match r with
    | .error _ =>
      exact ⟨hstays₂.user, hstays₂.handles, hstays₂.stream, hstays₂.drawn, hstays₂.known⟩
    | .ok () =>
      have hstays₃ : Stays g m.handles { m₁ with read := none }
          { g₂ with fresh := false, known := id :: g₂.known, drawn := none } := by
        refine ⟨hstays₂.user, hstays₂.handles, hstays₂.stream, fun _ h => ?_,
          List.Subset.trans hstays₂.known (List.subset_cons_self _ _)⟩
        rw [hdrawn] at h
        cases h
      show wp (obeying protocol) (addUserSession userId id >>= fun _ => pure _) _ _
        { m₁ with read := none } { g₂ with fresh := false, known := id :: g₂.known, drawn := none }
      rw [wp_bind]
      refine wp_mono ?_ ?_ (addUserSession_obeys huser₂ List.mem_cons_self)
      · rintro _ m₄ g₄ ⟨hstays₄, hknows₄⟩
        exact ⟨hstays₃.trans hstays₄, hknows₄⟩
      · exact fun _ _ _ h => hstays₃.trans h.1

/-! ### Handlers -/

/-- A stream that was started is the task's, for a session of its user. -/
def Told (response : Option ClientEvent) (g : Point) : Prop :=
  ∀ sessionId streamId userMessage, response = some (.started sessionId streamId userMessage) →
    g.user ≠ none ∧ sessionId ∈ g.known ∧ g.stream = some streamId

theorem told_of_ne {response : Option ClientEvent}
    (h : ∀ sessionId streamId userMessage,
      response ≠ some (.started sessionId streamId userMessage)) : Told response g :=
  fun sessionId streamId userMessage hthis => absurd hthis (h sessionId streamId userMessage)

theorem Stays.mem_known (h : Stays g₀ handles m g) {userId : String} (huser : g₀.user = some userId)
    {sessionId : Uuid} (hknows : g.Knows sessionId) : g.user = some userId ∧ sessionId ∈ g.known :=
  ⟨h.user.trans huser, hknows userId (h.user.trans huser)⟩

/-- The last step of a handler: the user's active session is set. -/
theorem setActive_obeys {userId : String} {sessionId : Uuid} {response : Option ClientEvent}
    (hat : g.user = some userId ∧ sessionId ∈ g.known)
    (h : ∀ id streamId userMessage, response ≠ some (.started id streamId userMessage)) :
    wp (obeying protocol) (setUserActiveSession userId sessionId >>= fun _ => pure response)
      (fun x _ g => Told x g) (fun _ _ _ => True) m g := by
  rw [wp_bind]
  refine ⟨hat, fun r _ => ?_⟩
  match r with
  | .error _ => trivial
  | .ok () => exact told_of_ne h

theorem deleteActive_obeys {userId : String} {response : Option ClientEvent}
    (hmine : g.Mine userId)
    (h : ∀ id streamId userMessage, response ≠ some (.started id streamId userMessage)) :
    wp (obeying protocol) (deleteUserActiveSession userId >>= fun _ => pure response)
      (fun x _ g => Told x g) (fun _ _ _ => True) m g := by
  rw [wp_bind]
  refine ⟨hmine, fun r _ => ?_⟩
  match r with
  | .error _ => trivial
  | .ok () => exact told_of_ne h

section Handlers

variable {client : Client} {payload : SocketEvent}

/-- Where a handler begins. -/
structure Begins (client : Client) (payload : SocketEvent) (m : Memory) (g : Point) : Prop where
  memory : m.handles = some (client, payload)
  user : g.user = some client.userId
  fresh : g.fresh = true
  drawn : g.drawn = none

theorem Begins.handles_event (h : Begins client payload m g) : g.Handles m :=
  ⟨client, payload, h.memory, h.user⟩

theorem handleConnection_obeys (h : Begins client payload m g) :
    wp (obeying protocol) (VoiceGateway.handleConnection client) (fun x _ g => Told x g)
      (fun _ _ _ => True) m g := by
  unfold VoiceGateway.handleConnection
  split
  · exact told_of_ne fun _ _ _ h => by cases h
  · rename_i sessionId _
    rw [wp_bind]
    refine wp_mono ?_ (fun _ _ _ h => h.elim) (getSession_obeys (.inr ⟨h.fresh, h.handles_event⟩))
    rintro x m₁ g₁ ⟨hstays₁, -, hx⟩
    cases x with
    | none => exact told_of_ne fun _ _ _ h => by cases h
    | some session =>
      have hread := hx session rfl
      dsimp only
      split
      · next huser =>
        -- the session is the user's
        have hknown := hread.known (by rw [h.user, huser])
        have hknows : g₁.Knows sessionId := fun _ _ => hknown
        rw [wp_bind]
        refine wp_mono ?_ (fun _ _ _ _ => trivial)
          (rules.updateSessionSocket_preserves m₁ g₁ ⟨hstays₁, hknows⟩)
        intro _ m₂ g₂ hat
        rw [wp_bind]
        refine wp_mono ?_ (fun _ _ _ _ => trivial) (rules.resumeSession_preserves m₂ g₂ hat)
        intro _ m₃ g₃ hat
        exact setActive_obeys (hat.1.mem_known h.user hat.2) fun _ _ _ h => by cases h
      · exact told_of_ne fun _ _ _ h => by cases h

/-- The session is the client's, or is left as it is. -/
theorem handleDisconnect_obeys (h : Begins client .disconnect m g) :
    wp (obeying protocol) (VoiceGateway.handleDisconnect client) (fun x _ g => Told x g)
      (fun _ _ _ => True) m g := by
  have hdelete : ∀ {m₁ g₁}, Stays g m.handles m₁ g₁ →
      wp (obeying protocol) (deleteUserActiveSession client.userId >>= fun _ => pure none)
        (fun x _ g => Told x g) (fun _ _ _ => True) m₁ g₁ := by
    intro m₁ g₁ hstays
    refine deleteActive_obeys (fun u hu => ?_) fun _ _ _ h => by cases h
    exact Option.some.inj ((hstays.user.trans h.user).symm.trans hu)
  unfold VoiceGateway.handleDisconnect
  split
  · exact told_of_ne fun _ _ _ h => by cases h
  · rename_i sessionId _
    unfold updateSessionState
    rw [wp_bind, wp_bind]
    refine wp_mono ?_ (fun _ _ _ h => h.elim) (getSession_obeys (.inr ⟨h.fresh, h.handles_event⟩))
    rintro x m₁ g₁ ⟨hstays₁, -, hx⟩
    cases x with
    | none => exact hdelete hstays₁
    | some session =>
      have hread := hx session rfl
      dsimp only
      cases htransition : transition session.state .idle with
      | error _ => exact hdelete hstays₁
      | ok _ =>
        have hidle := SessionRules.of_transition htransition
        have huser : session.userId = client.userId := by
          refine (hread.disconnect _ (by rw [h.memory]; rfl) rfl).resolve_right fun hnot => ?_
          rw [hidle] at hnot
          cases hnot
        have hmine : g.Mine session.userId := fun u hu =>
          huser.trans (Option.some.inj (h.user.symm.trans hu))
        have hheld := hread.held hstays₁ hmine fun _ _ => hread.known (by rw [h.user, huser])
        dsimp only
        rw [wp_bind]
        refine wp_mono ?_ (fun _ _ _ h => h) (rules.now hheld)
        rintro now _ g₂ ⟨rfl, hheld⟩
        refine wp_mono ?_ (fun _ _ _ _ => trivial)
          (SessionRules.wp_saveSession (rules.save hheld ⟨rfl, rfl, rfl, rfl, .inr hidle⟩))
        exact fun _ _ _ hat => hdelete hat.1

theorem createWithinLimit_obeys {dto : CreateSessionDto} (hhandles : g.Handles m)
    (hdrawn : g.drawn = none) :
    wp (obeying protocol) (VoiceGateway.createWithinLimit dto)
      (fun x m' g' => Stays g m.handles m' g' ∧ ∀ session, x = .ok session → g'.Knows session.id)
      (fun _ _ _ => True) m g := by
  unfold VoiceGateway.createWithinLimit
  rw [wp_tryCatch, wp_bind]
  refine wp_mono ?_ ?_ (createSession_obeys hhandles hdrawn)
  · rintro session m₁ g₁ ⟨hstays, hknows⟩
    refine ⟨hstays, fun session' hsession => ?_⟩
    cases hsession
    exact hknows
  · intro message m₁ g₁ hstays
    split
    · exact ⟨hstays, fun _ h => by cases h⟩
    · trivial

theorem createSession_handler_obeys {dto : CreateSessionDto} (h : Begins client payload m g) :
    wp (obeying protocol) (VoiceGateway.createSession client dto) (fun x _ g => Told x g)
      (fun _ _ _ => True) m g := by
  unfold VoiceGateway.createSession
  rw [wp_tryCatch, wp_bind]
  refine wp_mono ?_ (fun _ _ _ h => h.elim) (getUserActiveSessions_obeys h.handles_event)
  rintro sessions m₁ g₁ ⟨hstays₁, hdrawn₁, -, hsessions⟩
  have hfailed : ∀ (g' : Point) (message : String), Told (some (.error none message)) g' :=
    fun g' message => told_of_ne fun _ _ _ h => by cases h
  cases sessions with
  | cons existingSession sessions =>
    dsimp only
    rw [wp_bind]
    have hat := (⟨hstays₁, hsessions _ List.mem_cons_self⟩ :
      At g m.handles existingSession.id m₁ g₁)
    refine wp_mono ?_ (fun _ _ _ _ => hfailed _ _) (rules.updateSessionSocket_preserves m₁ g₁ hat)
    intro _ m₂ g₂ hat
    refine wp_mono (fun _ _ _ h => h) (fun _ _ _ _ => hfailed _ _)
      (setActive_obeys (hat.1.mem_known h.user hat.2) fun _ _ _ h => by cases h)
  | nil =>
    dsimp only
    have hhandles : g₁.Handles m₁ :=
      ⟨client, payload, hstays₁.handles.trans h.memory, hstays₁.user.trans h.user⟩
    rw [wp_bind]
    refine wp_mono ?_ (fun _ _ _ _ => hfailed _ _)
      (createWithinLimit_obeys hhandles (hdrawn₁.trans h.drawn))
    rintro created m₂ g₂ ⟨hstays₂, hknows⟩
    cases created with
    | error message => exact told_of_ne fun _ _ _ h => by cases h
    | ok session =>
      dsimp only
      rw [wp_bind]
      have hat := (⟨hstays₁.trans hstays₂, hknows session rfl⟩ :
        At g m.handles session.id m₂ g₂)
      refine wp_mono ?_ (fun _ _ _ _ => hfailed _ _)
        (rules.updateSessionSocket_preserves m₂ g₂ hat)
      intro _ m₃ g₃ hat
      refine wp_mono (fun _ _ _ h => h) (fun _ _ _ _ => hfailed _ _)
        (setActive_obeys (hat.1.mem_known h.user hat.2) fun _ _ _ h => by cases h)

/-- The user's active session is known. -/
theorem withActiveSession_obeys {failure : String} {handler : Uuid → On (Option ClientEvent)}
    (h : Begins client payload m g)
    (hhandler : ∀ sessionId g', Stays g m.handles m g' → g'.drawn = none → g'.Knows sessionId →
      wp (obeying protocol) (handler sessionId) (fun x _ g => Told x g) (fun _ _ _ => True) m g') :
    wp (obeying protocol) (VoiceGateway.withActiveSession client failure handler)
      (fun x _ g => Told x g) (fun _ _ _ => True) m g := by
  unfold VoiceGateway.withActiveSession
  rw [wp_tryCatch, wp_bind]
  refine ⟨fun u hu => Option.some.inj (h.user.symm.trans hu), fun r _ => ?_⟩
  have hstays := (Stays.refl g m).next (a := .getActive client.userId) trivial r
  match r with
  | .error _ => exact told_of_ne fun _ _ _ h => by cases h
  | .ok none => exact told_of_ne fun _ _ _ h => by cases h
  | .ok (some sessionId) =>
    refine wp_mono (fun _ _ _ h => h) ?_
      (hhandler sessionId _ hstays h.drawn fun _ _ => List.mem_cons_self)
    exact fun _ _ _ _ => told_of_ne fun _ _ _ h => by cases h

theorem interruptStream_obeys {sessionId : Uuid} {streamId : Option Uuid} (hhandles : g.Handles m)
    (hknows : g.Knows sessionId) : wp (obeying protocol) (interruptStream sessionId streamId)
      (fun _ => At g m.handles sessionId) (fun _ => At g m.handles sessionId) m g := by
  unfold interruptStream
  rw [wp_bind]
  refine wp_mono ?_ (fun _ _ _ h => h.elim) (getSession_obeys (.inl hknows))
  rintro x m₁ g₁ ⟨hstays₁, -, hx⟩
  have hat := (⟨hstays₁, hstays₁.knows hknows⟩ : At g m.handles sessionId m₁ g₁)
  cases x with
  | none => exact hat
  | some session =>
    obtain ⟨client, payload, hmemory, huser⟩ := hhandles
    dsimp only
    rw [wp_bind]
    refine ⟨⟨⟨client, payload, hstays₁.handles.trans hmemory, hstays₁.user.trans huser⟩,
      (hstays₁.mem_known huser hat.2).2⟩, fun r _ => ?_⟩
    have hat₂ := (⟨hstays₁.next (a := .interrupt _ _ sessionId m₁) trivial r,
      hat.2.next (.interrupt _ _ sessionId m₁) r⟩ : At g m.handles sessionId m₁ _)
    exact rules.interruptSession_preserves.bind (fun _ => .pure) m₁ _ hat₂

/-- A stream is started for a session of the user. -/
theorem startStreamingResponse_obeys {sessionId : Uuid} {content userId : String}
    (huser : g.user = some userId) (hdrawn : g.drawn = none) (hknows : g.Knows sessionId) :
    wp (obeying protocol) (startStreamingResponse sessionId content)
      (fun streamId _ g' => g'.user ≠ none ∧ sessionId ∈ g'.known ∧ g'.stream = some streamId)
      (fun _ _ _ => True) m g := by
  unfold startStreamingResponse
  rw [wp_bind]
  refine ⟨trivial, fun streamId _ => ?_⟩
  have hstays₁ := (Stays.refl g m).next (a := .randomUUID) trivial streamId
  have hdrawn₁ : (next g .randomUUID streamId).drawn = some streamId := by
    show g.drawn.or (some streamId) = some streamId
    rw [hdrawn]
    rfl
  show wp (obeying protocol) (getSession sessionId >>= fun _ => _) _ _ m (next g .randomUUID streamId)
  generalize next g .randomUUID streamId = g₁ at hstays₁ hdrawn₁
  have hknows₁ := hstays₁.knows hknows
  rw [wp_bind]
  refine wp_mono ?_ (fun _ _ _ h => h.elim) (getSession_obeys (.inl hknows₁))
  rintro x m₂ g₂ ⟨hstays₂, hdrawn₂, hx⟩
  cases x with
  | none => trivial
  | some session =>
    have hmine : session.userId = userId :=
      (hx session rfl).mine hknows₁ userId (hstays₁.user.trans huser)
    have hat := (⟨hstays₂, hstays₂.knows hknows₁⟩ : At g₁ m.handles sessionId m₂ g₂)
    dsimp only
    rw [wp_bind]
    refine wp_mono ?_ (fun _ _ _ _ => trivial) (rules.addMessage_preserves add m₂ g₂ hat)
    intro _ m₃ g₃ hat
    rw [wp_bind]
    refine wp_mono ?_ (fun _ _ _ _ => trivial) (rules.updateSessionState_preserves m₃ g₃ hat)
    intro _ m₄ g₄ hat
    obtain ⟨huser₄, hknown₄⟩ := hat.1.mem_known (hstays₁.user.trans huser) hat.2
    rw [wp_bind]
    refine ⟨⟨hat.1.drawn streamId hdrawn₁, by rw [hmine]; exact huser₄, hknown₄⟩, fun _ _ => ?_⟩
    refine ⟨?_, hknown₄, rfl⟩
    show g₄.user ≠ none
    rw [huser₄]
    exact fun h => by cases h

theorem handleMessage_obeys {content : String} (h : Begins client payload m g) :
    wp (obeying protocol) (VoiceGateway.handleMessage client content) (fun x _ g => Told x g)
      (fun _ _ _ => True) m g := by
  refine withActiveSession_obeys h fun sessionId g' hstays hdrawn hknows => ?_
  rw [wp_bind]
  refine wp_mono ?_ (fun _ _ _ h => h.elim) (getSession_obeys (.inl hknows))
  rintro x m₁ g₁ ⟨hstays₁, hdrawn₁, -⟩
  cases x with
  | none => exact told_of_ne fun _ _ _ h => by cases h
  | some session =>
    dsimp only
    split
    · rw [wp_bind]
      refine wp_mono ?_ (fun _ _ _ _ => trivial) (startStreamingResponse_obeys
        (hstays₁.user.trans (hstays.user.trans h.user)) (hdrawn₁.trans hdrawn)
        (hstays₁.knows hknows))
      intro streamId _ _ hstarted id stream _ hthis
      cases hthis
      exact hstarted
    · exact told_of_ne fun _ _ _ h => by cases h

theorem Begins.handles_stays (h : Begins client payload m g) {m' : Memory} {g' : Point}
    (hstays : Stays g m.handles m' g') : g'.Handles m' :=
  ⟨client, payload, hstays.handles.trans h.memory, hstays.user.trans h.user⟩

theorem handleInterrupt_obeys {streamId : Option Uuid} (h : Begins client payload m g) :
    wp (obeying protocol) (VoiceGateway.handleInterrupt client streamId) (fun x _ g => Told x g)
      (fun _ _ _ => True) m g := by
  refine withActiveSession_obeys h fun sessionId g' hstays _ hknows => ?_
  rw [wp_bind]
  refine wp_mono (fun success _ _ _ => ?_) (fun _ _ _ _ => trivial)
    (interruptStream_obeys (h.handles_stays hstays) hknows)
  cases success <;> exact told_of_ne fun _ _ _ h => by cases h

theorem handleSessionAction_obeys {dto : SessionActionDto} (h : Begins client payload m g) :
    wp (obeying protocol) (VoiceGateway.handleSessionAction client dto) (fun x _ g => Told x g)
      (fun _ _ _ => True) m g := by
  refine withActiveSession_obeys h fun sessionId g' hstays _ hknows => ?_
  have hfirst : wp (obeying protocol) (VoiceGateway.interruptIfAsked sessionId dto.interrupt)
      (fun _ => At g' m.handles sessionId) (fun _ => At g' m.handles sessionId) m g' := by
    unfold VoiceGateway.interruptIfAsked
    split
    · exact interruptStream_obeys (h.handles_stays hstays) hknows
    · exact ⟨.refl g' m, hknows⟩
  rw [wp_bind]
  refine wp_mono ?_ (fun _ _ _ _ => trivial) hfirst
  intro _ m₁ g₁ hat
  split
  · exact told_of_ne fun _ _ _ h => by cases h
  · rw [wp_bind]
    refine wp_mono (fun success _ _ _ => ?_) (fun _ _ _ _ => trivial)
      (rules.updateSessionState_preserves m₁ g₁ hat)
    cases success <;> exact told_of_ne fun _ _ _ h => by cases h

theorem handleTerminate_obeys (h : Begins client payload m g) :
    wp (obeying protocol) (VoiceGateway.handleTerminate client) (fun x _ g => Told x g)
      (fun _ _ _ => True) m g := by
  refine withActiveSession_obeys h fun sessionId g' hstays _ hknows => ?_
  rw [wp_bind]
  refine wp_mono ?_ (fun _ _ _ _ => trivial)
    (interruptStream_obeys (h.handles_stays hstays) hknows)
  intro _ m₁ g₁ hat
  rw [wp_bind]
  refine wp_mono ?_ (fun _ _ _ h => h)
    (rules.terminateSession_preserves (F := fun _ _ => True) m₁ g₁ hat)
  intro success m₂ g₂ hat
  cases success with
  | false => exact told_of_ne fun _ _ _ h => by cases h
  | true =>
    refine deleteActive_obeys (fun u hu => ?_) fun _ _ _ h => by cases h
    exact Option.some.inj ((hat.1.user.trans (hstays.user.trans h.user)).symm.trans hu)

theorem handlePing_obeys (h : Begins client payload m g) :
    wp (obeying protocol) (VoiceGateway.handlePing client) (fun x _ g => Told x g)
      (fun _ _ _ => True) m g := by
  have hmine : ∀ g' : Point, g'.user = some client.userId → g'.Mine client.userId :=
    fun g' huser u hu => Option.some.inj (huser.symm.trans hu)
  unfold VoiceGateway.handlePing
  rw [wp_bind]
  refine ⟨hmine g h.user, fun r _ => ?_⟩
  have hstays := (Stays.refl g m).next (a := .getActive client.userId) trivial r
  have hpong : ∀ m' g', wp (obeying protocol) (Voice.now >>= fun timestamp =>
      Pure.pure (some (.pong timestamp))) (fun x _ g => Told x g) (fun _ _ _ => True) m' g' :=
    fun m' g' => ⟨trivial, fun _ _ => told_of_ne fun _ _ _ h => by cases h⟩
  match r with
  | .error _ => trivial
  | .ok none => exact hpong m _
  | .ok (some sessionId) =>
    have hat := (⟨hstays, fun _ _ => List.mem_cons_self⟩ : At g m.handles sessionId m _)
    show wp (obeying protocol) (VoiceGateway.keepAlive client (some sessionId) >>= fun _ => _) _ _ m _
    unfold VoiceGateway.keepAlive
    rw [wp_bind, wp_bind]
    refine wp_mono ?_ (fun _ _ _ _ => trivial) (rules.updateSessionSocket_preserves m _ hat)
    intro _ m₁ g₁ hat
    rw [wp_bind]
    refine wp_mono ?_ (fun _ _ _ _ => trivial) (rules.updateLastPingAt_preserves m₁ g₁ hat)
    intro _ m₂ g₂ hat
    refine ⟨hmine g₂ (hat.1.user.trans h.user), fun r _ => ?_⟩
    match r with
    | .error _ => trivial
    | .ok () => exact hpong m₂ _

end Handlers

/-! ### Streams and cleanup -/

theorem plain_pre {sessionId : Uuid} {a : Request} (hplain : Plain a) (hasks : asks g a)
    (hat : At g₀ handles sessionId m g) :
    (obeying protocol).pre a (fun _ g' => At g₀ handles sessionId m g') g :=
  ⟨hasks, fun r _ => ⟨hat.1.next hplain r, hat.2.next a r⟩⟩

section Streams

variable {sessionId streamId : Uuid}

theorem emitChunks_preserves (huser : g₀.user ≠ none) (hstream : g₀.stream = some streamId)
    {room : String} (rest : List String) : ∀ text isFirst, Preserves (obeying protocol)
      (At g₀ handles sessionId) (At g₀ handles sessionId)
      (emitChunks streamId room sessionId text isFirst rest) := by
  induction rest with
  | nil => exact fun _ _ => .pure
  | cons word rest ih =>
    intro text isFirst
    refine .bind (.request (fun _ _ h => h) fun m g hat => ?_) fun emitted => ?_
    · exact plain_pre trivial ⟨hat.1.user ▸ huser, hat.1.stream.trans hstream⟩ hat
    · split
      · split
        · exact .pure
        · exact .bind (.request (fun _ _ h => h) fun m g hat => plain_pre trivial trivial hat)
            fun _ => ih _ _
      · exact .pure

theorem completeStreamingResponse_preserves (huser : g₀.user ≠ none)
    (hstream : g₀.stream = some streamId) {fullResponse : String} :
    Preserves (obeying protocol) (At g₀ handles sessionId) (At g₀ handles sessionId)
      (completeStreamingResponse sessionId streamId fullResponse) := by
  refine rules.after_getSession fun session => ?_
  cases session with
  | none => exact .pure
  | some session =>
    refine .bind (.request (fun _ _ h => h) fun m g hat =>
      plain_pre trivial ⟨hat.1.user ▸ huser, hat.1.stream.trans hstream⟩ hat) fun active => ?_
    split
    · refine .bind (rules.addMessage_preserves add) fun _ => .bind (.request (fun _ _ h => h)
        fun m g hat => plain_pre trivial trivial hat) fun _ => ?_
      refine .bind rules.updateSessionState_preserves fun _ => .request (fun _ _ h => h)
        fun m g hat => ?_
      exact plain_pre trivial ⟨hat.1.user ▸ huser, hat.1.stream.trans hstream⟩ hat
    · exact .pure

theorem generateStreamingResponse_preserves (huser : g₀.user ≠ none)
    (hstream : g₀.stream = some streamId) {userMessage : String} :
    Preserves (obeying protocol) (At g₀ handles sessionId) (At g₀ handles sessionId)
      (generateStreamingResponse sessionId streamId userMessage) := by
  refine rules.after_getSession fun session => ?_
  cases session with
  | none => exact .pure
  | some session =>
    refine .bind (.request (fun _ _ h => h) fun m g hat =>
      plain_pre trivial ⟨hat.1.user ▸ huser, hat.1.stream.trans hstream⟩ hat) fun active => ?_
    split
    · refine .bind rules.updateSessionState_preserves fun _ => .bind ?_ fun fullResponse => ?_
      · refine fun m g hat => ⟨trivial, fun r _ => ?_⟩
        have hnext := (plain_pre (a := .generateResponse _ sessionId userMessage m) trivial trivial
          hat).2 r trivial
        match r with
        | .error _ => exact hnext
        | .ok _ => exact hnext
      · refine .bind (.request (fun _ _ h => h) fun m g hat => plain_pre trivial trivial hat)
          fun _ => .bind (emitChunks_preserves huser hstream _ _ _) fun finished => ?_
        split
        · exact completeStreamingResponse_preserves huser hstream
        · exact .pure
    · exact .pure

theorem generate_obeys (huser : g.user ≠ none) (hknown : sessionId ∈ g.known)
    (hstream : g.stream = some streamId) {userMessage : String} :
    wp (obeying protocol) (generate sessionId streamId userMessage) (fun _ _ _ => True)
      (fun _ _ _ => True) () g := by
  unfold generate
  rw [wp_tryCatch, wp_bind]
  refine ⟨trivial, fun _ _ => ?_⟩
  show wp (obeying protocol) (call _ _ >>= fun _ => _) _ _ () { g with fresh := false }
  rw [wp_bind, wp_call]
  have hat : At g none sessionId { stream := some streamId } { g with fresh := false } :=
    ⟨⟨rfl, rfl, rfl, fun _ h => h, List.Subset.refl _⟩, fun _ _ => hknown⟩
  refine wp_mono ?_ ?_ (generateStreamingResponse_preserves huser hstream _ _ hat)
  · exact fun _ _ _ _ => trivial
  · exact fun _ _ _ _ => trivial

end Streams

theorem cleanupWhere_obeys {due : Int → VoiceSession → Bool} (huser : g.user = none) :
    wp (obeying protocol) (cleanupWhere due) (fun _ _ _ => True) (fun _ _ _ => True) m g := by
  have hpreserves : Preserves (obeying protocol) (Stays g m.handles) (Stays g m.handles)
      (cleanupWhere due) := by
    have hrules : SessionRules (obeying protocol) (At g m.handles) (At g m.handles)
        (Held g m.handles) _ := rules
    refine hrules.cleanupWhere_preserves (fun sessionId m' g' => ?_) fun a m' g' ha h => ?_
    · refine ⟨And.left, fun h => ⟨h, fun u hu => ?_⟩⟩
      rw [h.user, huser] at hu
      cases hu
    · rcases ha with rfl | rfl
      · exact ⟨trivial, fun r _ => h.next (a := .now) trivial r⟩
      · exact ⟨trivial, fun r _ => h.next (a := .scanKeys) trivial r⟩
  exact wp_mono (fun _ _ _ _ => trivial) (fun _ _ _ _ => trivial) (hpreserves m g (.refl g m))

theorem handle_obeys {client : Client} {payload : SocketEvent} (h : Begins client payload m g) :
    wp (obeying protocol) (VoiceGateway.handle client payload) (fun x _ g => Told x g)
      (fun _ _ _ => True) m g := by
  cases payload with
  | connection => exact handleConnection_obeys h
  | disconnect => exact handleDisconnect_obeys h
  | createSession dto => exact createSession_handler_obeys h
  | message content => exact handleMessage_obeys h
  | interrupt streamId => exact handleInterrupt_obeys h
  | action dto => exact handleSessionAction_obeys h
  | terminate => exact handleTerminate_obeys h
  | ping => exact handlePing_obeys h

theorem program_obeys (op : GatewayOperation) :
    Async.wp (obeying protocol) op.program (fun _ _ => True) (begin op) := by
  refine wp_program.mpr ?_
  have hcleanup : ∀ due, wp (obeying protocol) (cleanupWhere due) (fun _ _ _ => True)
      (fun _ _ _ => True) {} {} := fun due => cleanupWhere_obeys rfl
  cases op with
  | event client payload =>
    unfold GatewayOperation.block
    rw [wp_bind, wp_call]
    refine wp_mono ?_ (fun _ _ _ _ => trivial) (handle_obeys ⟨rfl, rfl, rfl, rfl⟩)
    intro response _ g htold
    match response, htold with
    | none, _ => trivial
    | some (.started sessionId streamId userMessage), htold =>
      obtain ⟨huser, hknown, hstream⟩ := htold sessionId streamId userMessage rfl
      dsimp only
      rw [wp_bind]
      exact wp_mono (fun _ _ _ _ => trivial) (fun _ _ _ _ => trivial)
        (generate_obeys huser hknown hstream)
    | some (.resumed _ _), _ => trivial
    | some (.sessionCreated _), _ => trivial
    | some (.interruptAcknowledged _ _), _ => trivial
    | some (.stateUpdated _ _), _ => trivial
    | some (.terminated _), _ => trivial
    | some (.pong _), _ => trivial
    | some (.error _ _), _ => trivial
  | cleanupStaleSessions =>
    unfold GatewayOperation.block
    rw [wp_bind, wp_call]
    exact wp_mono (fun _ _ _ _ => trivial) (fun _ _ _ _ => trivial) (hcleanup isStale)
  | cleanupExpiredSessions =>
    unfold GatewayOperation.block
    rw [wp_bind, wp_call]
    exact wp_mono (fun _ _ _ _ => trivial) (fun _ _ _ _ => trivial) (hcleanup isExpired)

/-! ### Sessions of other users -/

/-- The program of an event, by what its handler does. -/
def eventProgram (client : Client) (payload : SocketEvent) (handler : On (Option ClientEvent)) :
    Async Request Answer (Except String GatewayReply) :=
  Block.program do
    let response ← call handler { handles := some (client, payload) }
    match response with
    | some (.started sessionId streamId userMessage) => do
      let thrown ← generate sessionId streamId userMessage
      pure (.streamed streamId thrown)
    | response => pure (.told response)

/-- A handler that reads a session first, and does the same with that of another user as without. -/
theorem eventProgram_blind {client : Client} {payload : SocketEvent} {sessionId : Uuid}
    {f : Option VoiceSession → On (Option ClientEvent)}
    (h : ∀ s : VoiceSession, s.userId ≠ client.userId →
      (payload = .disconnect → canTransition s.state .idle = false) →
      ∀ m m', eventProgram client payload (fun _ => f none m) =
        eventProgram client payload fun _ => f (some s) m') :
    Async.Blind Unlike (begin (.event client payload))
      (eventProgram client payload (getSession sessionId >>= f)) := by
  intro r r' hD
  obtain ⟨-, s, rfl, rfl, hs⟩ := hD
  obtain ⟨huser, hidle⟩ := hs (client, payload) rfl
  exact h s huser hidle _ _

theorem getSession_bind_assoc {β : Type} {sessionId : Uuid} (f : Option VoiceSession → On α)
    (f' : α → On β) :
    (getSession sessionId >>= f) >>= f' = getSession sessionId >>= fun x => f x >>= f' := by
  funext m
  refine congrArg (Async.await (Request.get sessionId m)) (funext fun r => ?_)
  cases r with
  | error e => rfl
  | ok x => rfl

theorem handleConnection_blind {client : Client} :
    Async.Blind Unlike (begin (.event client .connection))
      (eventProgram client .connection (VoiceGateway.handleConnection client)) := by
  unfold VoiceGateway.handleConnection
  split
  · trivial
  · refine eventProgram_blind fun s huser _ m m' => ?_
    dsimp only
    rw [if_neg huser]
    rfl

theorem handleDisconnect_blind {client : Client} :
    Async.Blind Unlike (begin (.event client .disconnect))
      (eventProgram client .disconnect (VoiceGateway.handleDisconnect client)) := by
  unfold VoiceGateway.handleDisconnect
  split
  · trivial
  · have hnot : ∀ s : VoiceSession, canTransition s.state .idle = false →
        ∃ e, transition s.state .idle = .error e := by
      intro s hidle
      unfold transition
      rw [hidle]
      exact ⟨_, rfl⟩
    unfold updateSessionState
    rw [getSession_bind_assoc]
    refine eventProgram_blind fun s _ hidle m m' => ?_
    obtain ⟨e, he⟩ := hnot s (hidle rfl)
    dsimp only
    rw [he]
    exact congrArg (Async.await (Request.delActive client.userId)) (funext fun r => by cases r <;> rfl)

/-- What a client is told of a session that is not its user's is what it is told of none. -/
theorem program_blind (op : GatewayOperation) : Async.Blind Unlike (begin op) op.program := by
  cases op with
  | cleanupStaleSessions => exact fun r r' hD => hD.elim
  | cleanupExpiredSessions => exact fun r r' hD => hD.elim
  | event client payload =>
    cases payload with
    | createSession => exact fun r r' hD => hD.elim
    | message => exact fun r r' hD => hD.elim
    | interrupt => exact fun r r' hD => hD.elim
    | action => exact fun r r' hD => hD.elim
    | terminate => exact fun r r' hD => hD.elim
    | ping => exact fun r r' hD => hD.elim
    | connection => exact handleConnection_blind
    | disconnect => exact handleDisconnect_blind

end Programs

end Isolation

end Stellara.Voice
