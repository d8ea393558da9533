import Stellara.Voice.Rules

/-!
# Updates of one session

Two calls that change a session may read it before either writes it back:

    addMessage:          get                setEx [a]
    addMessage:               get setEx [b]                message b is gone
    updateLastPingAt:    get                setEx
    terminateSession:         get del sRem                 the session is there again

If every session that is written back is still stored with the messages and the state that it was
read with, no message is lost before the session is terminated, its state moves along
`validTransitions`, and a terminated session does not come back (`no_update_lost`).
-/

namespace Stellara.Voice

open Block VoiceSessionService ConversationStateMachineService
open Async (Answered obeying Apart)

/-- A session that is written back is stored with the messages and the state it was read with. -/
def World.Untouched (w : World) : Request → Prop
  | .setEx session m =>
    ∀ r ∈ m.read, ∃ s ∈ w.session session.id, s.messages = r.messages ∧ s.state = r.state
  | _ => True

instance (w : World) : DecidablePred w.Untouched := fun a => by
  induction a using Request.casesOn <;> unfold World.Untouched <;> infer_instance

/-- A session that is written back in this step is untouched. -/
abbrev StepUntouched (e : Event Outside (Async.Move Operation) Unit System) : Prop :=
  Async.Meets (fun (c : Outside) (w : World) => (w.tick c.now).Untouched) e

/-- No session has expired by this step. -/
def StepExpiresNothing (e : Event Outside (Async.Move Operation) Unit System) : Prop :=
  ∀ key ∈ e.before.world.sessions.keys, ∀ x ∈ e.before.world.sessions.lookup key,
    x.Live e.env.now = true

instance : DecidablePred StepExpiresNothing := fun _ => inferInstanceAs (Decidable (∀ _ ∈ _, _))

/-- The sessions that are stored before and after this step are in states that follow. -/
def StepTransitions (e : Event Outside (Async.Move Operation) Unit System) : Prop :=
  ∀ sessionId s s', e.before.world.session sessionId = some s →
    e.after.world.session sessionId = some s' →
    s'.state = s.state ∨ canTransition s.state s'.state = true

structure NoUpdateLost (tr : Trace) (t : System) : Prop where
  /-- a message that has been added is there until the session is terminated -/
  messages : ∀ e ∈ tr, ∀ sessionId content isUser metadata,
    e.call = .start (.addMessage sessionId content isUser metadata) →
    ∀ message, t.tasks[e.before.tasks.length]? = some (.done (.ok (.message (some message)))) →
      sessionId ∈ t.world.terminated ∨ ∃ s ∈ t.world.session sessionId, message ∈ s.messages
  states : ∀ e ∈ tr, StepTransitions e
  terminated : ∀ sessionId ∈ t.world.terminated, t.world.session sessionId = none

/-- The session has been created. -/
def World.Known (w : World) (sessionId : Uuid) : Prop := ∃ userId, (sessionId, userId) ∈ w.created

namespace Updates

/-! ## The way of a call -/

/-- The session that the call is for, the session it has saved last, the last id that was read and
found, and the UUID that was drawn and is not yet the id of a session. -/
structure Point where
  target : Option Uuid := none
  saved : Option VoiceSession := none
  found : Option Uuid := none
  drawn : Option Uuid := none

/-- What a session may be written back as. -/
structure Continues (r session : VoiceSession) : Prop where
  id : session.id = r.id
  messages : r.messages ⊆ session.messages
  state : session.state = r.state ∨ canTransition r.state session.state = true

def asks (g : Point) : Request → Prop
  | .setEx session m => 0 < session.ttl ∧
    ((m.read = none ∧ g.drawn = some session.id) ∨ ∃ r, m.read = some r ∧ Continues r session)
  | .del sessionId => g.found = some sessionId
  | _ => True

def told : (a : Request) → Answer a → Prop
  | .get sessionId _, r =>
    ∀ s, (r : Except String (Option VoiceSession)) = .ok (some s) → s.id = sessionId ∧ 0 < s.ttl
  | _, _ => True

def next (g : Point) : (a : Request) → Answer a → Point
  | .get sessionId _, .ok (some _) => { g with found := some sessionId }
  | .randomUUID, id => { g with drawn := some id }
  | .setEx session _, .ok () => { g with saved := some session, drawn := none }
  | _, _ => g

abbrev protocol : Protocol Request Answer Point := ⟨asks, fun _ => told, next⟩

def begin : Operation → Point
  | .addMessage sessionId _ _ _ => { target := some sessionId }
  | _ => {}

/-- A call that returns a message has saved a session with it, the one it is for. -/
def End (x : Except String Reply) (g : Point) : Prop :=
  ∀ message, x = .ok (.message (some message)) →
    ∃ session, g.saved = some session ∧ g.target = some session.id ∧ message ∈ session.messages

section Programs

variable {α : Type} {m : Memory} {g : Point}

theorem now_obeys {Q : Int → Memory → Point → Prop} {E : String → Memory → Point → Prop}
    (h : ∀ n, Q n m g) : wp (obeying protocol) now Q E m g :=
  ⟨trivial, fun n _ => h n⟩

theorem uuidv4_obeys {Q : Uuid → Memory → Point → Prop} {E : String → Memory → Point → Prop}
    (h : ∀ id, Q id m { g with drawn := some id }) : wp (obeying protocol) uuidv4 Q E m g :=
  ⟨trivial, fun id _ => h id⟩

theorem getSession_obeys {sessionId : Uuid} {Q : Option VoiceSession → Memory → Point → Prop}
    {E : String → Memory → Point → Prop} (hnone : Q none { m with read := none } g)
    (hsome : ∀ s, s.id = sessionId → 0 < s.ttl →
      Q (some s) { m with read := some s } { g with found := some sessionId }) :
    wp (obeying protocol) (getSession sessionId) Q E m g := by
  unfold getSession
  rw [wp_tryCatch]
  refine ⟨trivial, fun r hr => ?_⟩
  match r, hr with
  | .error e, _ => exact hnone
  | .ok none, _ => exact hnone
  | .ok (some s), hr =>
    obtain ⟨hid, httl⟩ := hr s rfl
    exact hsome s hid httl

theorem saveSession_obeys {session : VoiceSession} {Q : Unit → Memory → Point → Prop}
    {E : String → Memory → Point → Prop} (hasks : asks g (.setEx session m))
    (hok : Q () m { g with saved := some session, drawn := none }) (herror : ∀ e, E e m g) :
    wp (obeying protocol) (saveSession session) Q E m g := by
  refine ⟨hasks, fun r _ => ?_⟩
  match r with
  | .error e => exact herror e
  | .ok () => exact hok

theorem rules : SessionRules (obeying protocol) (fun _ _ _ => True) (fun _ _ _ => True)
    (fun s m g => m.read = some s ∧ 0 < s.ttl ∧ g.found = some s.id) (fun _ _ _ => True) where
  of_held _ := trivial
  at_of _ := trivial
  draw ha hheld := by
    rcases ha with rfl | rfl <;> exact ⟨trivial, fun _ _ => hheld⟩
  get {sessionId m g} _ := by
    refine ⟨trivial, fun r hr => ?_⟩
    match r, hr with
    | .error _, _ => trivial
    | .ok none, _ => trivial
    | .ok (some s), hr =>
      obtain ⟨hid, httl⟩ := hr s rfl
      exact ⟨hid, rfl, httl, by rw [hid]; rfl⟩
  save {r session m g} hheld hfollows := by
    refine ⟨⟨hfollows.ttl ▸ hheld.2.1, .inr ⟨r, hheld.1, hfollows.id, ?_, hfollows.state⟩⟩, ?_⟩
    · rw [hfollows.messages]
      exact List.Subset.refl _
    · intro x _
      match x with
      | .error _ => trivial
      | .ok () => trivial
  remove hheld := ⟨hheld.2.2, fun _ _ => trivial⟩
  index {a s m g} ha _ := by
    refine ⟨?_, fun _ _ => trivial⟩
    cases a with
    | sRem | getActive | delActive => trivial
    | _ => exact ha.elim

/-- Whatever happens. -/
abbrev Safe (block : On α) : Prop :=
  Preserves (obeying protocol) (fun _ _ => True) (fun _ _ => True) block

theorem getSessions_safe (ids : List Uuid) : Safe (getSessions ids) := by
  induction ids with
  | nil => exact .pure
  | cons id ids ih =>
    refine .bind (fun m g _ => ?_) fun _ => ih.bind fun _ => .pure
    exact getSession_obeys trivial fun _ _ _ => trivial

theorem getUserActiveSessions_safe {userId : String} : Safe (getUserActiveSessions userId) := by
  refine .tryCatch (F := fun _ _ => True) (.bind ?_ fun ids => getSessions_safe ids)
    fun _ _ _ _ => trivial
  refine fun m g _ => ⟨trivial, fun r _ => ?_⟩
  match r with
  | .error e => trivial
  | .ok (ids, created) => trivial

theorem addUserSession_safe {userId : String} {sessionId : Uuid} :
    Safe (addUserSession userId sessionId) :=
  .bind (.request (fun _ _ h => h) fun _ _ _ => ⟨trivial, fun _ _ => trivial⟩) fun _ =>
    .request (fun _ _ h => h) fun _ _ _ => ⟨trivial, fun _ _ => trivial⟩

/-- A new session is saved under a new UUID. -/
theorem createSession_safe {userId : String} {context : FeatureContext}
    {walletAddress metadata : Option String} :
    Safe (createSession userId context walletAddress metadata) := by
  refine getUserActiveSessions_safe.bind fun sessions => ?_
  split
  · exact .throw fun _ _ h => h
  · intro m g _
    unfold VoiceSession.create
    rw [wp_bind, wp_bind]
    refine now_obeys fun now => ?_
    rw [wp_bind]
    refine uuidv4_obeys fun id => ?_
    rw [wp_bind, wp_modify, wp_pure, wp_bind]
    have httl : (0 : Int) < 3600 := by decide
    refine saveSession_obeys ⟨httl, .inl ⟨rfl, rfl⟩⟩ ?_ fun _ => trivial
    exact addUserSession_safe.bind (fun _ => .pure) _ _ trivial

theorem addMessage_obeys {sessionId : Uuid} {content : String} {isUser : Bool}
    {metadata : Option String} (htarget : g.target = some sessionId) :
    wp (obeying protocol) (addMessage sessionId content isUser metadata)
      (fun x _ g => End (.ok (.message x)) g) (fun _ _ _ => True) m g := by
  unfold addMessage
  rw [wp_bind]
  refine getSession_obeys (fun _ h => by cases h) fun s hid httl => ?_
  dsimp only
  rw [wp_bind]
  refine uuidv4_obeys fun id => ?_
  rw [wp_bind]
  refine now_obeys fun timestamp => ?_
  rw [wp_bind, wp_get, wp_bind]
  refine now_obeys fun lastActivityAt => ?_
  rw [wp_bind]
  refine saveSession_obeys ⟨httl, .inr ⟨s, rfl, rfl, ?_, .inl rfl⟩⟩ ?_ fun _ => trivial
  · exact List.subset_append_left _ _
  · intro message hmessage
    cases hmessage
    refine ⟨_, rfl, ?_, List.mem_append_right _ (List.mem_singleton_self _)⟩
    show g.target = some s.id
    rw [htarget, hid]

theorem cleanupWhere_safe {due : Int → VoiceSession → Bool} : Safe (cleanupWhere due) := by
  refine rules.cleanupWhere_preserves (fun _ _ _ => Iff.rfl) fun a m g ha _ => ?_
  rcases ha with rfl | rfl <;> exact ⟨trivial, fun _ _ => trivial⟩

theorem cleanupStaleSessions_safe : Safe cleanupStaleSessions := cleanupWhere_safe

theorem cleanupExpiredSessions_safe : Safe cleanupExpiredSessions := cleanupWhere_safe

theorem ends_of_safe {block : On α} {f : α → Reply} (h : Safe block) (hf : ∀ x y, f x ≠ .message y) :
    wp (obeying protocol) (block >>= fun x => Pure.pure (f x)) (fun x _ g => End (.ok x) g)
      (fun _ _ _ => True) m g := by
  rw [wp_bind]
  refine wp_mono (fun x _ _ _ => ?_) (fun _ _ _ _ => trivial) (h m g trivial)
  intro message hx
  exact absurd (Except.ok.inj hx) (hf x _)

theorem block_obeys (op : Operation) :
    wp (obeying protocol) op.block (fun x _ g => End (.ok x) g) (fun _ _ _ => True) m (begin op) := by
  cases op with
  | addMessage sessionId content isUser metadata =>
    unfold Operation.block
    rw [wp_bind]
    exact addMessage_obeys rfl
  | createSession => exact ends_of_safe createSession_safe fun _ _ h => by cases h
  | updateSessionState => exact ends_of_safe rules.updateSessionState_preserves fun _ _ h => by cases h
  | interruptSession => exact ends_of_safe rules.interruptSession_preserves fun _ _ h => by cases h
  | resumeSession => exact ends_of_safe rules.resumeSession_preserves fun _ _ h => by cases h
  | terminateSession => exact ends_of_safe rules.terminateSession_preserves fun _ _ h => by cases h
  | updateSessionSocket => exact ends_of_safe rules.updateSessionSocket_preserves fun _ _ h => by cases h
  | updateLastPingAt => exact ends_of_safe rules.updateLastPingAt_preserves fun _ _ h => by cases h
  | cleanupStaleSessions => exact ends_of_safe cleanupStaleSessions_safe fun _ _ h => by cases h
  | cleanupExpiredSessions => exact ends_of_safe cleanupExpiredSessions_safe fun _ _ h => by cases h

theorem program_obeys (op : Operation) : Async.wp (obeying protocol) op.program End (begin op) := by
  have hblock := block_obeys (m := {}) op
  refine wp_program.mpr (wp_call.mpr (wp_mono ?_ ?_ hblock))
  · exact fun x _ g h => h
  · intro e _ g _ message h
    cases h

end Programs

/-! ## The invariant -/

structure Books (tr : Trace) (w : World) (gs : List Point) : Prop where
  sound : ∀ sessionId s, w.session sessionId = some s →
    s.id = sessionId ∧ 0 < s.ttl ∧ w.Known sessionId
  terminated : ∀ sessionId ∈ w.terminated, w.session sessionId = none ∧ w.Known sessionId
  known : ∀ sessionId, w.Known sessionId → sessionId ∈ w.uuids
  drawn : ∀ g ∈ gs, ∀ id, g.drawn = some id → id ∈ w.uuids ∧ ¬ w.Known id
  apart : Apart Point.drawn gs
  found : ∀ g ∈ gs, ∀ sessionId, g.found = some sessionId → w.Known sessionId
  saved : ∀ g ∈ gs, ∀ session, g.saved = some session →
    session.id ∈ w.terminated ∨ ∃ s ∈ w.session session.id, session.messages ⊆ s.messages
  states : ∀ e ∈ tr, StepTransitions e
  targets : ∀ e ∈ tr, ∀ sessionId content isUser metadata,
    e.call = .start (.addMessage sessionId content isUser metadata) →
    ∃ g, gs[e.before.tasks.length]? = some g ∧ g.target = some sessionId

theorem books_init : Books [] {} [] where
  sound _ _ h := by cases h
  terminated _ h := by cases h
  known _ h := by
    obtain ⟨_, h⟩ := h
    cases h
  drawn _ h := by cases h
  apart := .nil
  found _ h := by cases h
  saved _ h := by cases h
  states _ h := by cases h
  targets _ h := by cases h

variable {tr : Trace} {w w' : World} {gs : List Point}
  {e : Event Outside (Async.Move Operation) Unit System}

theorem Books.start {op : Operation} (h : Books tr e.before.world gs) (hcall : e.call = .start op)
    (hafter : e.after.world = e.before.world) (hlen : e.before.tasks.length = gs.length) :
    Books (e :: tr) e.before.world (gs ++ [begin op]) := by
  have hbegin : (begin op).drawn = none ∧ (begin op).found = none ∧ (begin op).saved = none := by
    cases op <;> exact ⟨rfl, rfl, rfl⟩
  obtain ⟨hdrawn, hfound, hsaved⟩ := hbegin
  have hmem : ∀ g ∈ gs ++ [begin op], g ∈ gs ∨ g = begin op := by
    intro g hg
    rcases List.mem_append.mp hg with hg | hg
    · exact .inl hg
    · exact .inr (List.mem_singleton.mp hg)
  refine ⟨h.sound, h.terminated, h.known, ?_, h.apart.append hdrawn, ?_, ?_, ?_, ?_⟩
  · intro g hg id hid
    rcases hmem g hg with hg | rfl
    · exact h.drawn g hg id hid
    · rw [hdrawn] at hid
      cases hid
  · intro g hg sessionId hid
    rcases hmem g hg with hg | rfl
    · exact h.found g hg sessionId hid
    · rw [hfound] at hid
      cases hid
  · intro g hg session hid
    rcases hmem g hg with hg | rfl
    · exact h.saved g hg session hid
    · rw [hsaved] at hid
      cases hid
  · intro e' he' sessionId s s' hs hs'
    rcases List.mem_cons.mp he' with rfl | he'
    · rw [hafter, hs] at hs'
      cases hs'
      exact .inl rfl
    · exact h.states e' he' sessionId s s' hs hs'
  · intro e' he' sessionId content isUser metadata hcall'
    rcases List.mem_cons.mp he' with rfl | he'
    · obtain rfl : op = .addMessage sessionId content isUser metadata := by
        rw [hcall] at hcall'
        exact Async.Move.start.inj hcall'
      refine ⟨begin (.addMessage sessionId content isUser metadata), ?_, rfl⟩
      rw [hlen, List.getElem?_append_right (Nat.le_refl _), Nat.sub_self]
      rfl
    · obtain ⟨g, hg, htarget⟩ := h.targets e' he' _ _ _ _ hcall'
      refine ⟨g, ?_, htarget⟩
      rw [List.getElem?_append_left (List.getElem?_eq_some_iff.mp hg).1]
      exact hg

/-! ### One answer -/

section Step

variable {i : Nat} {a : Request} {r : Answer a} {g : Point}

/-- What one answer does to the sessions, whichever request it is for. -/
structure Moved (w w' : World) : Prop where
  sound : ∀ sessionId s, w'.session sessionId = some s →
    s.id = sessionId ∧ 0 < s.ttl ∧ w'.Known sessionId
  terminated : ∀ sessionId ∈ w'.terminated, w'.session sessionId = none ∧ w'.Known sessionId
  known : ∀ sessionId, w'.Known sessionId → sessionId ∈ w'.uuids
  grown : ∀ sessionId, w.Known sessionId → w'.Known sessionId
  kept : ∀ sessionId s, w.session sessionId = some s →
    sessionId ∈ w'.terminated ∨ ∃ s' ∈ w'.session sessionId, s.messages ⊆ s'.messages
  ended : w.terminated ⊆ w'.terminated
  states : ∀ sessionId s s', w.session sessionId = some s → w'.session sessionId = some s' →
    s'.state = s.state ∨ canTransition s.state s'.state = true

theorem session_tick {now : Int} (hle : w.now ≤ now)
    (hlive : ∀ key ∈ w.sessions.keys, ∀ x ∈ w.sessions.lookup key, x.Live now = true)
    (sessionId : Uuid) : (w.tick now).session sessionId = w.session sessionId := by
  show Expiring.read now w.sessions sessionId = Expiring.read w.now w.sessions sessionId
  unfold Expiring.read
  cases hx : w.sessions.lookup sessionId with
  | none => rfl
  | some x =>
    have hmem : sessionId ∈ w.sessions.keys :=
      AList.mem_keys.mpr (AList.lookup_isSome.mp (by rw [hx]; rfl))
    have hnow := hlive sessionId hmem x hx
    rw [Option.filter_some, Option.filter_some, if_pos hnow, if_pos (Expiring.live_of_le hle hnow)]

theorem known_congr (hcreated : w'.created = w.created) (id : Uuid) : w'.Known id ↔ w.Known id := by
  unfold World.Known
  rw [hcreated]

theorem Books.moved_same (h : Books tr w gs) (hsession : ∀ id, w'.session id = w.session id)
    (hcreated : w'.created = w.created) (hterminated : w'.terminated = w.terminated)
    (huuids : w.uuids ⊆ w'.uuids) : Moved w w' := by
  have hknown : ∀ id, w'.Known id ↔ w.Known id := known_congr hcreated
  refine ⟨?_, ?_, ?_, ?_, ?_, ?_, ?_⟩
  · intro id s hs
    rw [hsession] at hs
    rw [hknown]
    exact h.sound id s hs
  · intro id hid
    rw [hterminated] at hid
    rw [hsession, hknown]
    exact h.terminated id hid
  · exact fun id hid => huuids (h.known id ((hknown id).mp hid))
  · exact fun id hid => (hknown id).mpr hid
  · intro id s hs
    rw [hsession]
    exact .inr ⟨s, hs, List.Subset.refl _⟩
  · rw [hterminated]
    exact List.Subset.refl _
  · intro id s s' hs hs'
    rw [hsession, hs] at hs'
    cases hs'
    exact .inl rfl

/-- A session with a new id. -/
theorem Books.moved_new (h : Books tr w gs) (hmem : g ∈ gs) {session : VoiceSession}
    (hdrawn : g.drawn = some session.id) (httl : 0 < session.ttl)
    (hsession : ∀ id, w'.session id = if id = session.id then some session else w.session id)
    (hcreated : w'.created = (session.id, session.userId) :: w.created)
    (hterminated : w'.terminated = w.terminated) (huuids : w.uuids ⊆ w'.uuids) : Moved w w' := by
  obtain ⟨huuid, hnew⟩ := h.drawn g hmem _ hdrawn
  have hgrown : ∀ id, w.Known id → w'.Known id := by
    rintro id ⟨userId, hid⟩
    exact ⟨userId, by rw [hcreated]; exact List.mem_cons_of_mem _ hid⟩
  have hthis : w'.Known session.id := ⟨session.userId, by rw [hcreated]; exact List.mem_cons_self⟩
  have hother : ∀ id s, w.session id = some s → id ≠ session.id := by
    rintro id s hs rfl
    exact hnew (h.sound _ s hs).2.2
  refine ⟨?_, ?_, ?_, hgrown, ?_, ?_, ?_⟩
  · intro id s hs
    rw [hsession] at hs
    split at hs
    · next hid =>
      cases hs
      exact ⟨hid.symm, httl, hid ▸ hthis⟩
    · obtain ⟨hid, hpos, hknown⟩ := h.sound id s hs
      exact ⟨hid, hpos, hgrown id hknown⟩
  · intro id hid
    rw [hterminated] at hid
    obtain ⟨hgone, hknown⟩ := h.terminated id hid
    have hne : id ≠ session.id := by
      rintro rfl
      exact hnew hknown
    rw [hsession, if_neg hne]
    exact ⟨hgone, hgrown id hknown⟩
  · rintro id ⟨userId, hid⟩
    rw [hcreated] at hid
    rcases List.mem_cons.mp hid with hid | hid
    · cases hid
      exact huuids huuid
    · exact huuids (h.known id ⟨userId, hid⟩)
  · intro id s hs
    rw [hsession, if_neg (hother id s hs)]
    exact .inr ⟨s, hs, List.Subset.refl _⟩
  · rw [hterminated]
    exact List.Subset.refl _
  · intro id s s' hs hs'
    rw [hsession, if_neg (hother id s hs), hs] at hs'
    cases hs'
    exact .inl rfl

/-- A session that is stored as it was read. -/
theorem Books.moved_update (h : Books tr w gs) {r s session : VoiceSession} (httl : 0 < session.ttl)
    (hfollows : Continues r session) (hs : w.session session.id = some s)
    (hmessages : s.messages = r.messages) (hstate : s.state = r.state)
    (hsession : ∀ id, w'.session id = if id = session.id then some session else w.session id)
    (hcreated : w'.created = w.created) (hterminated : w'.terminated = w.terminated)
    (huuids : w.uuids ⊆ w'.uuids) : Moved w w' := by
  have hknown : ∀ id, w'.Known id ↔ w.Known id := known_congr hcreated
  refine ⟨?_, ?_, ?_, ?_, ?_, ?_, ?_⟩
  · intro id x hx
    rw [hsession] at hx
    rw [hknown]
    split at hx
    · next hid =>
      cases hx
      exact ⟨hid.symm, httl, hid ▸ (h.sound _ s hs).2.2⟩
    · exact h.sound id x hx
  · intro id hid
    rw [hterminated] at hid
    obtain ⟨hgone, hold⟩ := h.terminated id hid
    have hne : id ≠ session.id := by
      rintro rfl
      rw [hs] at hgone
      cases hgone
    rw [hsession, if_neg hne, hknown]
    exact ⟨hgone, hold⟩
  · exact fun id hid => huuids (h.known id ((hknown id).mp hid))
  · exact fun id hid => (hknown id).mpr hid
  · intro id x hx
    refine .inr ?_
    rw [hsession]
    by_cases hid : id = session.id
    · subst hid
      obtain rfl := Option.some.inj (hs.symm.trans hx)
      rw [if_pos rfl]
      exact ⟨session, rfl, hmessages ▸ hfollows.messages⟩
    · rw [if_neg hid]
      exact ⟨x, hx, List.Subset.refl _⟩
  · rw [hterminated]
    exact List.Subset.refl _
  · intro id x x' hx hx'
    rw [hsession] at hx'
    split at hx'
    · next hid =>
      subst hid
      obtain rfl := Option.some.inj (hs.symm.trans hx)
      cases hx'
      rw [hstate]
      exact hfollows.state
    · rw [hx] at hx'
      cases hx'
      exact .inl rfl

/-- A session that is terminated. -/
theorem Books.moved_del (h : Books tr w gs) {key : Uuid} (hfound : w.Known key)
    (hsession : ∀ id, w'.session id = if id = key then none else w.session id)
    (hcreated : w'.created = w.created) (hterminated : w'.terminated = key :: w.terminated)
    (huuids : w.uuids ⊆ w'.uuids) : Moved w w' := by
  have hknown : ∀ id, w'.Known id ↔ w.Known id := known_congr hcreated
  refine ⟨?_, ?_, ?_, ?_, ?_, ?_, ?_⟩
  · intro id s hs
    rw [hsession] at hs
    rw [hknown]
    split at hs
    · cases hs
    · exact h.sound id s hs
  · intro id hid
    rw [hterminated] at hid
    rw [hsession, hknown]
    rcases List.mem_cons.mp hid with rfl | hid
    · exact ⟨if_pos rfl, hfound⟩
    · obtain ⟨hgone, hold⟩ := h.terminated id hid
      refine ⟨?_, hold⟩
      split
      · rfl
      · exact hgone
  · exact fun id hid => huuids (h.known id ((hknown id).mp hid))
  · exact fun id hid => (hknown id).mpr hid
  · intro id s hs
    rw [hsession, hterminated]
    by_cases hid : id = key
    · exact .inl (hid ▸ List.mem_cons_self)
    · rw [if_neg hid]
      exact .inr ⟨s, hs, List.Subset.refl _⟩
  · rw [hterminated]
    exact List.subset_cons_self _ _
  · intro id s s' hs hs'
    rw [hsession] at hs'
    split at hs'
    · cases hs'
    · rw [hs] at hs'
      cases hs'
      exact .inl rfl

theorem Books.moved (h : Books tr e.before.world gs) (hans : Answered answer e i a r)
    (hmem : g ∈ gs) (hasks : asks g a) (huntouched : StepUntouched e)
    (hlive : StepExpiresNothing e) : Moved e.before.world e.after.world := by
  have hx := hans.answer
  have hle := (answer_cases hx).1
  have hsame := session_tick hle hlive
  have huuids := uuids_answered hx
  have hstored := hans.meets huntouched
  obtain hcase | ⟨session, m, rfl, -, hw⟩ | ⟨key, rfl, hw⟩ := sessions_answered hx
  · exact h.moved_same (fun id => (hcase.session id).trans (hsame id)) hcase.created
      hcase.terminated huuids
  · obtain ⟨httl, hread⟩ := hasks
    have hsession : ∀ id, e.after.world.session id =
        if id = session.id then some session else e.before.world.session id := by
      intro id
      rw [hw, session_save httl, hsame]
    have hcreated : e.after.world.created = if m.read = none then
        (session.id, session.userId) :: e.before.world.created else e.before.world.created := by
      rw [hw]
      rfl
    have hterminated : e.after.world.terminated = e.before.world.terminated := by
      rw [hw]
      rfl
    rcases hread with ⟨hnone, hdrawn⟩ | ⟨r, hr, hfollows⟩
    · rw [if_pos hnone] at hcreated
      exact h.moved_new hmem hdrawn httl hsession hcreated hterminated huuids
    · rw [if_neg (by rw [hr]; exact nofun)] at hcreated
      obtain ⟨s, hs, hmessages, hstate⟩ := hstored r hr
      rw [hsame] at hs
      exact h.moved_update httl hfollows hs hmessages hstate hsession hcreated hterminated huuids
  · refine h.moved_del (h.found g hmem key hasks) (fun id => ?_) ?_ ?_ huuids
    · rw [hw, session_remove, hsame]
    · rw [hw]
      rfl
    · rw [hw]
      rfl

/-- The UUID that a point has drawn is not the id of a session, before and after an answer. -/
theorem Books.drawn_answered (h : Books tr w gs) {c : Outside} (hmem : g ∈ gs)
    (hx : answer c w a = some (r, w')) {id : Uuid} (hid : (next g a r).drawn = some id) :
    id ∈ w'.uuids ∧ ¬ w'.Known id ∧ (g.drawn = some id ∨ id ∉ w.uuids) := by
  have huuids := uuids_answered hx
  have hsame : w'.created = w.created → ∀ id, w'.Known id ↔ w.Known id := by
    intro hcreated id
    unfold World.Known
    rw [hcreated]
  have hold : w'.created = w.created → g.drawn = some id →
      id ∈ w'.uuids ∧ ¬ w'.Known id ∧ (g.drawn = some id ∨ id ∉ w.uuids) := by
    intro hcreated hdrawn
    obtain ⟨huuid, hnew⟩ := h.drawn g hmem id hdrawn
    exact ⟨huuids huuid, by rw [hsame hcreated]; exact hnew, .inl hdrawn⟩
  obtain hcreated | ⟨session, m, rfl, hr, -, -⟩ := created_answered hx
  · cases a with
    | randomUUID =>
      cases hid
      obtain ⟨hnew, huuid⟩ := uuid_answered hx
      refine ⟨huuid, ?_, .inr hnew⟩
      rw [hsame hcreated]
      exact fun hknown => hnew (h.known _ hknown)
    | get sessionId m =>
      match r, hid with
      | .ok (some _), hid => exact hold hcreated hid
      | .ok none, hid => exact hold hcreated hid
      | .error _, hid => exact hold hcreated hid
    | setEx session m =>
      match r, hid with
      | .ok (), hid => cases hid
      | .error _, hid => exact hold hcreated hid
    | _ => exact hold hcreated hid
  · cases eq_of_heq hr
    cases hid

theorem Books.found_answered (h : Books tr w gs) {c : Outside} (hmem : g ∈ gs)
    (hx : answer c w a = some (r, w')) {sessionId : Uuid}
    (hid : (next g a r).found = some sessionId) : w.Known sessionId := by
  have hold : g.found = some sessionId → w.Known sessionId := h.found g hmem sessionId
  cases a with
  | get key m =>
    match r, hid, hx with
    | .ok (some s), hid, hx =>
      cases hid
      obtain ⟨hle, hx⟩ := answer_cases hx
      obtain ⟨e, -, hr, -⟩ | ⟨-, hr, -⟩ := Async.attempt_cases hx
      · cases hr
      · exact (h.sound _ s (session_of_tick hle (Except.ok.inj hr).symm)).2.2
    | .ok none, hid, _ => exact hold hid
    | .error _, hid, _ => exact hold hid
  | setEx session m =>
    match r, hid with
    | .ok (), hid => exact hold hid
    | .error _, hid => exact hold hid
  | _ => exact hold hid

/-- What a task has saved last, or has just saved. -/
theorem saved_answered {c : Outside} (hasks : asks g a) (hx : answer c w a = some (r, w'))
    {session : VoiceSession} (hsaved : (next g a r).saved = some session) :
    g.saved = some session ∨ w'.session session.id = some session := by
  cases a with
  | get key m =>
    match r, hsaved with
    | .ok (some _), hsaved => exact .inl hsaved
    | .ok none, hsaved => exact .inl hsaved
    | .error _, hsaved => exact .inl hsaved
  | setEx x m =>
    match r, hsaved, hx with
    | .ok (), hsaved, hx =>
      cases hsaved
      obtain ⟨-, hx⟩ := answer_cases hx
      obtain ⟨e, -, hr, -⟩ | ⟨-, -, rfl⟩ := Async.attempt_cases hx
      · cases hr
      · refine .inr ?_
        rw [session_save hasks.1, if_pos rfl]
    | .error _, hsaved, _ => exact .inl hsaved
  | _ => exact .inl hsaved

theorem next_target (g : Point) (a : Request) (r : Answer a) : (next g a r).target = g.target := by
  unfold next
  split <;> rfl

theorem told_of_answer (h : Books tr w gs) {c : Outside} (hx : answer c w a = some (r, w')) :
    told a r := by
  cases a with
  | get sessionId m =>
    intro s hr
    obtain ⟨hle, hx⟩ := answer_cases hx
    obtain ⟨e, -, hr', -⟩ | ⟨-, hr', -⟩ := Async.attempt_cases hx
    · rw [hr'] at hr
      cases hr
    · rw [hr'] at hr
      obtain ⟨hid, httl, -⟩ := h.sound _ s (session_of_tick hle (Except.ok.inj hr))
      exact ⟨hid, httl⟩
  | _ => trivial

theorem Books.answered (h : Books tr e.before.world gs) (hans : Answered answer e i a r)
    (hg : gs[i]? = some g) (hasks : asks g a) (huntouched : StepUntouched e)
    (hlive : StepExpiresNothing e) : Books (e :: tr) e.after.world (gs.set i (next g a r)) := by
  have hx := hans.answer
  have hmem := List.mem_of_getElem? hg
  have hmoved := h.moved hans hmem hasks huntouched hlive
  have hothers := fun g' => Async.of_mem_set (k := next g a r) (x := g') hg
  have hkept : ∀ x ∈ gs, ∀ session, x.saved = some session →
      session.id ∈ e.after.world.terminated ∨
        ∃ s ∈ e.after.world.session session.id, session.messages ⊆ s.messages := by
    intro x hx' session hsaved
    rcases h.saved x hx' session hsaved with hgone | ⟨s, hs, hsub⟩
    · exact .inl (hmoved.ended hgone)
    · rcases hmoved.kept _ s hs with hgone | ⟨s', hs', hsub'⟩
      · exact .inl hgone
      · exact .inr ⟨s', hs', List.Subset.trans hsub hsub'⟩
  refine ⟨hmoved.sound, hmoved.terminated, hmoved.known, ?_, h.apart.set hg ?_, ?_, ?_, ?_, ?_⟩
  · intro g' hg' id hid
    rcases hothers g' hg' with rfl | ⟨j, hji, hj⟩
    · obtain ⟨huuid, hnew, -⟩ := h.drawn_answered hmem hx hid
      exact ⟨huuid, hnew⟩
    · obtain ⟨huuid, hnew⟩ := h.drawn g' (List.mem_of_getElem? hj) id hid
      refine ⟨uuids_answered hx huuid, ?_⟩
      obtain hcreated | ⟨session, m, rfl, -, hnone, hcreated⟩ := created_answered hx
      · unfold World.Known
        rw [hcreated]
        exact hnew
      · -- a new session has the id that its own task has drawn
        obtain ⟨-, ⟨-, hdrawn⟩ | ⟨r, hr, -⟩⟩ := hasks
        · rintro ⟨userId, hthis⟩
          rw [hcreated] at hthis
          rcases List.mem_cons.mp hthis with hthis | hthis
          · cases hthis
            exact hji (h.apart j i g' g _ hj hg hid hdrawn)
          · exact hnew ⟨userId, hthis⟩
        · rw [hnone] at hr
          cases hr
  · intro id hid
    obtain ⟨-, -, hold | hnew⟩ := h.drawn_answered hmem hx hid
    · exact .inl hold
    · exact .inr fun x hx' hthis => hnew (h.drawn x hx' id hthis).1
  · intro g' hg' sessionId hid
    rcases hothers g' hg' with rfl | ⟨j, -, hj⟩
    · exact hmoved.grown _ (h.found_answered hmem hx hid)
    · exact hmoved.grown _ (h.found g' (List.mem_of_getElem? hj) sessionId hid)
  · intro g' hg' session hsaved
    rcases hothers g' hg' with rfl | ⟨j, -, hj⟩
    · rcases saved_answered hasks hx hsaved with hsaved | hthis
      · exact hkept g hmem session hsaved
      · exact .inr ⟨session, hthis, List.Subset.refl _⟩
    · exact hkept g' (List.mem_of_getElem? hj) session hsaved
  · intro e' he' sessionId s s' hs hs'
    rcases List.mem_cons.mp he' with rfl | he'
    · exact hmoved.states sessionId s s' hs hs'
    · exact h.states e' he' sessionId s s' hs hs'
  · intro e' he' sessionId content isUser metadata hcall
    rcases List.mem_cons.mp he' with rfl | he'
    · rw [hans.call] at hcall
      cases hcall
    · obtain ⟨g', hg', htarget⟩ := h.targets e' he' _ _ _ _ hcall
      by_cases hji : e'.before.tasks.length = i
      · rw [hji] at hg' ⊢
        obtain rfl := Option.some.inj (hg.symm.trans hg')
        refine ⟨next g a r, List.getElem?_set_self (List.getElem?_eq_some_iff.mp hg).1, ?_⟩
        rw [next_target, htarget]
      · refine ⟨g', ?_, htarget⟩
        rw [List.getElem?_set_ne (Ne.symm hji)]
        exact hg'

end Step

end Updates

open Updates

/-- **No update is lost**, if every session that is written back is untouched. -/
theorem no_update_lost {tr : Trace} {t : System} (h : Run machine tr t)
    (hlive : ∀ e ∈ tr, StepExpiresNothing e) (huntouched : ∀ e ∈ tr, StepUntouched e) :
    NoUpdateLost tr t := by
  have hgood : ∀ e ∈ tr, StepExpiresNothing e ∧ StepUntouched e :=
    fun e he => ⟨hlive e he, huntouched e he⟩
  obtain ⟨gs, hbooks, hat⟩ := Async.interleave_obeys_from (J := Books) (P := protocol)
    (fun op _ => program_obeys op) (by rintro _ rfl; exact books_init)
    (fun _ e _ op _ _ hcall hafter hlen hJ => hJ.start hcall hafter hlen)
    (fun _ e _ i a r g hgood hans hat hg hasks hJ =>
      ⟨told_of_answer hJ hans.answer, hJ.answered hans hg hasks hgood.2 hgood.1⟩)
    h hgood
  refine ⟨?_, hbooks.states, fun id hid => (hbooks.terminated id hid).1⟩
  intro e he sessionId content isUser metadata hcall message htask
  obtain ⟨g, hg, htarget⟩ := hbooks.targets e he _ _ _ _ hcall
  obtain ⟨g', hg', hend⟩ := Async.exists_of_getElem? hat htask
  obtain rfl := Option.some.inj (hg.symm.trans hg')
  obtain ⟨session, hsaved, hid, hmessage⟩ := hend message rfl
  obtain rfl : session.id = sessionId := Option.some.inj (hid.symm.trans htarget)
  rcases hbooks.saved g (List.mem_of_getElem? hg) session hsaved with hgone | ⟨s, hs, hsub⟩
  · exact .inl hgone
  · exact .inr ⟨s, hs, hsub hmessage⟩

/-! ### Messages one after the other, and at once -/

/-- A session `s` is created. -/
def sessionCreated : List (Outside × Async.Move Operation) :=
  (undisturbed "s", .start (.createSession "alice" .general none none)) :: resumes 0 "s" 6

/-- The message of a call, and whether it is in the session. -/
def messageOf (t : System) (i : Nat) : Option VoiceMessage :=
  match t.tasks[i]? with
  | some (.done (.ok (.message message))) => message
  | _ => none

theorem done_of_messageOf {t : System} {i : Nat} {message : VoiceMessage}
    (h : messageOf t i = some message) :
    t.tasks[i]? = some (.done (.ok (.message (some message)))) := by
  unfold messageOf at h
  split at h
  · next hi => rw [hi, h]
  · cases h

theorem no_update_lost_in_turn :
    ∃ (tr : Trace) (t : System), Run machine tr t ∧ (messageOf t 1).isSome ∧
      (messageOf t 2).isSome ∧ NoUpdateLost tr t := by
  obtain ⟨tr, t, hrun, hok⟩ := Machine.exists_run_of_replay (m := machine) (s := ⟨{}, []⟩)
    ⟨rfl, rfl⟩
    (sessionCreated ++
      (undisturbed "", .start (.addMessage "s" "hello" true none)) :: resumes 1 "a" 5 ++
      (undisturbed "", .start (.addMessage "s" "world" true none)) :: resumes 2 "b" 5)
    (fun tr t => decide ((∀ e ∈ tr, StepExpiresNothing e) ∧ (∀ e ∈ tr, StepUntouched e) ∧
      (messageOf t 1).isSome ∧ (messageOf t 2).isSome))
    (fun c _ => c.2.starts_of_true) (by decide) (by decide +kernel)
  obtain ⟨hlive, huntouched, h1, h2⟩ := of_decide_eq_true hok
  exact ⟨tr, t, hrun, h1, h2, no_update_lost hrun hlive huntouched⟩

/-- Two calls read the session before either writes it back. -/
theorem update_lost :
    ¬ ∀ (tr : Trace) (t : System), Run machine tr t → (∀ e ∈ tr, StepExpiresNothing e) →
      NoUpdateLost tr t := by
  intro hall
  obtain ⟨tr, t, hrun, hok⟩ := Machine.exists_run_of_replay (m := machine) (s := ⟨{}, []⟩)
    ⟨rfl, rfl⟩
    (sessionCreated ++
      (undisturbed "", .start (.addMessage "s" "hello" true none)) ::
      (undisturbed "", .start (.addMessage "s" "world" true none)) ::
      resumes 1 "a" 1 ++ resumes 2 "b" 1 ++ resumes 1 "a" 4 ++ resumes 2 "b" 4)
    (fun tr t => decide ((∀ e ∈ tr, StepExpiresNothing e) ∧ t.world.terminated = [] ∧
      (∃ e ∈ tr, e.call = .start (.addMessage "s" "hello" true none) ∧
        e.before.tasks.length = 1) ∧
      ∃ message ∈ messageOf t 1, ∃ s ∈ t.world.session "s", message ∉ s.messages))
    (fun c _ => c.2.starts_of_true) (by decide) (by decide +kernel)
  obtain ⟨hlive, hterminated, ⟨e, he, hcall, hlength⟩, message, hmessage, s, hs, hlost⟩ :=
    of_decide_eq_true hok
  have hdone := done_of_messageOf hmessage
  rw [← hlength] at hdone
  rcases (hall tr t hrun hlive).messages e he _ _ _ _ hcall message hdone with hgone | ⟨s', hs', hin⟩
  · rw [hterminated] at hgone
    cases hgone
  · obtain rfl := Option.some.inj (hs.symm.trans hs')
    exact hlost hin

end Stellara.Voice
