import Stellara.Voice.Sessions

/-!
# Rules for what is done with one session

Whatever is to be shown of the calls, a method of `VoiceSessionService` reads its session, writes
what follows from it or removes it, and uses the index of its user.  `SessionRules` says what this
takes under any rules for requests: `At id` is where a task may read the session `id`, `Held s`
where it has read `s`, and `Of s` where it may use the index of the user of `s`.

    At id  ── get ──▶  Held s  ── setEx ──▶  At id, or Err id when it is rejected
                       Held s  ── del ──▶  Of s  ── sRem, … ──▶  Of s  ──▶  At id

Every method for one session then keeps `At` (`SessionRules.updateSessionState_preserves`, …).
-/

namespace Stellara.Voice

open Block VoiceSessionService ConversationStateMachineService
open Async (Rules)

/-- What a session is written back as, when no message is added. -/
structure Follows (r session : VoiceSession) : Prop where
  id : session.id = r.id
  userId : session.userId = r.userId
  ttl : session.ttl = r.ttl
  messages : session.messages = r.messages
  state : session.state = r.state ∨ canTransition r.state session.state = true

/-- What a session is written back as with a message more. -/
structure Extends (m : Memory) (r session : VoiceSession) : Prop where
  id : session.id = r.id
  userId : session.userId = r.userId
  ttl : session.ttl = r.ttl
  messages : ∃ message, message.stream = m.stream ∧ session.messages = r.messages ++ [message]
  state : session.state = r.state

/-- A request for what else there is of a session that is removed. -/
def OfUser (userId : String) : Request → Prop
  | .sRem user _ | .getActive user | .delActive user => user = userId
  | _ => False

/-- What an answer to a write leads to. -/
def Written {σ : Type} (I E : Memory → σ → Prop) (m : Memory) (r : Except String Unit) (g : σ) :
    Prop :=
  match r with
  | .ok () => I m g
  | .error _ => E m g

structure SessionRules {σ : Type} (T : Rules Request Answer σ) (At Err : Uuid → Memory → σ → Prop)
    (Held Of : VoiceSession → Memory → σ → Prop) : Prop where
  of_held : ∀ {s m g}, Held s m g → Of s m g
  at_of : ∀ {s m g}, Of s m g → At s.id m g
  draw : ∀ {a s m g}, a = .now ∨ a = .randomUUID → Held s m g → T.pre a (fun _ g' => Held s m g') g
  get : ∀ {sessionId m g}, At sessionId m g → T.pre (.get sessionId m) (fun r g' =>
    match (r : Except String (Option VoiceSession)) with
    | .ok (some s) => s.id = sessionId ∧ Held s { m with read := some s } g'
    | _ => At sessionId { m with read := none } g') g
  save : ∀ {r session m g}, Held r m g → Follows r session →
    T.pre (.setEx session m) (fun x g' => Written (At r.id) (Err r.id) m x g') g
  remove : ∀ {s m g}, Held s m g → T.pre (.del s.id) (fun _ g' => Of s m g') g
  index : ∀ {a s m g}, OfUser s.userId a → Of s m g → T.pre a (fun _ g' => Of s m g') g

namespace SessionRules

variable {σ α : Type} {T : Rules Request Answer σ} {At Err : Uuid → Memory → σ → Prop}
  {Held Of : VoiceSession → Memory → σ → Prop} {m : Memory} {g : σ}
  {Q : α → Memory → σ → Prop} {E : String → Memory → σ → Prop}

/-- What is read is held; otherwise nothing has changed. -/
theorem getSession (h : SessionRules T At Err Held Of) {sessionId : Uuid}
    (hat : At sessionId m g) :
    wp T (getSession sessionId) (fun x m g => match x with
        | some s => s.id = sessionId ∧ Held s m g
        | none => At sessionId m g) (fun _ _ _ => False) m g := by
  unfold VoiceSessionService.getSession
  rw [wp_tryCatch]
  refine T.mono (fun r g' hr => ?_) (h.get hat)
  match r, hr with
  | .error e, hr => exact hr
  | .ok none, hr => exact hr
  | .ok (some s), hr => exact hr

/-- A method that goes on with what it has read. -/
theorem getSession_bind (h : SessionRules T At Err Held Of) {sessionId : Uuid}
    {F : Memory → σ → Prop} {f : Option VoiceSession → On α}
    (hnone : Preserves T (At sessionId) F (f none))
    (hsome : ∀ m g s, s.id = sessionId → Held s m g →
      wp T (f (some s)) (fun _ => At sessionId) (fun _ => F) m g) :
    Preserves T (At sessionId) F (VoiceSessionService.getSession sessionId >>= f) := by
  intro m g hat
  rw [wp_bind]
  refine wp_mono (fun x m g hx => ?_) (fun _ _ _ h => h.elim) (h.getSession hat)
  cases x with
  | none => exact hnone m g hx
  | some s => exact hsome m g s hx.1 hx.2

theorem now (h : SessionRules T At Err Held Of) {s : VoiceSession} (hheld : Held s m g) :
    wp T now (fun _ m' g => m' = m ∧ Held s m g) E m g :=
  T.mono (fun _ _ h => ⟨rfl, h⟩) (h.draw (.inl rfl) hheld)

theorem uuidv4 (h : SessionRules T At Err Held Of) {s : VoiceSession} (hheld : Held s m g) :
    wp T uuidv4 (fun _ m' g => m' = m ∧ Held s m g) E m g :=
  T.mono (fun _ _ h => ⟨rfl, h⟩) (h.draw (.inr rfl) hheld)

/-- The last step of a method: the session is written. -/
theorem wp_saveSession {I F : Memory → σ → Prop} {session : VoiceSession} {x : α}
    (h : T.pre (.setEx session m) (fun x g' => Written I F m x g') g) :
    wp T (saveSession session >>= fun _ => Pure.pure x) (fun _ => I) (fun _ => F) m g := by
  rw [wp_bind]
  refine T.mono (fun r g' hr => ?_) h
  show Ends _ _ (r, m) g'
  match r with
  | .error e => exact hr
  | .ok () => exact hr

theorem ofUser (h : SessionRules T At Err Held Of) {s : VoiceSession} {a : Request}
    {f : Answer a → Except String α} (ha : OfUser s.userId a) :
    Preserves T (Of s) (Of s) (request a f) :=
  .request (fun _ _ hof => hof) fun _ _ hof => h.index ha hof

theorem of_transition {old new : ConversationState} (h : transition old new = .ok ()) :
    canTransition old new = true := by
  unfold transition at h
  split at h
  · assumption
  · cases h

theorem updateSessionState_preserves (h : SessionRules T At Err Held Of) {sessionId : Uuid}
    {newState : ConversationState} :
    Preserves T (At sessionId) (Err sessionId) (updateSessionState sessionId newState) := by
  refine h.getSession_bind .pure fun m g s hid hheld => ?_
  subst hid
  dsimp only
  cases htransition : transition s.state newState with
  | error e => exact h.at_of (h.of_held hheld)
  | ok _ =>
    dsimp only
    rw [wp_bind]
    refine wp_mono ?_ (fun _ _ _ h => h) (h.now hheld)
    rintro now _ g ⟨rfl, hheld⟩
    exact wp_saveSession (h.save hheld ⟨rfl, rfl, rfl, rfl, .inr (of_transition htransition)⟩)

theorem addMessage_preserves (h : SessionRules T At Err Held Of) {sessionId : Uuid}
    {content : String} {isUser : Bool} {metadata : Option String}
    (hadd : ∀ r session m g, r.id = sessionId → Held r m g → Extends m r session →
      T.pre (.setEx session m) (fun x g' => Written (At sessionId) (Err sessionId) m x g') g) :
    Preserves T (At sessionId) (Err sessionId) (addMessage sessionId content isUser metadata) := by
  refine h.getSession_bind .pure fun m g s hid hheld => ?_
  dsimp only
  rw [wp_bind]
  refine wp_mono ?_ (fun _ _ _ h => h) (h.uuidv4 hheld)
  rintro id _ g ⟨rfl, hheld⟩
  rw [wp_bind]
  refine wp_mono ?_ (fun _ _ _ h => h) (h.now hheld)
  rintro timestamp _ g ⟨rfl, hheld⟩
  rw [wp_bind, wp_get, wp_bind]
  refine wp_mono ?_ (fun _ _ _ h => h) (h.now hheld)
  rintro lastActivityAt _ g ⟨rfl, hheld⟩
  exact wp_saveSession (hadd s _ _ g hid hheld ⟨rfl, rfl, rfl, ⟨_, rfl, rfl⟩, rfl⟩)

theorem updateSessionSocket_preserves (h : SessionRules T At Err Held Of) {sessionId : Uuid}
    {socketId : String} :
    Preserves T (At sessionId) (Err sessionId) (updateSessionSocket sessionId socketId) := by
  refine h.getSession_bind .pure fun m g s hid hheld => ?_
  subst hid
  dsimp only
  rw [wp_bind]
  refine wp_mono ?_ (fun _ _ _ h => h) (h.now hheld)
  rintro now _ g ⟨rfl, hheld⟩
  exact wp_saveSession (h.save hheld ⟨rfl, rfl, rfl, rfl, .inl rfl⟩)

theorem updateLastPingAt_preserves (h : SessionRules T At Err Held Of) {sessionId : Uuid} :
    Preserves T (At sessionId) (Err sessionId) (updateLastPingAt sessionId) := by
  refine h.getSession_bind .pure fun m g s hid hheld => ?_
  subst hid
  dsimp only
  rw [wp_bind]
  refine wp_mono ?_ (fun _ _ _ h => h) (h.now hheld)
  rintro lastPingAt _ g ⟨rfl, hheld⟩
  rw [wp_bind]
  refine wp_mono ?_ (fun _ _ _ h => h) (h.now hheld)
  rintro lastActivityAt _ g ⟨rfl, hheld⟩
  exact wp_saveSession (h.save hheld ⟨rfl, rfl, rfl, rfl, .inl rfl⟩)

/-- A method that goes on with a method for the same session. -/
theorem after_getSession (h : SessionRules T At Err Held Of) {sessionId : Uuid}
    {F : Memory → σ → Prop} {f : Option VoiceSession → On α}
    (hf : ∀ x, Preserves T (At sessionId) F (f x)) :
    Preserves T (At sessionId) F (VoiceSessionService.getSession sessionId >>= f) := by
  refine h.getSession_bind (hf none) fun m g s hid hheld => ?_
  exact hf (some s) m g (hid ▸ h.at_of (h.of_held hheld))

theorem interruptSession_preserves (h : SessionRules T At Err Held Of) {sessionId : Uuid} :
    Preserves T (At sessionId) (Err sessionId) (interruptSession sessionId) := by
  refine h.after_getSession fun session => ?_
  cases session with
  | none => exact .pure
  | some session =>
    dsimp only
    split
    · exact h.updateSessionState_preserves
    · exact .pure

theorem resumeSession_preserves (h : SessionRules T At Err Held Of) {sessionId : Uuid} :
    Preserves T (At sessionId) (Err sessionId) (resumeSession sessionId) := by
  refine h.after_getSession fun session => ?_
  cases session with
  | none => exact .pure
  | some session => exact h.updateSessionState_preserves

theorem clearUserActiveSessionIfMatches_preserves (h : SessionRules T At Err Held Of)
    {s : VoiceSession} {sessionId : Uuid} :
    Preserves T (Of s) (Of s) (clearUserActiveSessionIfMatches s.userId sessionId) := by
  refine .bind (h.ofUser rfl) fun current => ?_
  split
  · exact h.ofUser rfl
  · exact .pure

/-- Terminating a session does not throw. -/
theorem terminateSession_preserves (h : SessionRules T At Err Held Of) {sessionId : Uuid}
    {F : Memory → σ → Prop} :
    Preserves T (At sessionId) F (terminateSession sessionId) := by
  refine .tryCatch (F := At sessionId) (h.getSession_bind .pure fun m g s hid hheld => ?_)
    fun _ _ _ h => h
  subst hid
  dsimp only
  rw [wp_bind]
  have hrest : Preserves T (Of s) (Of s) (removeUserSession s.userId s.id >>= fun _ =>
      clearUserActiveSessionIfMatches s.userId s.id >>= fun _ => (Pure.pure true : On Bool)) :=
    .bind (h.ofUser rfl) fun _ => h.clearUserActiveSessionIfMatches_preserves.bind fun _ => .pure
  refine T.mono (fun r g' hof => ?_) (h.remove hheld)
  show Ends _ _ (r, m) g'
  match r with
  | .error e => exact h.at_of hof
  | .ok () =>
    exact wp_mono (fun _ _ _ hof => h.at_of hof) (fun _ _ _ hof => h.at_of hof) (hrest m g' hof)

/-- A cleanup, where every session may be read. -/
theorem cleanup_preserves (h : SessionRules T At Err Held Of) {I F : Memory → σ → Prop}
    (hat : ∀ sessionId m g, At sessionId m g ↔ I m g) (due : VoiceSession → Bool)
    (keys : List Uuid) : ∀ cleanedCount, Preserves T I F (cleanup due keys cleanedCount) := by
  have hI : ∀ sessionId, At sessionId = I := fun sessionId => by
    funext m g
    exact propext (hat sessionId m g)
  induction keys with
  | nil => exact fun _ => .pure
  | cons key keys ih =>
    intro cleanedCount
    have hget : Preserves T I I (Voice.get key) := by
      intro m g hm
      refine T.mono (fun r g' hr => ?_) (h.get ((hat key m g).mpr hm))
      match r, hr with
      | .error e, hr => exact (hat key _ _).mp hr
      | .ok none, hr => exact (hat key _ _).mp hr
      | .ok (some s), hr => exact (hat s.id _ _).mp (h.at_of (h.of_held hr.2))
    refine .bind (.tryCatch (hget.bind fun _ => .pure) fun _ _ _ h => h) fun session => ?_
    match session with
    | none => exact .pure
    | some none => exact ih _
    | some (some session) =>
      dsimp only
      split
      · exact .bind (hI key ▸ h.terminateSession_preserves) fun _ => ih _
      · exact ih _

theorem cleanupWhere_preserves (h : SessionRules T At Err Held Of) {I : Memory → σ → Prop}
    (hat : ∀ sessionId m g, At sessionId m g ↔ I m g)
    (hplain : ∀ a m g, a = .now ∨ a = .scanKeys → I m g → T.pre a (fun _ g' => I m g') g)
    {due : Int → VoiceSession → Bool} : Preserves T I I (cleanupWhere due) := by
  refine .bind (.request (fun _ _ h => h) fun m g hI => hplain _ m g (.inl rfl) hI) fun now => ?_
  refine .tryCatch (F := I) (.bind (.request (fun _ _ h => h) fun m g hI =>
    hplain _ m g (.inr rfl) hI) fun keys => ?_) fun _ _ _ h => h
  exact h.cleanup_preserves hat _ _ _

end SessionRules

end Stellara.Voice
