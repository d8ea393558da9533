import Mathlib.Data.List.Find
import Stellara.Voice.Owners

/-!
# Users of the gateway

An event of a user is to concern the user's sessions and streams only.  Three handlers use an id as
the client sends it:

    handleDisconnect    the session of the handshake becomes idle, whoever's it is
    createSession       the session is created for dto.userId
    handleInterrupt     the stream data.streamId is interrupted, whoever's it is

If these ids are the user's own, no event of a user changes a session or a stream of another, and
whatever a user sends, the sessions and streams of the others are the same without it
(`users_isolated`).
-/

namespace Stellara.Voice

open Block VoiceSessionService StreamingResponseService ConversationStateMachineService
open Async (Answered obeying Apart)

/-- The sessions and the active streams of the user are the same. -/
structure World.SameFor (userId : String) (w w' : World) : Prop where
  sessions : ∀ sessionId, (w'.sessions.lookup sessionId).filter (fun x => x.value.userId = userId) =
    (w.sessions.lookup sessionId).filter fun x => x.value.userId = userId
  streams : w'.streams.filter (fun s => s.userId = userId) =
    w.streams.filter fun s => s.userId = userId

/-- A step of an event of the user. -/
def OfUserEvent (tr : GatewayTrace) (userId : String)
    (e : Event Outside (Async.Move GatewayOperation) Unit GatewaySystem) : Prop :=
  ∃ i op, e.call = .resume i ∧ (Async.started tr)[i]? = some op ∧ op.userId = some userId

structure Isolated (tr : GatewayTrace) (t : GatewaySystem) : Prop where
  steps : ∀ e ∈ tr, ∀ userId, OfUserEvent tr userId e →
    ∀ other ≠ userId, e.before.world.SameFor other e.after.world
  /-- without the events of the user, the others' sessions and streams are the same -/
  runs : (∀ op ∈ Async.started tr, op.userId ≠ none) → ∀ userId, ∃ tr' t',
    Run gatewayMachine tr' t' ∧
    tr'.map (fun e => (e.env, e.call)) = Async.remaining (fun op => op.userId ≠ some userId) tr ∧
    ∀ other ≠ userId, t.world.SameFor other t'.world

/-- A session that a disconnect finds is the client's or cannot become idle, a session is created
for the client's user, and a stream that is interrupted by its id is the client's. -/
def OwnIds (c : Outside) (w : World) : Request → Prop
  | .get sessionId m => ∀ x ∈ m.handles, x.2 = .disconnect → c.rejects = none →
    ∀ s ∈ w.session sessionId, s.userId = x.1.userId ∨ canTransition s.state .idle = false
  | .sMembers userId m => ∀ x ∈ m.handles, userId = x.1.userId
  | .interrupt (some streamId) _ _ m => ∀ x ∈ m.handles, ∀ s ∈ w.streams, s.id = streamId →
    s.userId = x.1.userId
  | _ => True

instance (c : Outside) (w : World) : DecidablePred (OwnIds c w) := fun a => by
  induction a using Request.casesOn with
  | interrupt streamId =>
    induction streamId using Option.casesOn <;> unfold OwnIds <;> infer_instance
  | _ => unfold OwnIds; infer_instance

abbrev StepOwnIds (e : Event Outside (Async.Move GatewayOperation) Unit GatewaySystem) : Prop :=
  Async.Meets (fun (c : Outside) (w : World) => OwnIds c (w.tick c.now)) e

namespace Isolation

/-! ## A step of a user leaves the rest as it was -/

/-- What is not the user's is as it was. -/
structure Rest (userId : String) (w w' : World) : Prop where
  sessions : ∀ sessionId, (w'.sessions.lookup sessionId).filter (fun x => x.value.userId ≠ userId) =
    (w.sessions.lookup sessionId).filter fun x => x.value.userId ≠ userId
  streams : w'.streams.filter (fun s => s.userId ≠ userId) =
    w.streams.filter fun s => s.userId ≠ userId
  index : ∀ other ≠ userId, w'.userSessions.lookup other = w.userSessions.lookup other
  active : ∀ other ≠ userId, w'.activeSessions.lookup other = w.activeSessions.lookup other
  created : ∀ other ≠ userId, w'.createdFor other = w.createdFor other
  uuids : w.uuids ⊆ w'.uuids
  now : w.now ≤ w'.now

theorem filter_filter_ne {α : Type} {f : α → String} {userId other : String} (hne : other ≠ userId)
    (x : Option α) : (x.filter fun y => f y ≠ userId).filter (fun y => f y = other) =
      x.filter fun y => f y = other := by
  cases x with
  | none => rfl
  | some y =>
    rw [Option.filter_some, Option.filter_some]
    split
    · exact Option.filter_some
    · next heq =>
      rw [decide_eq_true_eq, not_not] at heq
      rw [if_neg (by rw [decide_eq_true_eq, heq]; exact hne.symm)]
      rfl

theorem list_filter_filter_ne {α : Type} {f : α → String} {userId other : String}
    (hne : other ≠ userId) (xs : List α) :
    (xs.filter fun y => f y ≠ userId).filter (fun y => f y = other) =
      xs.filter fun y => f y = other := by
  rw [List.filter_filter]
  refine List.filter_congr fun y _ => ?_
  by_cases heq : f y = other
  · simp [heq, hne]
  · simp [heq]

theorem Rest.sameFor {userId other : String} {w w' : World} (h : Rest userId w w')
    (hne : other ≠ userId) : w.SameFor other w' where
  sessions sessionId := by
    rw [← filter_filter_ne hne, h.sessions, filter_filter_ne hne]
  streams := by
    rw [← list_filter_filter_ne hne, h.streams, list_filter_filter_ne hne]

variable {w w' : World} {gs : List Point} {g : Point} {userId : String}

/-- The session of a user is nobody else's. -/
theorem Owned.filter_lookup (h : Owned w) {sessionId : Uuid}
    (hcreated : (sessionId, userId) ∈ w.created) :
    (w.sessions.lookup sessionId).filter (fun x => x.value.userId ≠ userId) = none := by
  cases hx : w.sessions.lookup sessionId with
  | none => rfl
  | some x =>
    have huser := h.single sessionId _ _ (h.sessions sessionId x hx).2 hcreated
    rw [Option.filter_some, if_neg (by rw [huser]; simp)]

/-- A session that has not been created is not stored. -/
theorem Owned.lookup_unused (h : Owned w) {sessionId : Uuid} (hunused : Unused w sessionId) :
    w.sessions.lookup sessionId = none := by
  cases hx : w.sessions.lookup sessionId with
  | none => rfl
  | some x => exact (hunused.created _ (h.sessions sessionId x hx).2 rfl).elim

theorem filter_setStream {streamId : Uuid} {f : StreamingResponse → StreamingResponse}
    (hf : ∀ s, (f s).userId = s.userId)
    (hmine : ∀ s ∈ w.streams, s.id = streamId → s.userId = userId) :
    (w.setStream streamId f).streams.filter (fun s => s.userId ≠ userId) =
      w.streams.filter fun s => s.userId ≠ userId := by
  unfold World.setStream
  rw [filter_updateWhere fun s _ _ => by rw [hf]]
  refine updateWhere_of_none fun s hs => decide_eq_false fun heq => ?_
  obtain ⟨hs, hne⟩ := List.mem_filter.mp hs
  exact of_decide_eq_true hne (hmine s hs heq)

theorem filter_filter_mine {p : StreamingResponse → Bool} {streams : List StreamingResponse}
    (hmine : ∀ s ∈ streams, p s = false → s.userId = userId) :
    (streams.filter p).filter (fun s => s.userId ≠ userId) =
      streams.filter fun s => s.userId ≠ userId := by
  rw [List.filter_filter]
  refine List.filter_congr fun s hs => ?_
  cases hp : p s with
  | true => exact Bool.and_true _
  | false => rw [hmine s hs hp]; simp

theorem lookup_setMembers_ne {ids : List Uuid} {other : String} (hne : other ≠ userId) :
    (w.setMembers userId ids).userSessions.lookup other = w.userSessions.lookup other := by
  show (if ids = [] then w.userSessions.erase userId
    else w.userSessions.insert userId ⟨ids, _⟩).lookup other = _
  split
  · rw [Store.lookup_erase_eq, if_neg hne]
  · rw [Store.lookup_insert_eq, if_neg hne]

theorem lookup_expireMembers_ne {expiresAt : Int} {other : String} (hne : other ≠ userId) :
    (w.expireMembers userId expiresAt).userSessions.lookup other = w.userSessions.lookup other := by
  unfold World.expireMembers
  split
  · exact (Store.lookup_insert_eq _ _ _ _).trans (if_neg hne)
  · rfl

theorem lookup_setActive_ne {sessionId : Uuid} {expiresAt : Int} {other : String}
    (hne : other ≠ userId) : (w.setActive userId sessionId expiresAt).activeSessions.lookup other =
      w.activeSessions.lookup other :=
  (Store.lookup_insert_eq _ _ _ _).trans (if_neg hne)

section Step

variable {c : Outside} {a : Request} {r : Answer a}

/-- What a task of the user writes is a session of the user. -/
theorem setEx_mine (howned : Owned w) (hfits : Fits w g) (huser : g.user = some userId)
    {session : VoiceSession} {m : Memory} (hasks : asks g (.setEx session m)) :
    session.userId = userId ∧
      (w.sessions.lookup session.id).filter (fun x => x.value.userId ≠ userId) = none := by
  obtain ⟨-, hdrawn, hmine⟩ | ⟨r, -, hread, hid, hmine, hthis⟩ := setEx_asks hasks
  · rw [howned.lookup_unused (hfits.drawn _ hdrawn)]
    exact ⟨Option.some.inj (hmine.symm.trans huser), rfl⟩
  · have hr := hthis userId huser
    rw [hid]
    exact ⟨hmine.trans hr, howned.filter_lookup (hr ▸ hfits.read r hread)⟩

theorem rest_sessions (howned : Owned w) (hfits : Fits w g) (huser : g.user = some userId)
    (hasks : asks g a) (h : answer c w a = some (r, w')) (sessionId : Uuid) :
    (w'.sessions.lookup sessionId).filter (fun x => x.value.userId ≠ userId) =
      (w.sessions.lookup sessionId).filter fun x => x.value.userId ≠ userId := by
  obtain hcase | ⟨session, m, rfl, -, rfl⟩ | ⟨key, rfl, rfl⟩ := sessions_answered h
  · rw [hcase.sessions]
    rfl
  · obtain ⟨hmine, hnone⟩ := setEx_mine howned hfits huser hasks
    have hlookup : ((w.tick c.now).save session m).sessions.lookup sessionId =
        if sessionId = session.id then some _ else w.sessions.lookup sessionId :=
      Store.lookup_insert_eq _ _ _ _
    rw [hlookup]
    split
    · next heq =>
      rw [heq, hnone, Option.filter_some, if_neg (by rw [hmine]; simp)]
    · rfl
  · have hlookup : ((w.tick c.now).remove key).sessions.lookup sessionId =
        if sessionId = key then none else w.sessions.lookup sessionId :=
      Store.lookup_erase_eq _ _ _
    rw [hlookup]
    split
    · next heq =>
      rw [heq, howned.filter_lookup (hfits.known userId huser key (hasks userId huser))]
      rfl
    · rfl

/-- The stream that a task works on is its user's. -/
theorem Fits.stream_mine (hfits : Fits w g) (huser : g.user = some userId) {streamId : Uuid}
    (hstream : g.stream = some streamId) : ∀ s ∈ w.streams, s.id = streamId → s.userId = userId :=
  fun s hs heq => Option.some.inj (((hfits.stream streamId hstream).2 s hs heq).symm.trans huser)

theorem Owned.tick (h : Owned w) (now : Int) : Owned (w.tick now) :=
  ⟨h.sessions, h.single, h.uuids, h.streams, h.index, h.active⟩

theorem Fits.tick (h : Fits w g) (now : Int) : Fits (w.tick now) g :=
  ⟨h.known, h.read, fun id hid => ⟨(h.drawn id hid).uuid, (h.drawn id hid).created,
    (h.drawn id hid).streams⟩, h.stream⟩

/-- The streams that a task interrupts are its user's. -/
theorem interrupt_mine (howned : Owned w) (hfits : Fits w g) (huser : g.user = some userId)
    {streamId : Option Uuid} {room : String} {sessionId : Uuid} {m : Memory}
    (hasks : asks g (.interrupt streamId room sessionId m))
    (hown : OwnIds c w (.interrupt streamId room sessionId m)) :
    ∀ s ∈ w.streams, World.concerns sessionId streamId s = true → s.userId = userId := by
  obtain ⟨⟨client, payload, hmemory, hclient⟩, hknown⟩ := hasks
  intro s hs hconcerns
  cases streamId with
  | none =>
    have hid : s.sessionId = sessionId := of_decide_eq_true hconcerns
    refine howned.single sessionId _ _ ?_ (hfits.known userId huser sessionId hknown)
    exact hid ▸ (howned.streams s hs).1
  | some id =>
    have hclient' : s.userId = client.userId :=
      hown (client, payload) hmemory s hs (of_decide_eq_true hconcerns)
    exact hclient'.trans (Option.some.inj (hclient.symm.trans huser))

theorem rest_streams (howned : Owned w) (hfits : Fits w g) (huser : g.user = some userId)
    (hasks : asks g a) (hown : OwnIds c (w.tick c.now) a) (h : answer c w a = some (r, w')) :
    w'.streams.filter (fun s => s.userId ≠ userId) =
      w.streams.filter fun s => s.userId ≠ userId := by
  by_cases hstreams : OfStreams a
  · obtain ⟨-, h⟩ := answer_cases h
    cases a with
    | startStream streamId session sessionId =>
      cases h
      have hmine : session.userId = userId := Option.some.inj (hasks.2.1.symm.trans huser)
      refine (List.filter_append ..).trans ?_
      rw [List.filter_cons_of_neg (by simp [hmine]), List.filter_nil, List.append_nil]
      rfl
    | emitChunk streamId room sessionId content isComplete =>
      dsimp only [reply] at h
      split at h <;> cases h
      · exact filter_setStream (w := w.tick c.now) (fun _ => rfl) (hfits.stream_mine huser hasks.2)
      · rfl
    | interrupt streamId room sessionId m =>
      cases h
      have hmine := interrupt_mine (howned.tick c.now) (hfits.tick c.now) huser hasks hown
      refine filter_filter_mine fun s hs hnot => hmine s hs ?_
      exact not_not.mp (of_decide_eq_false hnot)
    | beginCompletion streamId =>
      dsimp only [reply] at h
      split at h <;> cases h
      · exact filter_setStream (w := w.tick c.now) (fun _ => rfl) (hfits.stream_mine huser hasks.2)
      · rfl
    | deleteStream streamId =>
      cases h
      refine filter_filter_mine fun s hs hnot => hfits.stream_mine huser hasks.2 s hs ?_
      exact not_not.mp (of_decide_eq_false hnot)
    | _ => exact hstreams.elim
  · rw [(frame_answered h).streams hstreams]

theorem rest_index (huser : g.user = some userId) (hasks : asks g a)
    (h : answer c w a = some (r, w')) {other : String} (hne : other ≠ userId) :
    w'.userSessions.lookup other = w.userSessions.lookup other := by
  by_cases hindex : OfIndex a
  · obtain ⟨-, h⟩ := answer_cases h
    cases a with
    | sAdd user sessionId =>
      cases Option.some.inj (hasks.1.symm.trans huser)
      obtain ⟨e, -, -, rfl⟩ | ⟨-, -, rfl⟩ := Async.attempt_cases h
      · rfl
      · split
        · rfl
        · exact lookup_setMembers_ne hne
    | expire user seconds =>
      cases hasks userId huser
      obtain ⟨e, -, -, rfl⟩ | ⟨-, -, rfl⟩ := Async.attempt_cases h
      · rfl
      · exact lookup_expireMembers_ne hne
    | sRem user sessionId =>
      cases hasks userId huser
      obtain ⟨e, -, -, rfl⟩ | ⟨-, -, rfl⟩ := Async.attempt_cases h
      · rfl
      · exact lookup_setMembers_ne hne
    | _ => exact hindex.elim
  · rw [(frame_answered h).index hindex]

theorem rest_active (huser : g.user = some userId) (hasks : asks g a)
    (h : answer c w a = some (r, w')) {other : String} (hne : other ≠ userId) :
    w'.activeSessions.lookup other = w.activeSessions.lookup other := by
  by_cases hactive : OfActive a
  · obtain ⟨-, h⟩ := answer_cases h
    cases a with
    | setActive user seconds sessionId =>
      cases Option.some.inj (hasks.1.symm.trans huser)
      obtain ⟨e, -, -, rfl⟩ | ⟨-, -, rfl⟩ := Async.attempt_cases h
      · rfl
      · exact lookup_setActive_ne hne
    | delActive user =>
      cases hasks userId huser
      obtain ⟨e, -, -, rfl⟩ | ⟨-, -, rfl⟩ := Async.attempt_cases h
      · rfl
      · exact (Store.lookup_erase_eq _ _ _).trans (if_neg hne)
    | refreshActive user seconds =>
      cases hasks userId huser
      obtain ⟨e, -, -, rfl⟩ | ⟨-, -, rfl⟩ := Async.attempt_cases h
      · rfl
      · split
        · exact lookup_setActive_ne hne
        · rfl
    | _ => exact hactive.elim
  · rw [(frame_answered h).active hactive]

theorem now_answered (h : answer c w a = some (r, w')) : w'.now = c.now := by
  obtain hcase | ⟨session, m, -, -, rfl⟩ | ⟨key, -, rfl⟩ := sessions_answered h
  · exact hcase.now
  · rfl
  · rfl

/-- **A step of a user.** -/
theorem rest_answered (howned : Owned w) (hfits : Fits w g) (huser : g.user = some userId)
    (hasks : asks g a) (hown : OwnIds c (w.tick c.now) a) (h : answer c w a = some (r, w')) :
    Rest userId w w' where
  sessions := rest_sessions howned hfits huser hasks h
  streams := rest_streams howned hfits huser hasks hown h
  index _ hne := rest_index huser hasks h hne
  active _ hne := rest_active huser hasks h hne
  created other hne := by
    unfold World.createdFor
    obtain hsame | ⟨session, m, rfl, -, -, hcons⟩ := created_answered h
    · rw [hsame]
    · have hmine := (setEx_mine howned hfits huser hasks).1
      rw [hcons, List.countP_cons_of_neg (by simp [hmine, hne.symm])]
  uuids := uuids_answered h
  now := by
    rw [now_answered h]
    exact (answer_cases h).1

/-- With ids that are the client's own, an answer is as the event expects. -/
theorem told_answered (howned : Owned w) (hfits : Fits w g) (hasks : asks g a)
    (hown : OwnIds c (w.tick c.now) a) (h : answer c w a = some (r, w')) : told g a r := by
  cases a with
  | get sessionId m =>
    rintro s rfl
    obtain ⟨hid, hcreated⟩ := session_created howned h
    refine ⟨hid, fun hknows u hu => ?_, fun x hx hdisconnect => ?_⟩
    · exact howned.single sessionId _ _ hcreated (hfits.known u hu sessionId (hknows u hu))
    · obtain ⟨-, h⟩ := answer_cases h
      obtain ⟨e, -, hr, -⟩ | ⟨hrejects, hr, -⟩ := Async.attempt_cases h
      · cases hr
      · exact hown x hx hdisconnect hrejects s (Except.ok.inj hr).symm
  | sMembers user m =>
    obtain ⟨client, payload, hmemory, huser⟩ := hasks
    exact huser.trans (congrArg some (hown (client, payload) hmemory).symm)
  | _ => trivial

end Step

/-! ## A step of another, with and without the user -/

/-- `v` is `w` without what is the user's. -/
structure Without (userId : String) (w v : World) : Prop where
  sessions : ∀ sessionId, v.sessions.lookup sessionId =
    (w.sessions.lookup sessionId).filter fun x => x.value.userId ≠ userId
  streams : v.streams = w.streams.filter fun s => s.userId ≠ userId
  index : ∀ other ≠ userId, v.userSessions.lookup other = w.userSessions.lookup other
  active : ∀ other ≠ userId, v.activeSessions.lookup other = w.activeSessions.lookup other
  created : ∀ other ≠ userId, v.createdFor other = w.createdFor other
  uuids : v.uuids ⊆ w.uuids
  now : v.now ≤ w.now

theorem Without.rest {v : World} (h : Without userId w v) (hrest : Rest userId w w') :
    Without userId w' v where
  sessions sessionId := (h.sessions sessionId).trans (hrest.sessions sessionId).symm
  streams := h.streams.trans hrest.streams.symm
  index other hne := (h.index other hne).trans (hrest.index other hne).symm
  active other hne := (h.active other hne).trans (hrest.active other hne).symm
  created other hne := (h.created other hne).trans (hrest.created other hne).symm
  uuids := List.Subset.trans h.uuids hrest.uuids
  now := Int.le_trans h.now hrest.now

theorem Without.sameFor {v : World} (h : Without userId w v) {other : String}
    (hne : other ≠ userId) : w.SameFor other v where
  sessions sessionId := by
    rw [h.sessions, filter_filter_ne hne]
  streams := by
    rw [h.streams, list_filter_filter_ne hne]

section Stays

variable {v : World} {c : Outside} {a : Request} {r : Answer a} {user : String}

theorem Without.members (h : Without userId w v) (hnow : v.now = w.now) (hne : user ≠ userId) :
    v.members user = w.members user := by
  unfold World.members
  rw [hnow, Expiring.read_congr (h.index user hne)]

theorem Without.active_eq (h : Without userId w v) (hnow : v.now = w.now) (hne : user ≠ userId) :
    v.active user = w.active user := by
  unfold World.active
  rw [hnow, Expiring.read_congr (h.active user hne)]

theorem Without.setMembers (h : Without userId w v) (hnow : v.now = w.now) (hne : user ≠ userId)
    (ids : List Uuid) : Without userId (w.setMembers user ids) (v.setMembers user ids) where
  sessions := h.sessions
  streams := h.streams
  index other hother := by
    by_cases heq : other = user
    · subst heq
      show (if ids = [] then _ else _ : Store _ _).lookup other =
        (if ids = [] then _ else _ : Store _ _).lookup other
      split
      · rw [Store.lookup_erase_eq, Store.lookup_erase_eq, if_pos rfl, if_pos rfl]
      · rw [Store.lookup_insert_eq, Store.lookup_insert_eq, h.index other hne, hnow]
    · rw [lookup_setMembers_ne heq, lookup_setMembers_ne heq, h.index other hother]
  active := h.active
  created := h.created
  uuids := h.uuids
  now := h.now

theorem Without.expireMembers (h : Without userId w v) (hnow : v.now = w.now) (hne : user ≠ userId)
    (expiresAt : Int) :
    Without userId (w.expireMembers user expiresAt) (v.expireMembers user expiresAt) := by
  unfold World.expireMembers
  rw [hnow, Expiring.read_congr (h.index user hne)]
  split
  · refine ⟨h.sessions, h.streams, fun other hother => ?_, h.active, h.created, h.uuids,
      Int.le_refl w.now⟩
    show (v.userSessions.insert user _).lookup other = (w.userSessions.insert user _).lookup other
    rw [Store.lookup_insert_eq, Store.lookup_insert_eq, h.index other hother]
  · exact h

theorem Without.setActive (h : Without userId w v) (user : String) (sessionId : Uuid)
    (expiresAt : Int) :
    Without userId (w.setActive user sessionId expiresAt) (v.setActive user sessionId expiresAt) := by
  refine ⟨h.sessions, h.streams, h.index, fun other hother => ?_, h.created, h.uuids, h.now⟩
  show (v.activeSessions.insert user _).lookup other = (w.activeSessions.insert user _).lookup other
  rw [Store.lookup_insert_eq, Store.lookup_insert_eq, h.active other hother]

theorem Without.delActive (h : Without userId w v) (user : String) :
    Without userId { w with activeSessions := w.activeSessions.erase user }
      { v with activeSessions := v.activeSessions.erase user } := by
  refine ⟨h.sessions, h.streams, h.index, fun other hother => ?_, h.created, h.uuids, h.now⟩
  show (v.activeSessions.erase user).lookup other = (w.activeSessions.erase user).lookup other
  rw [Store.lookup_erase_eq, Store.lookup_erase_eq, h.active other hother]

theorem Without.save (h : Without userId w v) (hnow : v.now = w.now) {session : VoiceSession}
    (hne : session.userId ≠ userId) (m : Memory) :
    Without userId (w.save session m) (v.save session m) where
  sessions sessionId := by
    show (v.sessions.insert session.id _).lookup sessionId =
      ((w.sessions.insert session.id _).lookup sessionId).filter _
    rw [Store.lookup_insert_eq, Store.lookup_insert_eq, h.sessions]
    split
    · rw [Option.filter_some, if_pos (by simpa using hne), hnow]
    · rfl
  streams := h.streams
  index := h.index
  active := h.active
  created other hother := by
    have hthis := h.created other hother
    unfold World.createdFor at hthis ⊢
    show (if m.read = none then _ else _ : List _).countP _ = (if m.read = none then _ else _ : List _).countP _
    split
    · rw [List.countP_cons, List.countP_cons, hthis]
    · exact hthis
  uuids := h.uuids
  now := h.now

theorem Without.remove (h : Without userId w v) (key : Uuid) :
    Without userId (w.remove key) (v.remove key) where
  sessions sessionId := by
    show (v.sessions.erase key).lookup sessionId = ((w.sessions.erase key).lookup sessionId).filter _
    rw [Store.lookup_erase_eq, Store.lookup_erase_eq, h.sessions]
    split <;> rfl
  streams := h.streams
  index := h.index
  active := h.active
  created := h.created
  uuids := h.uuids
  now := h.now

/-- A stream of another user is there with and without the user. -/
theorem Without.stream (h : Without userId w v) {streamId : Uuid}
    (hmine : ∀ s ∈ w.streams, s.id = streamId → s.userId ≠ userId) :
    v.stream streamId = w.stream streamId := by
  unfold World.stream
  rw [h.streams, List.find?_filter]
  refine List.find?_congr fun s hs => ?_
  by_cases hid : s.id = streamId
  · simp [hid, hmine s hs hid]
  · simp [hid]

theorem Without.setStream (h : Without userId w v) (streamId : Uuid)
    {f : StreamingResponse → StreamingResponse} (hf : ∀ s, (f s).userId = s.userId) :
    Without userId (w.setStream streamId f) (v.setStream streamId f) := by
  refine ⟨h.sessions, ?_, h.index, h.active, h.created, h.uuids, h.now⟩
  show updateWhere _ f v.streams = (updateWhere _ f w.streams).filter _
  rw [filter_updateWhere fun s _ _ => by rw [hf], h.streams]

theorem Without.filter (h : Without userId w v) (p : StreamingResponse → Bool) :
    v.streams.filter p = (w.streams.filter p).filter fun s => s.userId ≠ userId := by
  rw [h.streams, List.filter_filter, List.filter_filter]
  exact List.filter_congr fun s _ => Bool.and_comm _ _

/-- The answer without the user. -/
def Agrees (userId : String) (c : Outside) (v : World) (g : Point) (a : Request) (r : Answer a)
    (w' : World) : Prop :=
  ∃ r' v', reply c v a = some (r', v') ∧ Without userId w' v' ∧ (r' = r ∨ Unlike g a r r')

theorem attempt_agrees {α : Type} {x : α} {w₁ v₁ : World} {r : Except String α}
    (hx : some (Async.attempt c.rejects x w w₁) = some (r, w')) (h : Without userId w v)
    (hnew : Without userId w₁ v₁) :
    ∃ v', some (Async.attempt c.rejects x v v₁) = some (r, v') ∧ Without userId w' v' := by
  unfold Async.attempt at hx ⊢
  split
  · next e he =>
    rw [he] at hx
    cases hx
    exact ⟨v, rfl, h⟩
  · next he =>
    rw [he] at hx
    cases hx
    exact ⟨v₁, rfl, hnew⟩

theorem Without.session (h : Without userId w v) (hnow : v.now = w.now) (sessionId : Uuid) :
    v.session sessionId = (w.session sessionId).filter fun s => s.userId ≠ userId := by
  unfold World.session Expiring.read
  rw [h.sessions, hnow]
  cases w.sessions.lookup sessionId with
  | none => rfl
  | some x =>
    by_cases hmine : x.value.userId = userId <;> cases hlive : x.Live w.now <;>
      simp [Option.filter_some, hmine, hlive]

/-- Where a task of another user reads a session of the user, it goes on as with none. -/
theorem get_agrees (howned : Owned w) (hfits : Fits w g) (huser : g.user = some user)
    (hne : user ≠ userId) {sessionId : Uuid} {m : Memory} {r : Answer (.get sessionId m)}
    (hasks : asks g (.get sessionId m)) (htold : told g (.get sessionId m) r)
    (hx : reply c w (.get sessionId m) = some (r, w')) (h : Without userId w v)
    (hnow : v.now = w.now) : Agrees userId c v g (.get sessionId m) r w' := by
  have hsession := h.session hnow sessionId
  obtain ⟨e, he, rfl, rfl⟩ | ⟨hrejects, rfl, rfl⟩ := Async.attempt_cases hx
  · refine ⟨.error e, v, ?_, h, .inl rfl⟩
    show some (Async.attempt c.rejects (v.session sessionId) v v) = _
    rw [he]
    rfl
  · have hreply : reply c v (.get sessionId m) = some (.ok (v.session sessionId), v) := by
      show some (Async.attempt c.rejects (v.session sessionId) v v) = _
      rw [hrejects]
      rfl
    refine ⟨.ok (v.session sessionId), v, hreply, h, ?_⟩
    cases hs : w'.session sessionId with
    | none =>
      rw [hs] at hsession
      exact .inl (congrArg Except.ok hsession)
    | some s =>
      rw [hs, Option.filter_some] at hsession
      by_cases hmine : s.userId = userId
      · -- the session is not known, so it is read first
        obtain ⟨hid, hknows, hdisconnect⟩ := htold s (congrArg Except.ok hs)
        rcases hasks with hthis | ⟨hfresh, client, payload, hmemory, hclient⟩
        · exact absurd ((hknows hthis user huser).symm.trans hmine) hne
        · have hother : s.userId ≠ client.userId := by
            rw [hmine, ← Option.some.inj (huser.symm.trans hclient)]
            exact hne.symm
          refine .inr ⟨hfresh, s, rfl, ?_, ?_⟩
          · rw [hsession, if_neg (by simp [hmine])]
          · intro x hx
            cases hmemory.symm.trans hx
            exact ⟨hother, fun hd => (hdisconnect _ hmemory hd).resolve_left hother⟩
      · rw [if_pos (by simp [hmine])] at hsession
        exact .inl (congrArg Except.ok hsession)

theorem agrees (howned : Owned w) (hfits : Fits w g) (huser : g.user = some user)
    (hne : user ≠ userId) (hasks : asks g a) (htold : told g a r)
    (hx : reply c w a = some (r, w')) (h : Without userId w v) (hnow : v.now = w.now) :
    Agrees userId c v g a r w' := by
  have hmine : ∀ other, g.Mine other → other ≠ userId := fun other hmine => hmine user huser ▸ hne
  have hours : ∀ other, g.user = some other → other ≠ userId := fun other hother =>
    hmine other fun u hu => Option.some.inj (hother.symm.trans hu)
  have hstream : ∀ streamId, g.stream = some streamId →
      ∀ s ∈ w.streams, s.id = streamId → s.userId ≠ userId := fun streamId hstream s hs heq =>
    hours s.userId ((hfits.stream streamId hstream).2 s hs heq)
  cases a with
  | get sessionId m => exact get_agrees howned hfits huser hne hasks htold hx h hnow
  | now =>
    cases hx
    exact ⟨v.now, v, rfl, h, .inl hnow⟩
  | sleep ms =>
    cases hx
    exact ⟨(), v, rfl, h, .inl rfl⟩
  | randomUUID =>
    dsimp only [reply] at hx
    split at hx
    · cases hx
    · next hnew =>
      cases hx
      refine ⟨c.uuid, { v with uuids := c.uuid :: v.uuids }, if_neg fun hmem => hnew (h.uuids hmem),
        ⟨h.sessions, h.streams, h.index, h.active, h.created, List.cons_subset_cons _ h.uuids, h.now⟩,
        .inl rfl⟩
  | setEx session m =>
    have hother : session.userId ≠ userId := by
      obtain ⟨-, -, hthis⟩ | ⟨r, -, -, -, hid, hthis⟩ := setEx_asks hasks
      · exact hours _ hthis
      · exact hid ▸ hmine r.userId hthis
    obtain ⟨v', hv, hw⟩ := attempt_agrees hx h (h.save hnow hother m)
    exact ⟨r, v', hv, hw, .inl rfl⟩
  | del key =>
    obtain ⟨v', hv, hw⟩ := attempt_agrees hx h (h.remove key)
    exact ⟨r, v', hv, hw, .inl rfl⟩
  | scanKeys =>
    obtain ⟨v', hv, hw⟩ := attempt_agrees hx h h
    exact ⟨r, v', hv, hw, .inl rfl⟩
  | sMembers other m =>
    have hother := hours other htold
    obtain ⟨v', hv, hw⟩ := attempt_agrees hx h h
    refine ⟨r, v', ?_, hw, .inl rfl⟩
    show some (Async.attempt c.rejects (v.members other, v.createdFor other) v v) = _
    rw [h.members hnow hother, h.created other hother]
    exact hv
  | sAdd other sessionId =>
    have hother := hours other hasks.1
    have hset := h.setMembers hnow hother (w.members other ++ [sessionId])
    have hnew : Without userId
        (if sessionId ∈ w.members other then w else w.setMembers other (w.members other ++ [sessionId]))
        (if sessionId ∈ v.members other then v
          else v.setMembers other (v.members other ++ [sessionId])) := by
      rw [h.members hnow hother]
      split
      · exact h
      · exact hset
    obtain ⟨v', hv, hw⟩ := attempt_agrees hx h hnew
    exact ⟨r, v', hv, hw, .inl rfl⟩
  | expire other seconds =>
    have hset := h.expireMembers hnow (hmine other hasks) (v.now + seconds * 1000)
    nth_rewrite 1 [hnow] at hset
    obtain ⟨v', hv, hw⟩ := attempt_agrees hx h hset
    exact ⟨r, v', hv, hw, .inl rfl⟩
  | sRem other sessionId =>
    have hother := hmine other hasks
    have hset := h.setMembers hnow hother ((v.members other).filter (· ≠ sessionId))
    nth_rewrite 1 [h.members hnow hother] at hset
    obtain ⟨v', hv, hw⟩ := attempt_agrees hx h hset
    exact ⟨r, v', hv, hw, .inl rfl⟩
  | getActive other =>
    obtain ⟨v', hv, hw⟩ := attempt_agrees hx h h
    refine ⟨r, v', ?_, hw, .inl rfl⟩
    show some (Async.attempt c.rejects (v.active other) v v) = _
    rw [h.active_eq hnow (hmine other hasks)]
    exact hv
  | setActive other seconds sessionId =>
    have hset := h.setActive other sessionId (v.now + seconds * 1000)
    nth_rewrite 1 [hnow] at hset
    obtain ⟨v', hv, hw⟩ := attempt_agrees hx h hset
    exact ⟨r, v', hv, hw, .inl rfl⟩
  | delActive other =>
    obtain ⟨v', hv, hw⟩ := attempt_agrees hx h (h.delActive other)
    exact ⟨r, v', hv, hw, .inl rfl⟩
  | refreshActive other seconds =>
    have hactive := h.active_eq hnow (hmine other hasks)
    dsimp only [reply] at hx
    cases hw : w.active other with
    | none =>
      rw [hw] at hx
      obtain ⟨v', hv, hw'⟩ := attempt_agrees hx h h
      refine ⟨r, v', ?_, hw', .inl rfl⟩
      dsimp only [reply]
      rw [hactive, hw]
      exact hv
    | some sessionId =>
      rw [hw] at hx
      have hset := h.setActive other sessionId (w.now + seconds * 1000)
      obtain ⟨v', hv, hw'⟩ := attempt_agrees hx h hset
      refine ⟨r, v', ?_, hw', .inl rfl⟩
      dsimp only [reply]
      rw [hactive, hw, hnow]
      exact hv
  | generateResponse other sessionId prompt m =>
    obtain ⟨v', hv, hw⟩ := attempt_agrees hx h h
    exact ⟨r, v', hv, hw, .inl rfl⟩
  | startStream streamId session sessionId =>
    cases hx
    refine ⟨(), _, rfl, ⟨h.sessions, ?_, h.index, h.active, h.created, h.uuids, h.now⟩, .inl rfl⟩
    show v.streams ++ [_] = (w.streams ++ [_]).filter _
    have hother := hours session.userId hasks.2.1
    rw [List.filter_append, List.filter_cons_of_pos (by simpa using hother), h.streams, hnow]
    rfl
  | checkStream streamId =>
    cases hx
    refine ⟨_, v, rfl, h, .inl ?_⟩
    rw [h.stream (hstream streamId hasks.2)]
  | emitResponding streamId room sessionId =>
    cases hx
    exact ⟨(), _, rfl, ⟨h.sessions, h.streams, h.index, h.active, h.created, h.uuids, h.now⟩,
      .inl rfl⟩
  | emitChunk streamId room sessionId content isComplete =>
    have hfound := h.stream (hstream streamId hasks.2)
    dsimp only [reply] at hx
    split at hx
    · next hactive =>
      cases hx
      have hset := h.setStream streamId (f := fun s =>
        { s with chunks := s.chunks ++ [⟨c.uuid, content, isComplete, !isComplete⟩] }) fun _ => rfl
      refine ⟨true, _, if_pos (by rw [hfound]; exact hactive), ?_, .inl rfl⟩
      exact ⟨hset.sessions, hset.streams, hset.index, hset.active, hset.created, hset.uuids, hset.now⟩
    · next hactive =>
      cases hx
      exact ⟨false, v, if_neg (by rw [hfound]; exact hactive), h, .inl rfl⟩
  | interrupt streamId room sessionId m =>
    cases hx
    exact ⟨(), _, rfl, ⟨h.sessions, h.filter _, h.index, h.active, h.created, h.uuids, h.now⟩,
      .inl rfl⟩
  | beginCompletion streamId =>
    have hfound := h.stream (hstream streamId hasks.2)
    dsimp only [reply] at hx
    split at hx
    · next hactive =>
      cases hx
      have hset := h.setStream streamId (f := fun s => { s with endTime := some v.now })
        fun _ => rfl
      nth_rewrite 1 [hnow] at hset
      exact ⟨true, _, if_pos (by rw [hfound]; exact hactive), hset, .inl rfl⟩
    · next hactive =>
      cases hx
      exact ⟨false, v, if_neg (by rw [hfound]; exact hactive), h, .inl rfl⟩
  | emitComplete streamId room sessionId response =>
    cases hx
    exact ⟨(), _, rfl, ⟨h.sessions, h.streams, h.index, h.active, h.created, h.uuids, h.now⟩,
      .inl rfl⟩
  | deleteStream streamId =>
    cases hx
    exact ⟨(), _, rfl, ⟨h.sessions, h.filter _, h.index, h.active, h.created, h.uuids, h.now⟩,
      .inl rfl⟩

end Stays

/-! ## Whole runs -/

theorem answered_agrees {v : World} {c : Outside} {a : Request} {r : Answer a} {user : String}
    (howned : Owned w) (hfits : Fits w g) (huser : g.user = some user) (hne : user ≠ userId)
    (hasks : asks g a) (htold : told g a r) (hx : answer c w a = some (r, w'))
    (h : Without userId w v) : ∃ r' v', answer c v a = some (r', v') ∧ Without userId w' v' ∧
      (r' = r ∨ Unlike g a r r') := by
  obtain ⟨hle, hx⟩ := answer_cases hx
  have htick : Without userId (w.tick c.now) (v.tick c.now) :=
    ⟨h.sessions, h.streams, h.index, h.active, h.created, h.uuids, Int.le_refl c.now⟩
  obtain ⟨r', v', hv, hrest⟩ :=
    agrees (howned.tick c.now) (hfits.tick c.now) huser hne hasks htold hx htick rfl
  refine ⟨r', v', ?_, hrest⟩
  unfold answer
  rw [if_pos (Int.le_trans h.now hle)]
  exact hv

/-- What is known of the tasks of a run: the books, and that each is an event of some user. -/
structure Users (w : World) (gs : List Point) : Prop where
  books : Books w gs
  user : ∀ g ∈ gs, g.user ≠ none

variable {tr : GatewayTrace} {t : GatewaySystem}

/-- A step with ids that are the client's own. -/
theorem Books.step {e : Event Outside (Async.Move GatewayOperation) Unit GatewaySystem} {i : Nat}
    {a : Request} {r : Answer a} (h : Books e.before.world gs) (hown : StepOwnIds e)
    (hans : Answered answer e i a r) (hg : gs[i]? = some g) (hasks : asks g a) :
    told g a r ∧ Books e.after.world (gs.set i (next g a r)) := by
  have hfits := h.fits g (List.mem_of_getElem? hg)
  have htold := told_answered h.owned hfits hasks (hans.meets hown) hans.answer
  exact ⟨htold, h.answered hg hasks htold hans.answer⟩

/-- What is known of a run: the books, whose task each is, and that the answers given so far to an
event of a user changed nothing of the others. -/
structure Kept (tr : GatewayTrace) (w : World) (gs : List Point) : Prop where
  books : Books w gs
  users : gs.map Point.user = (Async.started tr).map GatewayOperation.userId
  steps : ∀ e ∈ tr, ∀ i, e.call = .resume i → ∃ op, (Async.started tr)[i]? = some op ∧
    ∀ userId, op.userId = some userId → ∀ other ≠ userId,
      e.before.world.SameFor other e.after.world

variable {e : Event Outside (Async.Move GatewayOperation) Unit GatewaySystem}

theorem Kept.start (h : Kept tr e.before.world gs) {op : GatewayOperation}
    (hcall : e.call = .start op) : Kept (e :: tr) e.before.world (gs ++ [begin op]) where
  books := h.books.start op
  users := by
    rw [Async.started_start hcall, List.map_append, List.map_append, h.users]
    rfl
  steps e' he' i hi := by
    rcases List.mem_cons.mp he' with rfl | he'
    · rw [hcall] at hi
      cases hi
    · obtain ⟨op', hop, hsame⟩ := h.steps e' he' i hi
      refine ⟨op', ?_, hsame⟩
      rw [Async.started_start hcall, List.getElem?_append_left (List.getElem?_eq_some_iff.mp hop).1]
      exact hop

theorem Kept.step (h : Kept tr e.before.world gs) (hown : StepOwnIds e) {i : Nat} {a : Request}
    {r : Answer a} (hans : Answered answer e i a r) (hg : gs[i]? = some g) (hasks : asks g a) :
    Kept (e :: tr) e.after.world (gs.set i (next g a r)) where
  books := (h.books.step hown hans hg hasks).2
  users := by
    have huser : (next g a r).user = g.user := learn_user g a r
    rw [Async.map_set_of_eq hg huser, Async.started_resume hans.call, h.users]
  steps e' he' j hj := by
    rw [Async.started_resume hans.call]
    rcases List.mem_cons.mp he' with rfl | he'
    · cases hans.call.symm.trans hj
      have hop : ((Async.started tr).map GatewayOperation.userId)[i]? = some g.user := by
        rw [← h.users, List.getElem?_map, hg]
        rfl
      rw [List.getElem?_map] at hop
      obtain ⟨op, hop, huser⟩ := Option.map_eq_some_iff.mp hop
      refine ⟨op, hop, fun userId hthis other hne => ?_⟩
      exact (rest_answered h.books.owned (h.books.fits g (List.mem_of_getElem? hg))
        (huser.symm.trans hthis) hasks (hans.meets hown) hans.answer).sameFor hne
    · exact h.steps e' he' j hj

/-- **The events of a user** change nothing of the others. -/
theorem steps_isolated (h : Run gatewayMachine tr t) (hown : ∀ e ∈ tr, StepOwnIds e) :
    ∀ e ∈ tr, ∀ userId, OfUserEvent tr userId e →
      ∀ other ≠ userId, e.before.world.SameFor other e.after.world := by
  obtain ⟨gs, hkept, -⟩ := Async.interleave_obeys_from (P := protocol) (b := begin) (J := Kept)
    (E := fun _ _ => True) (fun op _ => program_obeys op)
    (fun s (hs : s = {}) => ⟨hs ▸ books_init, rfl, fun e he => (by cases he)⟩)
    (fun tr e gs op _ _ hcall _ _ hJ => hJ.start hcall)
    (fun tr e gs i a r g hgood hans _ hg hasks hJ =>
      ⟨(hJ.books.step hgood hans hg hasks).1, hJ.step hgood hans hg hasks⟩) h hown
  rintro e he userId ⟨i, op, hcall, hop, huser⟩ other hne
  obtain ⟨op', hop', hsame⟩ := hkept.steps e he i hcall
  obtain rfl : op = op' := Option.some.inj (hop.symm.trans hop')
  exact hsame userId huser other hne

/-- The task is of an event of another. -/
def Point.ofOther (userId : String) (g : Point) : Bool := g.user ≠ some userId

/-- **Without a user** the others are where they are with it. -/
theorem runs_isolated (h : Run gatewayMachine tr t) (hown : ∀ e ∈ tr, StepOwnIds e)
    (husers : ∀ op ∈ Async.started tr, op.userId ≠ none) (userId : String) : ∃ tr' t',
      Run gatewayMachine tr' t' ∧
      tr'.map (fun e => (e.env, e.call)) = Async.remaining (fun op => op.userId ≠ some userId) tr ∧
      Without userId t.world t'.world := by
  have hgood : ∀ e ∈ tr, StepOwnIds e ∧ ∀ op, e.call = .start op → op.userId ≠ none :=
    fun e he => ⟨hown e he, fun op hop => husers op (Async.mem_started he hop)⟩
  have hside : ∀ g (a : Request) r, (next g a r).ofOther userId = g.ofOther userId := fun g a r =>
    congrArg (fun user => decide (user ≠ some userId)) (learn_user g a r)
  refine Async.interleave_without (P := protocol) (b := begin) (E := fun _ _ => True) (J := Users)
    (D := Unlike) (fun op _ => program_obeys op) (fun op _ => program_blind op) ?_ (fun op => rfl)
    hside ?_ ?_ ?_ ?_ ?_ h hgood
  · rintro g a r a' s s' hunlike
    cases a' with
    | get => cases hunlike.1
    | _ => exact hunlike
  · rintro s (rfl : s = {})
    refine ⟨⟨books_init, fun g hg => (by cases hg)⟩, ?_⟩
    exact ⟨fun _ => rfl, rfl, fun _ _ => rfl, fun _ _ => rfl, fun _ _ => rfl,
      List.Subset.refl _, Int.le_refl _⟩
  · intro e gs op hgood hcall hJ
    refine ⟨hJ.books.start op, fun g hg => ?_⟩
    rcases List.mem_append.mp hg with hg | hg
    · exact hJ.user g hg
    · rw [List.mem_singleton.mp hg]
      exact hgood.2 op hcall
  · intro e gs i a r g hgood hans hg hasks hJ
    obtain ⟨htold, hbooks⟩ := hJ.books.step hgood.1 hans hg hasks
    refine ⟨htold, hbooks, fun g' hg' => ?_⟩
    rcases Async.of_mem_set hg hg' with rfl | ⟨j, -, hg'⟩
    · show (g.learn a r).user ≠ none
      rw [learn_user]
      exact hJ.user g (List.mem_of_getElem? hg)
    · exact hJ.user g' (List.mem_of_getElem? hg')
  · intro e gs i a r g w hgood hans hg hasks hJ hmine hw
    have huser : g.user = some userId := not_not.mp (of_decide_eq_false hmine)
    exact hw.rest (rest_answered hJ.books.owned (hJ.books.fits g (List.mem_of_getElem? hg)) huser
      hasks (hans.meets hgood.1) hans.answer)
  · intro e gs i a r g w hgood hans hg hasks hJ hother hw
    have hmem := List.mem_of_getElem? hg
    obtain ⟨user, huser⟩ := Option.ne_none_iff_exists'.mp (hJ.user g hmem)
    have hne : user ≠ userId := by
      rintro rfl
      exact of_decide_eq_true hother huser
    exact answered_agrees hJ.books.owned (hJ.books.fits g hmem) huser hne hasks
      (hJ.books.step hgood.1 hans hg hasks).1 hans.answer hw

end Isolation

/-- **Isolation**: if the ids that a client sends are its own, no event of a user changes a session or
a stream of another, and the others' are the same without the user's events. -/
theorem users_isolated {tr : GatewayTrace} {t : GatewaySystem} (h : Run gatewayMachine tr t)
    (hown : ∀ e ∈ tr, StepOwnIds e) : Isolated tr t where
  steps := Isolation.steps_isolated h hown
  runs husers userId := by
    obtain ⟨tr', t', hrun, hcalls, hwithout⟩ := Isolation.runs_isolated h hown husers userId
    exact ⟨tr', t', hrun, hcalls, fun other hne => hwithout.sameFor hne⟩

/-! ### Two users, and a session created for another -/

def sends (client : Client) (payload : SocketEvent) : Outside × Async.Move GatewayOperation :=
  (undisturbed "", .start (.event client payload))

def answered (i : Nat) (uuid : Uuid) (answers : Nat) :
    List (Outside × Async.Move GatewayOperation) :=
  List.replicate answers (undisturbed uuid, .resume i)

def alice : Client := ⟨"1", "alice", none⟩

def bob : Client := ⟨"2", "bob", none⟩

/-- What the user asks for to have a session. -/
def creates (userId : String) : SocketEvent := .createSession ⟨userId, none, .general, none⟩

/-- The session is the user's. -/
def World.Has (w : World) (sessionId : Uuid) (userId : String) : Prop :=
  ∃ x ∈ w.sessions.lookup sessionId, x.value.userId = userId

instance (w : World) (sessionId : Uuid) (userId : String) : Decidable (w.Has sessionId userId) :=
  inferInstanceAs (Decidable (∃ _ ∈ _, _))

theorem users_isolated_at_once :
    ∃ (tr : GatewayTrace) (t : GatewaySystem), Run gatewayMachine tr t ∧ t.world.Has "a" "alice" ∧
      t.world.Has "b" "bob" ∧ Isolated tr t := by
  obtain ⟨tr, t, hrun, hok⟩ := Machine.exists_run_of_replay (m := gatewayMachine) (s := ⟨{}, []⟩)
    ⟨rfl, rfl⟩
    (sends alice (creates "alice") :: sends bob (creates "bob") ::
      answered 0 "a" 4 ++ answered 1 "b" 11 ++ answered 0 "a" 7)
    (fun tr t => decide ((∀ e ∈ tr, StepOwnIds e) ∧ t.world.Has "a" "alice" ∧
      t.world.Has "b" "bob"))
    (fun c _ => c.2.starts_of_true) (by decide) (by decide +kernel)
  obtain ⟨hown, ha, hb⟩ := of_decide_eq_true hok
  exact ⟨tr, t, hrun, ha, hb, users_isolated hrun hown⟩

/-- Bob asks for a session and names alice as its user. -/
theorem user_not_isolated :
    ¬ ∀ (tr : GatewayTrace) (t : GatewaySystem), Run gatewayMachine tr t → Isolated tr t := by
  intro hall
  obtain ⟨tr, t, hrun, hok⟩ := Machine.exists_run_of_replay (m := gatewayMachine) (s := ⟨{}, []⟩)
    ⟨rfl, rfl⟩ (sends bob (creates "alice") :: answered 0 "s" 11)
    (fun tr _ => decide ((Async.started tr)[0]? = some (GatewayOperation.event bob (creates "alice")) ∧
      ∃ e ∈ tr, e.call = .resume 0 ∧ (e.before.world.sessions.lookup "s").isNone = true ∧
        e.after.world.Has "s" "alice"))
    (fun c _ => c.2.starts_of_true) (by decide) (by decide +kernel)
  obtain ⟨hop, e, he, hcall, hnone, x, hx, huser⟩ := of_decide_eq_true hok
  have hsame := (hall tr t hrun).steps e he "bob" ⟨0, _, hcall, hop, rfl⟩ "alice" (by decide)
  have hsession := hsame.sessions "s"
  rw [Option.isNone_iff_eq_none.mp hnone, Option.mem_def.mp hx, Option.filter_some,
    if_pos (by simpa using huser)] at hsession
  cases hsession

end Stellara.Voice
