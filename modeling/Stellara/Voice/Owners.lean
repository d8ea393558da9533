import Stellara.Voice.Events

/-!
# Whose a session is

A session is created for a user under a new UUID, and is this user's in all that is stored: in the
sessions, the streams, the index and the active sessions (`Owned`).  A task of the user knows and
has read only sessions that are the user's (`Fits`).

    (id, user) ∈ created    for one user only, since id was drawn once
-/

namespace Stellara.Voice

open Async (Apart)

namespace Isolation

/-! ## What an answer does to the stores -/

section Stores

variable {c : Outside} {w w' : World} {a : Request} {r : Answer a}

/-- A session that is stored was, or is written. -/
theorem lookup_answered (h : answer c w a = some (r, w')) {sessionId : Uuid}
    {x : Expiring VoiceSession} (hx : w'.sessions.lookup sessionId = some x) :
    w.sessions.lookup sessionId = some x ∨ ∃ session m, a = .setEx session m ∧
      sessionId = session.id ∧ x.value = session ∧
        (m.read = none → (session.id, session.userId) ∈ w'.created) := by
  obtain hcase | ⟨session, m, rfl, -, rfl⟩ | ⟨key, rfl, rfl⟩ := sessions_answered h
  · rw [hcase.sessions] at hx
    exact .inl hx
  · have hlookup : ((w.tick c.now).sessions.insert session.id
        ⟨session, some ((w.tick c.now).now + session.ttl * 1000)⟩).lookup sessionId = some x := hx
    rw [Store.lookup_insert_eq] at hlookup
    split at hlookup
    · next hid =>
      cases hlookup
      refine .inr ⟨session, m, rfl, hid, rfl, fun hnone => ?_⟩
      show _ ∈ if m.read = none then _ else _
      rw [if_pos hnone]
      exact List.mem_cons_self
    · exact .inl hlookup
  · have hlookup : ((w.tick c.now).sessions.erase key).lookup sessionId = some x := hx
    rw [Store.lookup_erase_eq] at hlookup
    split at hlookup
    · cases hlookup
    · exact .inl hlookup

theorem lookup_setMembers {userId u : String} {ids : List Uuid} {x : Expiring (List Uuid)}
    (h : (w.setMembers userId ids).userSessions.lookup u = some x) :
    (u ≠ userId ∧ w.userSessions.lookup u = some x) ∨ (u = userId ∧ x.value = ids) := by
  have hlookup : (if ids = [] then w.userSessions.erase userId
    else w.userSessions.insert userId ⟨ids, _⟩).lookup u = some x := h
  split at hlookup
  · rw [Store.lookup_erase_eq] at hlookup
    split at hlookup
    · cases hlookup
    · next hne => exact .inl ⟨hne, hlookup⟩
  · rw [Store.lookup_insert_eq] at hlookup
    split at hlookup
    · next heq =>
      cases hlookup
      exact .inr ⟨heq, rfl⟩
    · next hne => exact .inl ⟨hne, hlookup⟩

/-- A member is stored. -/
theorem mem_members {userId : String} {sessionId : Uuid} (h : sessionId ∈ w.members userId) :
    ∃ x, w.userSessions.lookup userId = some x ∧ sessionId ∈ x.value := by
  unfold World.members at h
  cases hread : Expiring.read w.now w.userSessions userId with
  | none =>
    rw [hread] at h
    cases h
  | some ids =>
    rw [hread] at h
    obtain ⟨x, hx, -, rfl⟩ := Expiring.read_eq_some.mp hread
    exact ⟨x, hx, h⟩

/-- A member of the index was one, or is added. -/
theorem member_answered (h : answer c w a = some (r, w')) {userId : String}
    {x : Expiring (List Uuid)} (hx : w'.userSessions.lookup userId = some x) {sessionId : Uuid}
    (hid : sessionId ∈ x.value) :
    (∃ y, w.userSessions.lookup userId = some y ∧ sessionId ∈ y.value) ∨
      a = .sAdd userId sessionId := by
  by_cases hindex : OfIndex a
  · obtain ⟨-, h⟩ := answer_cases h
    cases a with
    | sAdd user id =>
      obtain ⟨e, -, -, rfl⟩ | ⟨-, -, rfl⟩ := Async.attempt_cases h
      · exact .inl ⟨x, hx, hid⟩
      · split at hx
        · exact .inl ⟨x, hx, hid⟩
        · obtain ⟨-, hx⟩ | ⟨rfl, hvalue⟩ := lookup_setMembers hx
          · exact .inl ⟨x, hx, hid⟩
          · rw [hvalue] at hid
            rcases List.mem_append.mp hid with hid | hid
            · exact .inl (mem_members (w := w.tick c.now) hid)
            · rw [List.mem_singleton.mp hid]
              exact .inr rfl
    | expire user seconds =>
      obtain ⟨e, -, -, rfl⟩ | ⟨-, -, rfl⟩ := Async.attempt_cases h
      · exact .inl ⟨x, hx, hid⟩
      · unfold World.expireMembers at hx
        split at hx
        · next ids hread =>
          have hlookup : ((w.tick c.now).userSessions.insert user ⟨ids, _⟩).lookup userId =
            some x := hx
          rw [Store.lookup_insert_eq] at hlookup
          split at hlookup
          · next heq =>
            cases hlookup
            subst heq
            obtain ⟨y, hy, -, rfl⟩ := Expiring.read_eq_some.mp hread
            exact .inl ⟨y, hy, hid⟩
          · exact .inl ⟨x, hlookup, hid⟩
        · exact .inl ⟨x, hx, hid⟩
    | sRem user id =>
      obtain ⟨e, -, -, rfl⟩ | ⟨-, -, rfl⟩ := Async.attempt_cases h
      · exact .inl ⟨x, hx, hid⟩
      · obtain ⟨-, hx⟩ | ⟨rfl, hvalue⟩ := lookup_setMembers hx
        · exact .inl ⟨x, hx, hid⟩
        · rw [hvalue] at hid
          exact .inl (mem_members (w := w.tick c.now) (List.mem_filter.mp hid).1)
    | _ => exact hindex.elim
  · rw [(frame_answered h).index hindex] at hx
    exact .inl ⟨x, hx, hid⟩

/-- An active session was active, or is set. -/
theorem active_answered (h : answer c w a = some (r, w')) {userId : String} {x : Expiring Uuid}
    (hx : w'.activeSessions.lookup userId = some x) :
    (∃ y, w.activeSessions.lookup userId = some y ∧ y.value = x.value) ∨
      ∃ seconds, a = .setActive userId seconds x.value := by
  by_cases hactive : OfActive a
  · obtain ⟨-, h⟩ := answer_cases h
    cases a with
    | setActive user seconds id =>
      obtain ⟨e, -, -, rfl⟩ | ⟨-, -, rfl⟩ := Async.attempt_cases h
      · exact .inl ⟨x, hx, rfl⟩
      · have hlookup : ((w.tick c.now).activeSessions.insert user ⟨id, _⟩).lookup userId =
          some x := hx
        rw [Store.lookup_insert_eq] at hlookup
        split at hlookup
        · next heq =>
          cases hlookup
          subst heq
          exact .inr ⟨seconds, rfl⟩
        · exact .inl ⟨x, hlookup, rfl⟩
    | delActive user =>
      obtain ⟨e, -, -, rfl⟩ | ⟨-, -, rfl⟩ := Async.attempt_cases h
      · exact .inl ⟨x, hx, rfl⟩
      · have hlookup : ((w.tick c.now).activeSessions.erase user).lookup userId = some x := hx
        rw [Store.lookup_erase_eq] at hlookup
        split at hlookup
        · cases hlookup
        · exact .inl ⟨x, hlookup, rfl⟩
    | refreshActive user seconds =>
      obtain ⟨e, -, -, rfl⟩ | ⟨-, -, rfl⟩ := Async.attempt_cases h
      · exact .inl ⟨x, hx, rfl⟩
      · split at hx
        · next id hread =>
          have hlookup : ((w.tick c.now).activeSessions.insert user ⟨id, _⟩).lookup userId =
            some x := hx
          rw [Store.lookup_insert_eq] at hlookup
          split at hlookup
          · next heq =>
            cases hlookup
            subst heq
            obtain ⟨y, hy, -, hvalue⟩ := Expiring.read_eq_some.mp hread
            exact .inl ⟨y, hy, hvalue⟩
          · exact .inl ⟨x, hlookup, rfl⟩
        · exact .inl ⟨x, hx, rfl⟩
    | _ => exact hactive.elim
  · rw [(frame_answered h).active hactive] at hx
    exact .inl ⟨x, hx, rfl⟩

/-- The two are one stream, at different times. -/
structure SameStream (s s' : StreamingResponse) : Prop where
  id : s'.id = s.id
  sessionId : s'.sessionId = s.sessionId
  userId : s'.userId = s.userId

theorem mem_setStream {streamId : Uuid} {f : StreamingResponse → StreamingResponse}
    {s : StreamingResponse} (h : s ∈ (w.setStream streamId f).streams)
    (hf : ∀ s, SameStream s (f s)) : ∃ s₀ ∈ w.streams, SameStream s₀ s := by
  obtain ⟨s₀, hs₀, rfl⟩ := List.mem_map.mp h
  refine ⟨s₀, hs₀, ?_⟩
  split
  · exact hf s₀
  · exact ⟨rfl, rfl, rfl⟩

/-- A stream that is active was, or is started. -/
theorem stream_answered (h : answer c w a = some (r, w')) {s : StreamingResponse}
    (hs : s ∈ w'.streams) : (∃ s₀ ∈ w.streams, SameStream s₀ s) ∨
      ∃ session, a = .startStream s.id session s.sessionId ∧ s.userId = session.userId := by
  by_cases hstreams : OfStreams a
  · obtain ⟨-, h⟩ := answer_cases h
    cases a with
    | startStream streamId session sessionId =>
      cases h
      rcases List.mem_append.mp hs with hs | hs
      · exact .inl ⟨s, hs, rfl, rfl, rfl⟩
      · rw [List.mem_singleton.mp hs]
        exact .inr ⟨session, rfl, rfl⟩
    | emitChunk streamId room sessionId content isComplete =>
      dsimp only [reply] at h
      split at h <;> cases h
      · exact .inl (mem_setStream (w := w.tick c.now) hs fun _ => ⟨rfl, rfl, rfl⟩)
      · exact .inl ⟨s, hs, rfl, rfl, rfl⟩
    | interrupt streamId room sessionId m =>
      cases h
      exact .inl ⟨s, (List.mem_filter.mp hs).1, rfl, rfl, rfl⟩
    | beginCompletion streamId =>
      dsimp only [reply] at h
      split at h <;> cases h
      · exact .inl (mem_setStream (w := w.tick c.now) hs fun _ => ⟨rfl, rfl, rfl⟩)
      · exact .inl ⟨s, hs, rfl, rfl, rfl⟩
    | deleteStream streamId =>
      cases h
      exact .inl ⟨s, (List.mem_filter.mp hs).1, rfl, rfl, rfl⟩
    | _ => exact hstreams.elim
  · rw [(frame_answered h).streams hstreams] at hs
    exact .inl ⟨s, hs, rfl, rfl, rfl⟩

end Stores

/-! ## What is stored for a user is the user's -/

structure Owned (w : World) : Prop where
  sessions : ∀ sessionId x, w.sessions.lookup sessionId = some x →
    x.value.id = sessionId ∧ (sessionId, x.value.userId) ∈ w.created
  single : ∀ sessionId u v, (sessionId, u) ∈ w.created → (sessionId, v) ∈ w.created → u = v
  uuids : ∀ x ∈ w.created, x.1 ∈ w.uuids
  streams : ∀ s ∈ w.streams, (s.sessionId, s.userId) ∈ w.created ∧ s.id ∈ w.uuids
  index : ∀ userId x, w.userSessions.lookup userId = some x → ∀ sessionId ∈ x.value,
    (sessionId, userId) ∈ w.created
  active : ∀ userId x, w.activeSessions.lookup userId = some x → (x.value, userId) ∈ w.created

/-- A UUID that names no session and no stream. -/
structure Unused (w : World) (id : Uuid) : Prop where
  uuid : id ∈ w.uuids
  created : ∀ x ∈ w.created, x.1 ≠ id
  streams : ∀ s ∈ w.streams, s.id ≠ id

/-- What a task of a user knows is the user's. -/
structure Fits (w : World) (g : Point) : Prop where
  known : ∀ u, g.user = some u → ∀ sessionId ∈ g.known, (sessionId, u) ∈ w.created
  read : ∀ r, g.read = some r → (r.id, r.userId) ∈ w.created
  drawn : ∀ id, g.drawn = some id → Unused w id
  stream : ∀ id, g.stream = some id → id ∈ w.uuids ∧
    ∀ s ∈ w.streams, s.id = id → g.user = some s.userId

structure Books (w : World) (gs : List Point) : Prop where
  owned : Owned w
  fits : ∀ g ∈ gs, Fits w g
  drawn : Apart Point.drawn gs
  stream : ∀ g ∈ gs, ∀ g' ∈ gs, ∀ id, g.drawn = some id → g'.stream ≠ some id

theorem books_init : Books {} [] where
  owned :=
    { sessions := fun _ _ h => absurd h Store.lookup_empty_ne
      single := fun _ _ _ h => by cases h
      uuids := fun _ h => by cases h
      streams := fun _ h => by cases h
      index := fun _ _ h => absurd h Store.lookup_empty_ne
      active := fun _ _ h => absurd h Store.lookup_empty_ne }
  fits := fun _ h => by cases h
  drawn := .nil
  stream := fun _ h => by cases h

variable {w w' : World} {gs : List Point} {g : Point}

theorem Books.start (h : Books w gs) (op : GatewayOperation) : Books w (gs ++ [begin op]) where
  owned := h.owned
  fits g hg := by
    rcases List.mem_append.mp hg with hg | hg
    · exact h.fits g hg
    · rw [List.mem_singleton.mp hg]
      exact ⟨fun _ _ _ => nofun, fun _ => nofun, fun _ => nofun, fun _ => nofun⟩
  drawn := h.drawn.append rfl
  stream g hg g' hg' id hid hthis := by
    rcases List.mem_append.mp hg with hg | hg
    · rcases List.mem_append.mp hg' with hg' | hg'
      · exact h.stream g hg g' hg' id hid hthis
      · rw [List.mem_singleton.mp hg'] at hthis
        cases hthis
    · rw [List.mem_singleton.mp hg] at hid
      cases hid

/-! ### One answer -/

/-- What an answer to a task adds. -/
structure Grows (g : Point) (w w' : World) : Prop where
  uuids : w.uuids ⊆ w'.uuids
  kept : w.created ⊆ w'.created
  created : ∀ x ∈ w'.created, x ∈ w.created ∨ (g.drawn = some x.1 ∧ g.user = some x.2)
  streams : ∀ s ∈ w'.streams, (∃ s₀ ∈ w.streams, SameStream s₀ s) ∨
    (g.drawn = some s.id ∧ g.user = some s.userId ∧ s.sessionId ∈ g.known)

section Answer

variable {c : Outside} {a : Request} {r : Answer a}

/-- What is written is a new session of the task's user, or one that was read. -/
theorem setEx_asks {session : VoiceSession} {m : Memory} (h : asks g (.setEx session m)) :
    (m.read = none ∧ g.drawn = some session.id ∧ g.user = some session.userId) ∨
      ∃ r, m.read = some r ∧ g.read = some r ∧ session.id = r.id ∧ session.userId = r.userId ∧
        g.Mine r.userId := h

theorem grows (hasks : asks g a) (h : answer c w a = some (r, w')) : Grows g w w' where
  uuids := uuids_answered h
  kept x hx := by
    obtain hsame | ⟨session, m, -, -, -, hcons⟩ := created_answered h
    · rw [hsame]
      exact hx
    · rw [hcons]
      exact List.mem_cons_of_mem _ hx
  created x hx := by
    obtain hsame | ⟨session, m, rfl, -, hnone, hcons⟩ := created_answered h
    · rw [hsame] at hx
      exact .inl hx
    · rw [hcons] at hx
      rcases List.mem_cons.mp hx with rfl | hx
      · obtain ⟨-, hnew⟩ | ⟨r, hr, -⟩ := setEx_asks hasks
        · exact .inr hnew
        · rw [hnone] at hr
          cases hr
      · exact .inl hx
  streams s hs := by
    obtain hold | ⟨session, rfl, huser⟩ := stream_answered h hs
    · exact .inl hold
    · obtain ⟨hdrawn, hmine, hknown⟩ := hasks
      exact .inr ⟨hdrawn, by rw [huser]; exact hmine, hknown⟩

theorem Grows.unused (h : Grows g w w') {id : Uuid} (hid : Unused w id)
    (hne : g.drawn ≠ some id) : Unused w' id where
  uuid := h.uuids hid.uuid
  created x hx heq := by
    rcases h.created x hx with hx | hx
    · exact hid.created x hx heq
    · exact hne (heq ▸ hx.1)
  streams s hs heq := by
    obtain ⟨s₀, hs₀, hsame⟩ | hnew := h.streams s hs
    · exact hid.streams s₀ hs₀ (hsame.id.symm.trans heq)
    · exact hne (heq ▸ hnew.1)

/-- The other tasks. -/
theorem Grows.fits (h : Grows g w w') {g' : Point} (hfits : Fits w g')
    (hdrawn : ∀ id, g'.drawn = some id → g.drawn ≠ some id)
    (hstream : ∀ id, g'.stream = some id → g.drawn ≠ some id) : Fits w' g' where
  known u hu sessionId hid := h.kept (hfits.known u hu sessionId hid)
  read r hr := h.kept (hfits.read r hr)
  drawn id hid := h.unused (hfits.drawn id hid) (hdrawn id hid)
  stream id hid := by
    obtain ⟨huuid, hmine⟩ := hfits.stream id hid
    refine ⟨h.uuids huuid, fun s hs heq => ?_⟩
    obtain ⟨s₀, hs₀, hsame⟩ | hnew := h.streams s hs
    · rw [hsame.userId]
      exact hmine s₀ hs₀ (hsame.id.symm.trans heq)
    · exact absurd (heq ▸ hnew.1) (hstream id hid)

theorem Grows.single (h : Grows g w w') (howned : Owned w) (hfits : Fits w g) {sessionId : Uuid}
    {u v : String} (hu : (sessionId, u) ∈ w'.created) (hv : (sessionId, v) ∈ w'.created) :
    u = v := by
  rcases h.created _ hu with hu | hu <;> rcases h.created _ hv with hv | hv
  · exact howned.single sessionId u v hu hv
  · exact ((hfits.drawn sessionId hv.1).created (sessionId, u) hu rfl).elim
  · exact ((hfits.drawn sessionId hu.1).created (sessionId, v) hv rfl).elim
  · exact Option.some.inj (hu.2.symm.trans hv.2)

theorem Owned.answered (howned : Owned w) (hfits : Fits w g) (hasks : asks g a)
    (h : answer c w a = some (r, w')) : Owned w' where
  sessions sessionId x hx := by
    have hgrows := grows hasks h
    obtain hold | ⟨session, m, rfl, rfl, hvalue, hnew⟩ := lookup_answered h hx
    · obtain ⟨hid, hcreated⟩ := howned.sessions sessionId x hold
      exact ⟨hid, hgrows.kept hcreated⟩
    · rw [hvalue]
      refine ⟨rfl, ?_⟩
      obtain ⟨hnone, -⟩ | ⟨r, -, hread, hid, huser, -⟩ := setEx_asks hasks
      · exact hnew hnone
      · rw [hid, huser]
        exact hgrows.kept (hfits.read r hread)
  single sessionId u v hu hv := (grows hasks h).single howned hfits hu hv
  uuids x hx := by
    have hgrows := grows hasks h
    rcases hgrows.created x hx with hx | hx
    · exact hgrows.uuids (howned.uuids x hx)
    · exact hgrows.uuids (hfits.drawn _ hx.1).uuid
  streams s hs := by
    have hgrows := grows hasks h
    obtain ⟨s₀, hs₀, hsame⟩ | ⟨hdrawn, huser, hknown⟩ := hgrows.streams s hs
    · rw [hsame.sessionId, hsame.userId, hsame.id]
      exact ⟨hgrows.kept (howned.streams s₀ hs₀).1, hgrows.uuids (howned.streams s₀ hs₀).2⟩
    · exact ⟨hgrows.kept (hfits.known _ huser _ hknown), hgrows.uuids (hfits.drawn _ hdrawn).uuid⟩
  index userId x hx sessionId hid := by
    obtain ⟨y, hy, hmem⟩ | rfl := member_answered h hx hid
    · exact (grows hasks h).kept (howned.index userId y hy sessionId hmem)
    · exact (grows hasks h).kept (hfits.known userId hasks.1 sessionId hasks.2)
  active userId x hx := by
    obtain ⟨y, hy, hvalue⟩ | ⟨seconds, rfl⟩ := active_answered h hx
    · rw [← hvalue]
      exact (grows hasks h).kept (howned.active userId y hy)
    · exact (grows hasks h).kept (hfits.known userId hasks.1 _ hasks.2)

/-- What is told of a session that is read, where the ids are the client's own. -/
theorem session_created (howned : Owned w) {sessionId : Uuid} {m : Memory} {s : VoiceSession}
    (h : answer c w (.get sessionId m) = some (.ok (some s), w')) :
    s.id = sessionId ∧ (sessionId, s.userId) ∈ w.created := by
  obtain ⟨-, h⟩ := answer_cases h
  obtain ⟨e, -, hr, -⟩ | ⟨-, hr, -⟩ := Async.attempt_cases h
  · cases hr
  · obtain ⟨x, hx, -, rfl⟩ := Expiring.read_eq_some.mp (Except.ok.inj hr).symm
    exact howned.sessions sessionId x hx

/-- Nothing is added, and the task's UUID is as it was. -/
theorem Fits.same (h : Fits w g) (hgrows : Grows g w w') (hcreated : w'.created = w.created)
    (hstreams : ∀ s ∈ w'.streams, ∃ s₀ ∈ w.streams, SameStream s₀ s) : Fits w' g where
  known u hu sessionId hid := hgrows.kept (h.known u hu sessionId hid)
  read r hr := hgrows.kept (h.read r hr)
  drawn id hid := by
    have hunused := h.drawn id hid
    refine ⟨hgrows.uuids hunused.uuid, fun x hx => ?_, fun s hs heq => ?_⟩
    · exact hunused.created x (hcreated ▸ hx)
    · obtain ⟨s₀, hs₀, hsame⟩ := hstreams s hs
      exact hunused.streams s₀ hs₀ (hsame.id.symm.trans heq)
  stream id hid := by
    obtain ⟨huuid, hmine⟩ := h.stream id hid
    refine ⟨hgrows.uuids huuid, fun s hs heq => ?_⟩
    obtain ⟨s₀, hs₀, hsame⟩ := hstreams s hs
    rw [hsame.userId]
    exact hmine s₀ hs₀ (hsame.id.symm.trans heq)

/-- The task is told something. -/
theorem Fits.learns (h : Fits w g)
    (hknown : ∀ u, g.user = some u → ∀ sessionId ∈ (g.learn a r).known, sessionId ∈ g.known ∨
      (sessionId, u) ∈ w.created)
    (hread : ∀ s, (g.learn a r).read = some s → g.read = some s ∨ (s.id, s.userId) ∈ w.created)
    (hdrawn : ∀ id, (g.learn a r).drawn = some id → g.drawn = some id ∨ Unused w id)
    (hstream : (g.learn a r).stream = g.stream) : Fits w (next g a r) where
  known u hu sessionId hid := by
    have hu' : g.user = some u := (learn_user g a r).symm.trans hu
    rcases hknown u hu' sessionId hid with hid | hid
    · exact h.known u hu' sessionId hid
    · exact hid
  read s hs := (hread s hs).elim (h.read s) id
  drawn id hid := (hdrawn id hid).elim (h.drawn id) fun h => h
  stream id hid := by
    obtain ⟨huuid, hmine⟩ := h.stream id (hstream.symm.trans hid)
    exact ⟨huuid, fun s hs heq => (learn_user g a r).trans (hmine s hs heq)⟩

theorem Fits.plain (h : Fits w g) (hlearn : g.learn a r = g) : Fits w (next g a r) := by
  refine h.learns ?_ ?_ ?_ (congrArg Point.stream hlearn) <;> rw [hlearn]
  · exact fun _ _ _ hid => .inl hid
  · exact fun _ hs => .inl hs
  · exact fun _ hid => .inl hid

/-- The way of the task itself. -/
theorem Fits.answered (hfits : Fits w g) (howned : Owned w) (hasks : asks g a)
    (htold : told g a r) (h : answer c w a = some (r, w')) : Fits w' (next g a r) := by
  have hgrows := grows hasks h
  have hplain : (∀ session m, a ≠ .setEx session m) → (∀ id session sessionId,
      a ≠ .startStream id session sessionId) → Fits w' g := by
    intro hset hstart
    refine hfits.same hgrows ?_ fun s hs => ?_
    · obtain hsame | ⟨session, m, rfl, -⟩ := created_answered h
      · exact hsame
      · exact absurd rfl (hset session m)
    · obtain hold | ⟨session, rfl, -⟩ := stream_answered h hs
      · exact hold
      · exact absurd rfl (hstart _ _ _)
  cases a with
  | startStream streamId session sessionId =>
    obtain ⟨hdrawn, huser, hknown⟩ := hasks
    have hunused := hfits.drawn streamId hdrawn
    refine ⟨fun u hu id hid => hgrows.kept (hfits.known u hu id hid),
      fun r hr => hgrows.kept (hfits.read r hr), fun _ => nofun, fun id hid => ?_⟩
    cases hid
    refine ⟨hgrows.uuids hunused.uuid, fun s hs heq => ?_⟩
    obtain ⟨s₀, hs₀, hsame⟩ | hnew := hgrows.streams s hs
    · exact (hunused.streams s₀ hs₀ (hsame.id.symm.trans heq)).elim
    · exact hnew.2.1
  | setEx session m =>
    obtain ⟨-, hx⟩ := answer_cases h
    obtain ⟨e, -, rfl, rfl⟩ | ⟨-, rfl, rfl⟩ := Async.attempt_cases hx
    · exact (hfits.same hgrows rfl fun s hs => ⟨s, hs, rfl, rfl, rfl⟩).plain rfl
    · by_cases hnone : m.read = none
      · obtain ⟨-, hdrawn, huser⟩ | ⟨r, hr, -⟩ := setEx_asks hasks
        · have hlearn : g.learn (.setEx session m) (.ok ()) =
              { g with known := session.id :: g.known, drawn := none } := if_pos hnone
          unfold next
          rw [hlearn]
          refine ⟨fun u hu id hid => ?_, fun r hr => hgrows.kept (hfits.read r hr),
            fun _ => nofun, fun id hid => ?_⟩
          · rcases List.mem_cons.mp hid with rfl | hid
            · cases huser.symm.trans hu
              show _ ∈ if m.read = none then _ else _
              rw [if_pos hnone]
              exact List.mem_cons_self
            · exact hgrows.kept (hfits.known u hu id hid)
          · exact hfits.stream id hid
        · rw [hnone] at hr
          cases hr
      · refine Fits.plain ?_ (if_neg hnone)
        exact hfits.same hgrows (if_neg hnone) fun s hs => ⟨s, hs, rfl, rfl, rfl⟩
  | get sessionId m =>
    have hthis := hplain (fun _ _ => nofun) fun _ _ _ => nofun
    match r with
    | .error _ | .ok none => exact hthis.plain rfl
    | .ok (some s) =>
      obtain ⟨rfl, hcreated⟩ := session_created howned h
      refine hthis.learns (fun u hu id hid => ?_) (fun r hr => ?_) (fun _ hid => .inl hid) rfl
      · have hid' : id ∈ if g.user = some s.userId then s.id :: g.known else g.known := hid
        split at hid'
        · next huser =>
          rcases List.mem_cons.mp hid' with rfl | hid'
          · cases huser.symm.trans hu
            exact .inr (hgrows.kept hcreated)
          · exact .inl hid'
        · exact .inl hid'
      · cases hr
        exact .inr (hgrows.kept hcreated)
  | sMembers userId m =>
    have hthis := hplain (fun _ _ => nofun) fun _ _ _ => nofun
    obtain ⟨-, hx⟩ := answer_cases h
    obtain ⟨e, -, rfl, rfl⟩ | ⟨-, rfl, rfl⟩ := Async.attempt_cases hx
    · exact hthis.plain rfl
    · refine hthis.learns (fun u hu id hid => ?_) (fun _ hr => .inl hr) (fun _ hid => .inl hid) rfl
      rcases List.mem_append.mp hid with hid | hid
      · cases Option.some.inj (htold.symm.trans hu)
        obtain ⟨x, hx, hmem⟩ := mem_members (w := w.tick c.now) hid
        exact .inr (howned.index userId x hx id hmem)
      · exact .inl hid
  | getActive userId =>
    have hthis := hplain (fun _ _ => nofun) fun _ _ _ => nofun
    obtain ⟨-, hx⟩ := answer_cases h
    obtain ⟨e, -, rfl, rfl⟩ | ⟨-, rfl, rfl⟩ := Async.attempt_cases hx
    · exact hthis.plain rfl
    · cases hactive : (w.tick c.now).active userId with
      | none => exact hthis.plain rfl
      | some sessionId =>
        refine hthis.learns (fun u hu id hid => ?_) (fun _ hr => .inl hr) (fun _ hid => .inl hid) rfl
        rcases List.mem_cons.mp hid with rfl | hid
        · cases hasks u hu
          obtain ⟨x, hx, -, rfl⟩ := Expiring.read_eq_some.mp hactive
          exact .inr (howned.active userId x hx)
        · exact .inl hid
  | randomUUID =>
    have hthis := hplain (fun _ _ => nofun) fun _ _ _ => nofun
    refine hthis.learns (fun _ _ _ hid => .inl hid) (fun _ hr => .inl hr) (fun id hid => ?_) rfl
    have hid' : g.drawn.or (some r) = some id := hid
    cases hdrawn : g.drawn with
    | some _ =>
      rw [hdrawn] at hid'
      exact .inl hid'
    | none =>
      rw [hdrawn] at hid'
      cases hid'
      -- a session or a stream with this UUID would have been known
      obtain ⟨hnew, huuid⟩ := uuid_answered h
      refine .inr ⟨huuid, fun x hx heq => ?_, fun s hs heq => ?_⟩
      · obtain hsame | ⟨session, m, hcase, -⟩ := created_answered h
        · exact hnew (heq ▸ howned.uuids x (hsame ▸ hx))
        · cases hcase
      · rw [(frame_answered h).streams fun h => h] at hs
        exact hnew (heq ▸ (howned.streams s hs).2)
  | _ => exact (hplain (fun _ _ => nofun) fun _ _ _ => nofun).plain rfl

/-- A UUID is drawn anew. -/
theorem next_drawn (h : answer c w a = some (r, w')) {id : Uuid}
    (hid : (next g a r).drawn = some id) : g.drawn = some id ∨ id ∉ w.uuids := by
  have hid' : (g.learn a r).drawn = some id := hid
  unfold Point.learn at hid'
  split at hid'
  · exact .inl hid'
  · exact .inl hid'
  · exact .inl hid'
  · rcases Option.or_eq_some_iff.mp hid' with hid' | ⟨-, hid'⟩
    · exact .inl hid'
    · cases hid'
      exact .inr (uuid_answered h).1
  · split at hid'
    · cases hid'
    · exact .inl hid'
  · cases hid'
  · exact .inl hid'

/-- A stream has the UUID that was drawn. -/
theorem next_stream (hasks : asks g a) {id : Uuid} (hid : (next g a r).stream = some id) :
    g.stream = some id ∨ (g.drawn = some id ∧ (next g a r).drawn = none) := by
  have hid' : (g.learn a r).stream = some id := hid
  unfold Point.learn at hid'
  split at hid'
  · exact .inl hid'
  · exact .inl hid'
  · exact .inl hid'
  · exact .inl hid'
  · split at hid' <;> exact .inl hid'
  · cases hid'
    exact .inr ⟨hasks.1, rfl⟩
  · exact .inl hid'

/-- **An answer keeps the books.** -/
theorem Books.answered (h : Books w gs) {i : Nat} (hg : gs[i]? = some g) (hasks : asks g a)
    (htold : told g a r) (hx : answer c w a = some (r, w')) :
    Books w' (gs.set i (next g a r)) where
  owned := h.owned.answered (h.fits g (List.mem_of_getElem? hg)) hasks hx
  fits k hk := by
    have hmem := List.mem_of_getElem? hg
    rcases Async.of_mem_set hg hk with rfl | ⟨j, hj, hk⟩
    · exact (h.fits g hmem).answered h.owned hasks htold hx
    · have hkmem := List.mem_of_getElem? hk
      refine (grows hasks hx).fits (h.fits k hkmem) (fun id hid hthis => ?_) fun id hid hthis => ?_
      · exact hj (h.drawn j i k g id hk hg hid hthis)
      · exact h.stream g hmem k hkmem id hthis hid
  drawn := h.drawn.set hg fun id hid => by
    refine (next_drawn hx hid).imp_right fun hnew x hx hthis => ?_
    exact hnew ((h.fits x hx).drawn id hthis).uuid
  stream k hk k' hk' id hid hthis := by
    have hmem := List.mem_of_getElem? hg
    rcases Async.of_mem_set hg hk with rfl | ⟨j, hj, hk⟩
    · have hold : ∀ x ∈ gs, x.stream ≠ some id := by
        intro x hxmem hx'
        rcases next_drawn hx hid with hid | hnew
        · exact h.stream g hmem x hxmem id hid hx'
        · exact hnew ((h.fits x hxmem).stream id hx').1
      rcases Async.of_mem_set hg hk' with rfl | ⟨j, -, hk'⟩
      · rcases next_stream hasks hthis with hthis | ⟨-, hnone⟩
        · exact hold g hmem hthis
        · rw [hnone] at hid
          cases hid
      · exact hold k' (List.mem_of_getElem? hk') hthis
    · have hkmem := List.mem_of_getElem? hk
      rcases Async.of_mem_set hg hk' with rfl | ⟨j', -, hk'⟩
      · rcases next_stream hasks hthis with hthis | ⟨hdrawn, -⟩
        · exact h.stream k hkmem g hmem id hid hthis
        · exact hj (h.drawn j i k g id hk hg hid hdrawn)
      · exact h.stream k hkmem k' (List.mem_of_getElem? hk') id hid hthis

end Answer

end Isolation

end Stellara.Voice
