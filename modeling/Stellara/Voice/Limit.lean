import Stellara.Voice.Rules

/-!
# The limit of sessions

A session is created when the user has fewer than three, by the index and the reads of what it
lists.  What comes between the reads and the write, and what the index leaves out, is not counted:

    createSession:    sMembers                setEx            both have counted
    createSession:             sMembers             setEx      the same sessions

    index:       sAdd ─────────────── expires ─────────────
    session:     setEx ─── setEx ────── setEx ───── setEx ─    kept alive, and not listed

If every listing of a user's sessions is complete, no session of the user is created between it
and the write, and none that has gone is written back, no user has more than three sessions at any
time (`sessions_within_limit`).
-/

namespace Stellara.Voice

open Block VoiceSessionService
open Async (Answered obeying Apart)

/-- The user has at most three sessions that are stored and have not expired. -/
def World.WithinLimit (w : World) : Prop :=
  ∀ (userId : String) (ids : List Uuid), ids.Nodup →
    (∀ id ∈ ids, ∃ s ∈ w.session id, s.userId = userId) → ids.length ≤ MAX_SESSIONS_PER_USER

/-- The index lists all sessions of the user. -/
def World.Listed (w : World) (userId : String) : Prop :=
  ∀ key ∈ w.sessions.keys, ∀ s ∈ w.session key, s.userId = userId → key ∈ w.members userId

instance (w : World) (userId : String) : Decidable (w.Listed userId) :=
  inferInstanceAs (Decidable (∀ _ ∈ _, _))

/-- A listing is complete and what it lists is read; a new session is written when none has been
created for its user since, and another one while it is stored. -/
def Exclusive (c : Outside) (w : World) : Request → Prop
  | .sMembers userId _ => c.rejects = none ∧ w.Listed userId
  | .get _ m => m.created ≠ none → c.rejects = none
  | .setEx session m =>
    if m.read = none then m.created = some (w.createdFor session.userId)
    else (w.session session.id).isSome
  | _ => True

instance (c : Outside) (w : World) : DecidablePred (Exclusive c w) := fun a => by
  induction a using Request.casesOn <;> unfold Exclusive <;> infer_instance

abbrev StepExclusive (e : Event Outside (Async.Move Operation) Unit System) : Prop :=
  Async.Meets (fun (c : Outside) (w : World) => Exclusive c (w.tick c.now)) e

namespace Limit

/-! ## The way of a call -/

/-- A user's sessions are being listed: those found, and the ids to be read. -/
structure Listing where
  userId : String
  created : Nat
  found : List Uuid
  rest : List Uuid

/-- The next id has been read, and is there or not. -/
def Listing.step (l : Listing) (isThere : Bool) : Listing :=
  { l with rest := l.rest.tail
           found := if isThere then l.rest.take 1 ++ l.found else l.found }

/-- The session that was read last, the UUID that was drawn and is not yet the id of a session, and
the listing. -/
structure Point where
  read : Option VoiceSession := none
  drawn : Option Uuid := none
  listing : Option Listing := none

/-- A new session may be written. -/
structure Point.Admits (g : Point) (session : VoiceSession) (m : Memory) : Prop where
  drawn : g.drawn = some session.id
  listed : ∃ l, g.listing = some l ∧ l.userId = session.userId ∧ l.rest = [] ∧
    l.found.length < MAX_SESSIONS_PER_USER ∧ m.created = some l.created

def asks (g : Point) : Request → Prop
  | .get sessionId m => ∀ l, g.listing = some l → m.created ≠ none ∧ ∃ ids, l.rest = sessionId :: ids
  | .setEx session m => 0 < session.ttl ∧
    ((m.read = none ∧ g.Admits session m) ∨
      ∃ r, m.read = some r ∧ g.read = some r ∧ session.id = r.id ∧ session.userId = r.userId)
  | _ => True

def told (g : Point) : (a : Request) → Answer a → Prop
  | .get sessionId _, r => (∀ e, (r : Except String (Option VoiceSession)) = .error e →
      g.listing = none) ∧
    ∀ s, (r : Except String (Option VoiceSession)) = .ok (some s) → s.id = sessionId ∧ 0 < s.ttl
  | .sMembers _ _, r => ∃ x, r = .ok x
  | _, _ => True

def next (g : Point) : (a : Request) → Answer a → Point
  | .get _ _, .ok x => { g with read := x, listing := g.listing.map (·.step x.isSome) }
  | .sMembers userId _, .ok (ids, created) => { g with listing := some ⟨userId, created, [], ids⟩ }
  | .randomUUID, id => { g with drawn := some id }
  | .setEx _ _, .ok () => { g with drawn := none, listing := none }
  | _, _ => g

abbrev protocol : Protocol Request Answer Point := ⟨asks, told, next⟩

section Programs

variable {α : Type} {m : Memory} {g : Point}

theorem now_obeys {Q : Int → Memory → Point → Prop} {E : String → Memory → Point → Prop}
    (h : ∀ n, Q n m g) : wp (obeying protocol) now Q E m g :=
  ⟨trivial, fun n _ => h n⟩

theorem getSession_obeys {sessionId : Uuid} {Q : Option VoiceSession → Memory → Point → Prop}
    {E : String → Memory → Point → Prop} (hasks : asks g (.get sessionId m))
    (herror : g.listing = none → Q none { m with read := none } g)
    (hok : ∀ x, (∀ s ∈ x, s.id = sessionId ∧ 0 < s.ttl) → Q x { m with read := x }
      { g with read := x, listing := g.listing.map (·.step x.isSome) }) :
    wp (obeying protocol) (getSession sessionId) Q E m g := by
  unfold getSession
  rw [wp_tryCatch]
  refine ⟨hasks, fun r hr => ?_⟩
  match r, hr with
  | .error e, hr => exact herror (hr.1 e rfl)
  | .ok x, hr => exact hok x fun s hs => hr.2 s (by rw [hs])

theorem saveSession_obeys {session : VoiceSession} {Q : Unit → Memory → Point → Prop}
    {E : String → Memory → Point → Prop} (hasks : asks g (.setEx session m))
    (hok : Q () m { g with drawn := none, listing := none }) (herror : ∀ e, E e m g) :
    wp (obeying protocol) (saveSession session) Q E m g := by
  refine ⟨hasks, fun r _ => ?_⟩
  match r with
  | .error e => exact herror e
  | .ok () => exact hok

/-- Nothing is being listed. -/
abbrev Safe (block : On α) : Prop :=
  Preserves (obeying protocol) (fun _ (g : Point) => g.listing = none)
    (fun _ (g : Point) => g.listing = none) block

theorem rules : SessionRules (obeying protocol) (fun _ _ g => g.listing = none)
    (fun _ _ g => g.listing = none)
    (fun s m g => g.listing = none ∧ m.read = some s ∧ g.read = some s ∧ 0 < s.ttl)
    (fun _ _ g => g.listing = none) where
  of_held hheld := hheld.1
  at_of h := h
  draw ha hheld := by
    rcases ha with rfl | rfl <;> exact ⟨trivial, fun _ _ => hheld⟩
  get {sessionId m g} hg := by
    refine ⟨fun l hl => ?_, fun r hr => ?_⟩
    · rw [show g.listing = none from hg] at hl
      cases hl
    · have hnone : ∀ x : Option VoiceSession, g.listing.map (·.step x.isSome) = none := by
        rw [show g.listing = none from hg]
        exact fun _ => rfl
      match r, hr with
      | .error _, _ => exact hg
      | .ok none, _ => exact hnone none
      | .ok (some s), hr =>
        obtain ⟨hid, httl⟩ := hr.2 s rfl
        exact ⟨hid, hnone (some s), rfl, rfl, httl⟩
  save {r session m g} hheld hfollows := by
    obtain ⟨hg, hm, hr, httl⟩ := hheld
    refine ⟨⟨hfollows.ttl ▸ httl, .inr ⟨r, hm, hr, hfollows.id, hfollows.userId⟩⟩, fun x _ => ?_⟩
    match x with
    | .error _ => exact hg
    | .ok () => rfl
  remove hheld := ⟨trivial, fun _ _ => hheld.1⟩
  index {a s m g} ha hg := by
    cases a with
    | sRem | getActive | delActive =>
      exact ⟨trivial, fun _ _ => hg⟩
    | _ => exact ha.elim

theorem add (r session : VoiceSession) (m : Memory) (g : Point)
    (hheld : g.listing = none ∧ m.read = some r ∧ g.read = some r ∧ 0 < r.ttl)
    (hextends : Extends m r session) : (obeying protocol).pre (.setEx session m)
      (fun x g' => Written (fun _ g => g.listing = none) (fun _ g => g.listing = none) m x g') g := by
  obtain ⟨hg, hm, hr, httl⟩ := hheld
  refine ⟨⟨hextends.ttl ▸ httl, .inr ⟨r, hm, hr, hextends.id, hextends.userId⟩⟩, fun x _ => ?_⟩
  match x with
  | .error _ => exact hg
  | .ok () => rfl

theorem addUserSession_safe {userId : String} {sessionId : Uuid} :
    Safe (addUserSession userId sessionId) :=
  .bind (.request (fun _ _ h => h) fun _ _ hg => ⟨trivial, fun _ _ => hg⟩) fun _ =>
    .request (fun _ _ h => h) fun _ _ hg => ⟨trivial, fun _ _ => hg⟩

theorem cleanupWhere_safe {due : Int → VoiceSession → Bool} : Safe (cleanupWhere due) := by
  refine rules.cleanupWhere_preserves (fun _ _ _ => Iff.rfl) fun a m g ha hg => ?_
  rcases ha with rfl | rfl <;> exact ⟨trivial, fun _ _ => hg⟩

theorem cleanupStaleSessions_safe : Safe cleanupStaleSessions := cleanupWhere_safe

theorem cleanupExpiredSessions_safe : Safe cleanupExpiredSessions := cleanupWhere_safe

/-- The sessions that are counted are those found. -/
theorem getSessions_obeys {userId : String} {created : Nat} (ids : List Uuid) :
    ∀ found m g, g.listing = some ⟨userId, created, found, ids⟩ → m.created = some created →
      wp (obeying protocol) (getSessions ids)
        (fun sessions m g => m.created = some created ∧ ∃ found', g.listing =
          some ⟨userId, created, found', []⟩ ∧ found'.length = found.length + sessions.length)
        (fun _ _ _ => False) m g := by
  induction ids with
  | nil => exact fun found m g hg hm => ⟨hm, found, hg, rfl⟩
  | cons id ids ih =>
    intro found m g hg hm
    unfold getSessions
    rw [wp_bind]
    refine getSession_obeys (fun l hl => ?_) (fun hnone => ?_) fun x hx => ?_
    · rw [hg] at hl
      cases hl
      exact ⟨by rw [hm]; exact nofun, ids, rfl⟩
    · rw [hg] at hnone
      cases hnone
    · rw [wp_bind]
      have hstep : g.listing.map (·.step x.isSome) =
          some ⟨userId, created, if x.isSome then id :: found else found, ids⟩ := by
        rw [hg]
        rfl
      refine wp_mono ?_ (fun _ _ _ h => h) (ih _ _ _ hstep hm)
      rintro sessions m' g' ⟨hm', found', hg', hlength⟩
      refine ⟨hm', found', hg', ?_⟩
      rw [hlength, List.length_append]
      cases x with
      | none => exact (Nat.zero_add _).symm ▸ rfl
      | some s => simp only [Option.isSome_some, if_true, List.length_cons, Option.toList_some,
          List.length_nil]; omega

/-- A session is created when fewer than three of the user have been found. -/
theorem createSession_obeys {userId : String} {context : FeatureContext}
    {walletAddress metadata : Option String} :
    wp (obeying protocol) (createSession userId context walletAddress metadata)
      (fun _ _ _ => True) (fun _ _ _ => True) m g := by
  unfold createSession getUserActiveSessions
  rw [wp_bind, wp_tryCatch, wp_bind]
  refine ⟨trivial, fun r hr => ?_⟩
  obtain ⟨⟨ids, created⟩, rfl⟩ := hr
  show wp (obeying protocol) (getSessions ids) _ _ { m with created := some created }
    { g with listing := some ⟨userId, created, [], ids⟩ }
  refine wp_mono ?_ (fun _ _ _ h => h.elim) (getSessions_obeys ids [] _ _ rfl rfl)
  rintro sessions m' g' ⟨hm', found, hg', hlength⟩
  split
  · trivial
  · next hfew =>
    unfold VoiceSession.create
    rw [wp_bind, wp_bind]
    refine now_obeys fun now => ?_
    rw [wp_bind]
    refine ⟨trivial, fun id _ => ?_⟩
    show wp (obeying protocol) (saveSession _ >>= fun _ => addUserSession _ _ >>= fun _ => pure _) _ _
      { m' with read := none } { g' with drawn := some id }
    rw [wp_bind]
    have httl : (0 : Int) < 3600 := by decide
    have hfound : found.length < MAX_SESSIONS_PER_USER := by
      rw [hlength, List.length_nil]
      omega
    refine saveSession_obeys
      ⟨httl, .inl ⟨rfl, rfl, _, hg', rfl, rfl, hfound, hm'⟩⟩ ?_ fun _ => trivial
    refine wp_mono (fun _ _ _ _ => trivial) (fun _ _ _ _ => trivial)
      (addUserSession_safe.bind (fun _ => .pure) _ _ rfl)

theorem ends_of_safe {block : On α} {f : α → Reply} (h : Safe block) (hg : g.listing = none) :
    wp (obeying protocol) (block >>= fun x => Pure.pure (f x)) (fun _ _ _ => True)
      (fun _ _ _ => True) m g := by
  rw [wp_bind]
  exact wp_mono (fun _ _ _ _ => trivial) (fun _ _ _ _ => trivial) (h m g hg)

theorem block_obeys (op : Operation) :
    wp (obeying protocol) op.block (fun _ _ _ => True) (fun _ _ _ => True) m {} := by
  cases op with
  | createSession =>
    unfold Operation.block
    rw [wp_bind]
    exact createSession_obeys
  | addMessage => exact ends_of_safe (rules.addMessage_preserves fun r x m g _ => add r x m g) rfl
  | updateSessionState => exact ends_of_safe rules.updateSessionState_preserves rfl
  | interruptSession => exact ends_of_safe rules.interruptSession_preserves rfl
  | resumeSession => exact ends_of_safe rules.resumeSession_preserves rfl
  | terminateSession => exact ends_of_safe rules.terminateSession_preserves rfl
  | updateSessionSocket => exact ends_of_safe rules.updateSessionSocket_preserves rfl
  | updateLastPingAt => exact ends_of_safe rules.updateLastPingAt_preserves rfl
  | cleanupStaleSessions => exact ends_of_safe cleanupStaleSessions_safe rfl
  | cleanupExpiredSessions => exact ends_of_safe cleanupExpiredSessions_safe rfl

theorem program_obeys (op : Operation) :
    Async.wp (obeying protocol) op.program (fun _ _ => True) {} := by
  have hblock := block_obeys (m := {}) op
  refine wp_program.mpr (wp_call.mpr (wp_mono ?_ ?_ hblock))
  · exact fun _ _ _ _ => trivial
  · exact fun _ _ _ _ => trivial

end Programs

/-! ## The invariant -/

/-- Unless a session has been created for the user since, all that the user has are listed. -/
structure Listing.Covers (l : Listing) (w : World) : Prop where
  created : l.created ≤ w.createdFor l.userId
  listed : w.createdFor l.userId = l.created →
    ∀ id s, w.session id = some s → s.userId = l.userId → id ∈ l.found ∨ id ∈ l.rest

structure Books (w : World) (gs : List Point) : Prop where
  sound : ∀ id s, w.session id = some s → s.id = id ∧ 0 < s.ttl ∧ (id, s.userId) ∈ w.created
  unique : ∀ id userId userId', (id, userId) ∈ w.created → (id, userId') ∈ w.created →
    userId = userId'
  known : ∀ id userId, (id, userId) ∈ w.created → id ∈ w.uuids
  drawn : ∀ g ∈ gs, ∀ id, g.drawn = some id → id ∈ w.uuids ∧ ∀ userId, (id, userId) ∉ w.created
  apart : Apart Point.drawn gs
  read : ∀ g ∈ gs, ∀ r, g.read = some r → (r.id, r.userId) ∈ w.created
  limit : w.WithinLimit
  listing : ∀ g ∈ gs, ∀ l, g.listing = some l → l.Covers w

theorem books_init : Books {} [] where
  sound _ _ h := by cases h
  unique _ _ _ h := by cases h
  known _ _ h := by cases h
  drawn _ h := by cases h
  apart := .nil
  read _ h := by cases h
  limit userId ids _ hlive := by
    cases ids with
    | nil => exact Nat.zero_le _
    | cons id ids =>
      obtain ⟨s, hs, -⟩ := hlive id List.mem_cons_self
      cases hs
  listing _ h := by cases h

variable {w w' : World} {gs : List Point}

theorem Books.start (h : Books w gs) : Books w (gs ++ [({} : Point)]) := by
  have hmem : ∀ g ∈ gs ++ [({} : Point)], g ∈ gs ∨ g = {} := by
    intro g hg
    rcases List.mem_append.mp hg with hg | hg
    · exact .inl hg
    · exact .inr (List.mem_singleton.mp hg)
  refine ⟨h.sound, h.unique, h.known, ?_, h.apart.append rfl, ?_, h.limit, ?_⟩
  · intro g hg id hid
    rcases hmem g hg with hg | rfl
    · exact h.drawn g hg id hid
    · cases hid
  · intro g hg r hr
    rcases hmem g hg with hg | rfl
    · exact h.read g hg r hr
    · cases hr
  · intro g hg l hl
    rcases hmem g hg with hg | rfl
    · exact h.listing g hg l hl
    · cases hl

/-- Every session there is was there, and nothing has been created. -/
structure Shrunk (w w' : World) : Prop where
  created : w'.created = w.created
  sessions : ∀ id s', w'.session id = some s' →
    s'.id = id ∧ 0 < s'.ttl ∧ ∃ s, w.session id = some s ∧ s.userId = s'.userId

theorem within_of_shrunk (h : w.WithinLimit) (hshrunk : Shrunk w w') : w'.WithinLimit := by
  intro userId ids hnodup hlive
  refine h userId ids hnodup fun id hid => ?_
  obtain ⟨s', hs', huser⟩ := hlive id hid
  obtain ⟨-, -, s, hs, hsame⟩ := hshrunk.sessions id s' hs'
  exact ⟨s, hs, hsame.trans huser⟩

theorem createdFor_congr (h : w'.created = w.created) (userId : String) :
    w'.createdFor userId = w.createdFor userId := by
  unfold World.createdFor
  rw [h]

theorem createdFor_cons {id : Uuid} {owner : String} (h : w'.created = (id, owner) :: w.created)
    (userId : String) :
    w'.createdFor userId = w.createdFor userId + if owner = userId then 1 else 0 := by
  unfold World.createdFor
  rw [h, List.countP_cons]
  by_cases howner : owner = userId <;> simp only [howner, decide_true, decide_false, if_true,
    if_false, Bool.false_eq_true]

theorem Listing.Covers.of_shrunk {l : Listing} (h : l.Covers w) (hshrunk : Shrunk w w') :
    l.Covers w' := by
  have hsame := createdFor_congr hshrunk.created l.userId
  refine ⟨hsame ▸ h.created, fun hcreated id s' hs' huser => ?_⟩
  obtain ⟨-, -, s, hs, howner⟩ := hshrunk.sessions id s' hs'
  exact h.listed (hsame ▸ hcreated) id s hs (howner.trans huser)

/-- A session is created, under an id that no session has had. -/
structure Created (w w' : World) (session : VoiceSession) : Prop where
  created : w'.created = (session.id, session.userId) :: w.created
  sessions : ∀ id s, w'.session id = some s →
    (id = session.id ∧ s = session) ∨ w.session id = some s

theorem Listing.Covers.of_created {l : Listing} {session : VoiceSession} (h : l.Covers w)
    (hcreated : Created w w' session) : l.Covers w' := by
  have hcount := createdFor_cons hcreated.created l.userId
  have hle := h.created
  refine ⟨by omega, fun hsame id s hs huser => ?_⟩
  have hother : session.userId ≠ l.userId := by
    intro howner
    rw [if_pos howner] at hcount
    omega
  rw [if_neg hother] at hcount
  rcases hcreated.sessions id s hs with ⟨-, rfl⟩ | hold
  · exact absurd huser hother
  · exact h.listed (by omega) id s hold huser

/-- **A session more**: with fewer than three found there are at most three. -/
theorem within_of_created {l : Listing} {session : VoiceSession} (h : w.WithinLimit)
    (hcreated : Created w w' session) (hcovers : l.Covers w) (huser : l.userId = session.userId)
    (hrest : l.rest = []) (hfew : l.found.length < MAX_SESSIONS_PER_USER)
    (hnone : w.createdFor l.userId = l.created) : w'.WithinLimit := by
  intro userId ids hnodup hlive
  by_cases hthis : session.userId = userId
  · have hsub : ids ⊆ session.id :: l.found := by
      intro id hid
      obtain ⟨s, hs, howner⟩ := hlive id hid
      rcases hcreated.sessions id s hs with ⟨rfl, -⟩ | hold
      · exact List.mem_cons_self
      · rcases hcovers.listed hnone id s hold (by rw [howner, huser, hthis]) with hfound | hmore
        · exact List.mem_cons_of_mem _ hfound
        · rw [hrest] at hmore
          cases hmore
    have hlength := hnodup.length_le_of_subset hsub
    rw [List.length_cons] at hlength
    omega
  · refine h userId ids hnodup fun id hid => ?_
    obtain ⟨s, hs, howner⟩ := hlive id hid
    rcases hcreated.sessions id s hs with ⟨-, rfl⟩ | hold
    · exact absurd howner hthis
    · exact ⟨s, hold, howner⟩

/-! ### One answer -/

section Step

variable {c : Outside} {a : Request} {r : Answer a} {g : Point}

/-- An answer leaves, changes or removes what is there, or a session is created. -/
theorem Books.moved (h : Books w gs) (hmem : g ∈ gs) (hasks : asks g a)
    (hexclusive : Exclusive c (w.tick c.now) a) (hx : answer c w a = some (r, w')) :
    Shrunk w w' ∨ ∃ session m, a = .setEx session m ∧ HEq r (Except.ok () : Except String Unit) ∧
      0 < session.ttl ∧ g.Admits session m ∧ m.created = some (w.createdFor session.userId) ∧
      Created w w' session := by
  have hle := (answer_cases hx).1
  obtain hcase | ⟨session, m, rfl, hr, rfl⟩ | ⟨key, rfl, rfl⟩ := sessions_answered hx
  · refine .inl ⟨hcase.created, fun id s hs => ?_⟩
    rw [hcase.session] at hs
    have hold := session_of_tick hle hs
    obtain ⟨hid, httl, -⟩ := h.sound id s hold
    exact ⟨hid, httl, s, hold, rfl⟩
  · obtain ⟨httl, hwrites⟩ := hasks
    rcases hwrites with ⟨hnew, hadmits⟩ | ⟨x, hread, hthis, hid, huser⟩
    · refine .inr ⟨session, m, rfl, hr, httl, hadmits, ?_, ?_⟩
      · dsimp only [Exclusive] at hexclusive
        rw [if_pos hnew] at hexclusive
        exact hexclusive
      · refine ⟨if_pos hnew, fun id s hs => ?_⟩
        rw [session_save httl] at hs
        split at hs
        · next heq =>
          cases hs
          exact .inl ⟨heq, rfl⟩
        · exact .inr (session_of_tick hle hs)
    · have hne : m.read ≠ none := by
        rw [hread]
        exact nofun
      refine .inl ⟨if_neg hne, fun id s hs => ?_⟩
      rw [session_save httl] at hs
      split at hs
      · next heq =>
        cases hs
        -- what is written over is stored, and so has the same user
        dsimp only [Exclusive] at hexclusive
        rw [if_neg hne] at hexclusive
        obtain ⟨old, hold⟩ := Option.isSome_iff_exists.mp hexclusive
        have hold := session_of_tick hle hold
        obtain ⟨-, -, hknown⟩ := h.sound _ old hold
        have hreader := h.read g hmem x hthis
        rw [← hid, ← huser] at hreader
        exact ⟨heq.symm, httl, old, heq ▸ hold, h.unique _ _ _ hknown hreader⟩
      · have hold := session_of_tick hle hs
        obtain ⟨hid, httl, -⟩ := h.sound id s hold
        exact ⟨hid, httl, s, hold, rfl⟩
  · refine .inl ⟨rfl, fun id s hs => ?_⟩
    rw [session_remove] at hs
    split at hs
    · cases hs
    · have hold := session_of_tick hle hs
      obtain ⟨hid, httl, -⟩ := h.sound id s hold
      exact ⟨hid, httl, s, hold, rfl⟩

theorem Books.listing_answered (h : Books w gs) (hmem : g ∈ gs) (hasks : asks g a)
    (hexclusive : Exclusive c (w.tick c.now) a) (hx : answer c w a = some (r, w'))
    (hshrunk : Shrunk w w') {l : Listing} (hl : (next g a r).listing = some l) : l.Covers w' := by
  have hle := (answer_cases hx).1
  have hold : g.listing = some l → l.Covers w' := fun hl => (h.listing g hmem l hl).of_shrunk hshrunk
  cases a with
  | get sessionId m =>
    match r, hl, hx with
    | .error _, hl, _ => exact hold hl
    | .ok x, hl, hx =>
      obtain ⟨l, hthis, rfl⟩ := Option.map_eq_some_iff.mp hl
      have hcovers := (h.listing g hmem l hthis).of_shrunk hshrunk
      obtain ⟨-, ids, hrest⟩ := hasks l hthis
      refine ⟨hcovers.created, fun hcreated id s hs huser => ?_⟩
      obtain ⟨-, hx⟩ := answer_cases hx
      obtain ⟨e, -, hr, -⟩ | ⟨-, hr, rfl⟩ := Async.attempt_cases hx
      · cases hr
      · have hread := Except.ok.inj hr
        show id ∈ (if x.isSome then l.rest.take 1 ++ l.found else l.found) ∨ id ∈ l.rest.tail
        rw [hrest]
        rcases hcovers.listed hcreated id s hs huser with hfound | hmore
        · refine .inl ?_
          split
          · exact List.mem_append_right _ hfound
          · exact hfound
        · rw [hrest] at hmore
          rcases List.mem_cons.mp hmore with rfl | hmore
          · -- a session that is there is found
            rw [hread, hs]
            exact .inl List.mem_cons_self
          · exact .inr hmore
  | sMembers userId m =>
    match r, hl, hx with
    | .error _, hl, _ => exact hold hl
    | .ok (ids, created), hl, hx =>
      cases hl
      obtain ⟨-, hx⟩ := answer_cases hx
      obtain ⟨e, -, hr, -⟩ | ⟨-, hr, rfl⟩ := Async.attempt_cases hx
      · cases hr
      · cases hr
        refine ⟨Nat.le_refl _, fun _ id s hs huser => .inr ?_⟩
        have hkey : id ∈ (w.tick c.now).sessions.keys := by
          obtain ⟨x, hstored, -⟩ := Expiring.read_eq_some.mp hs
          exact AList.mem_keys.mpr (AList.lookup_isSome.mp (by rw [hstored]; rfl))
        exact hexclusive.2 id hkey s hs huser
  | setEx session m =>
    match r, hl with
    | .error _, hl => exact hold hl
    | .ok (), hl => cases hl
  | _ => exact hold hl

/-- A point has the UUID that it had, or a new one, and nothing has been created. -/
theorem drawn_answered (hx : answer c w a = some (r, w')) {id : Uuid}
    (hid : (next g a r).drawn = some id) :
    (g.drawn = some id ∨ id ∉ w.uuids ∧ id ∈ w'.uuids) ∧ w'.created = w.created := by
  obtain hcreated | ⟨session, m, rfl, hr, -, -⟩ := created_answered hx
  · refine ⟨?_, hcreated⟩
    cases a with
    | randomUUID =>
      cases hid
      exact .inr (uuid_answered hx)
    | setEx session m =>
      match r, hid with
      | .ok (), hid => cases hid
      | .error e, hid => exact .inl hid
    | get sessionId m =>
      match r, hid with
      | .ok _, hid => exact .inl hid
      | .error _, hid => exact .inl hid
    | sMembers userId m =>
      match r, hid with
      | .ok (_, _), hid => exact .inl hid
      | .error _, hid => exact .inl hid
    | _ => exact .inl hid
  · cases eq_of_heq hr
    cases hid

theorem Books.read_answered (h : Books w gs) (hmem : g ∈ gs) (hx : answer c w a = some (r, w'))
    {x : VoiceSession} (hread : (next g a r).read = some x) : (x.id, x.userId) ∈ w.created := by
  have hold : g.read = some x → (x.id, x.userId) ∈ w.created := h.read g hmem x
  cases a with
  | get sessionId m =>
    match r, hread, hx with
    | .error _, hread, _ => exact hold hread
    | .ok y, hread, hx =>
      obtain ⟨hle, hx⟩ := answer_cases hx
      obtain ⟨e, -, hr, -⟩ | ⟨-, hr, -⟩ := Async.attempt_cases hx
      · cases hr
      · have hstored := (Except.ok.inj hr).symm.trans hread
        obtain ⟨hid, -, hknown⟩ := h.sound _ x (session_of_tick hle hstored)
        rw [hid]
        exact hknown
  | setEx session m =>
    match r, hread with
    | .ok (), hread => exact hold hread
    | .error _, hread => exact hold hread
  | sMembers userId m =>
    match r, hread with
    | .ok (_, _), hread => exact hold hread
    | .error _, hread => exact hold hread
  | _ => exact hold hread

theorem Books.told_of_answer (h : Books w gs) (hasks : asks g a)
    (hexclusive : Exclusive c (w.tick c.now) a) (hx : answer c w a = some (r, w')) : told g a r := by
  obtain ⟨hle, hx⟩ := answer_cases hx
  cases a with
  | get sessionId m =>
    obtain ⟨e, hrej, rfl, -⟩ | ⟨-, rfl, -⟩ := Async.attempt_cases hx
    · refine ⟨fun _ _ => ?_, fun _ h => by cases h⟩
      cases hl : g.listing with
      | none => rfl
      | some l =>
        rw [hexclusive (hasks l hl).1] at hrej
        cases hrej
    · refine ⟨(fun _ h => by cases h), fun s hs => ?_⟩
      obtain ⟨hid, httl, -⟩ := h.sound _ s (session_of_tick hle (Except.ok.inj hs))
      exact ⟨hid, httl⟩
  | sMembers userId m =>
    obtain ⟨e, hrej, -⟩ | ⟨-, rfl, -⟩ := Async.attempt_cases hx
    · rw [hexclusive.1] at hrej
      cases hrej
    · exact ⟨_, rfl⟩
  | _ => trivial

/-- What is left, or changed, leaves the books in order. -/
theorem Books.answered_shrunk (h : Books w gs) {i : Nat} (hg : gs[i]? = some g) (hasks : asks g a)
    (hexclusive : Exclusive c (w.tick c.now) a) (hx : answer c w a = some (r, w'))
    (hshrunk : Shrunk w w') : Books w' (gs.set i (next g a r)) := by
  have hmem := List.mem_of_getElem? hg
  have huuids := uuids_answered hx
  have hcreated := hshrunk.created
  have hothers := fun g' => Async.of_mem_set (k := next g a r) (x := g') hg
  refine ⟨?_, hcreated ▸ h.unique, ?_, ?_, h.apart.set hg ?_, ?_, within_of_shrunk h.limit hshrunk,
    ?_⟩
  · intro id s' hs'
    obtain ⟨hid, httl, s, hs, huser⟩ := hshrunk.sessions id s' hs'
    rw [hcreated, ← huser]
    exact ⟨hid, httl, (h.sound id s hs).2.2⟩
  · rw [hcreated]
    exact fun id userId hid => huuids (h.known id userId hid)
  · intro g' hg' id hid
    rw [hcreated]
    rcases hothers g' hg' with rfl | ⟨j, -, hj⟩
    · rcases (drawn_answered hx hid).1 with hdrawn | ⟨hnew, huuid⟩
      · obtain ⟨huuid, hnew⟩ := h.drawn g hmem id hdrawn
        exact ⟨huuids huuid, hnew⟩
      · exact ⟨huuid, fun userId hthis => hnew (h.known id userId hthis)⟩
    · obtain ⟨huuid, hnew⟩ := h.drawn g' (List.mem_of_getElem? hj) id hid
      exact ⟨huuids huuid, hnew⟩
  · intro id hid
    rcases (drawn_answered hx hid).1 with hdrawn | ⟨hnew, -⟩
    · exact .inl hdrawn
    · exact .inr fun x hx' hthis => hnew (h.drawn x hx' id hthis).1
  · intro g' hg' x hread
    rw [hcreated]
    rcases hothers g' hg' with rfl | ⟨j, -, hj⟩
    · exact h.read_answered hmem hx hread
    · exact h.read g' (List.mem_of_getElem? hj) x hread
  · intro g' hg' l hl
    rcases hothers g' hg' with rfl | ⟨j, -, hj⟩
    · exact h.listing_answered hmem hasks hexclusive hx hshrunk hl
    · exact (h.listing g' (List.mem_of_getElem? hj) l hl).of_shrunk hshrunk

/-- So does a session that is created. -/
theorem Books.answered_created (h : Books w gs) {i : Nat} {session : VoiceSession} {m : Memory}
    (hg : gs[i]? = some g) (httl : 0 < session.ttl) (hadmits : g.Admits session m)
    (hsince : m.created = some (w.createdFor session.userId)) (huuids : w.uuids ⊆ w'.uuids)
    (hcreated : Created w w' session) :
    Books w' (gs.set i { g with drawn := none, listing := none }) := by
  have hmem := List.mem_of_getElem? hg
  have hothers := fun g' =>
    Async.of_mem_set (k := { g with drawn := none, listing := none }) (x := g') hg
  obtain ⟨huuid, hnew⟩ := h.drawn g hmem _ hadmits.drawn
  obtain ⟨l, hl, huser, hrest, hfew, hcount⟩ := hadmits.listed
  have hmore : ∀ x ∈ w.created, x ∈ w'.created := by
    rw [hcreated.created]
    exact fun x hx => List.mem_cons_of_mem _ hx
  have hcases : ∀ id userId, (id, userId) ∈ w'.created →
      (id = session.id ∧ userId = session.userId) ∨ (id, userId) ∈ w.created := by
    intro id userId hid
    rw [hcreated.created] at hid
    rcases List.mem_cons.mp hid with hid | hid
    · cases hid
      exact .inl ⟨rfl, rfl⟩
    · exact .inr hid
  refine ⟨?_, ?_, ?_, ?_, h.apart.set hg ?_, ?_, ?_, ?_⟩
  · intro id s hs
    rcases hcreated.sessions id s hs with ⟨rfl, rfl⟩ | hold
    · exact ⟨rfl, httl, by rw [hcreated.created]; exact List.mem_cons_self⟩
    · obtain ⟨hid, hpos, hknown⟩ := h.sound id s hold
      exact ⟨hid, hpos, hmore _ hknown⟩
  · intro id userId userId' hid hid'
    rcases hcases id userId hid with ⟨rfl, rfl⟩ | hold <;>
      rcases hcases _ userId' hid' with ⟨hthis, hthat⟩ | hold'
    · exact hthat.symm
    · exact absurd hold' (hnew _)
    · exact absurd (hthis ▸ hold) (hnew _)
    · exact h.unique id userId userId' hold hold'
  · intro id userId hid
    rcases hcases id userId hid with ⟨rfl, -⟩ | hold
    · exact huuids huuid
    · exact huuids (h.known id userId hold)
  · intro g' hg' id hid
    rcases hothers g' hg' with rfl | ⟨j, hji, hj⟩
    · cases hid
    · obtain ⟨hdrawn, hunused⟩ := h.drawn g' (List.mem_of_getElem? hj) id hid
      refine ⟨huuids hdrawn, fun userId hthis => ?_⟩
      rcases hcases id userId hthis with ⟨rfl, -⟩ | hold
      · exact hji (h.apart j i g' g _ hj hg hid hadmits.drawn)
      · exact hunused userId hold
  · exact fun id hid => by cases hid
  · intro g' hg' x hread
    rcases hothers g' hg' with rfl | ⟨j, -, hj⟩
    · exact hmore _ (h.read g hmem x hread)
    · exact hmore _ (h.read g' (List.mem_of_getElem? hj) x hread)
  · refine within_of_created h.limit hcreated (h.listing g hmem l hl) huser hrest hfew ?_
    rw [huser]
    exact Option.some.inj (hsince.symm.trans hcount)
  · intro g' hg' l' hl'
    rcases hothers g' hg' with rfl | ⟨j, -, hj⟩
    · cases hl'
    · exact (h.listing g' (List.mem_of_getElem? hj) l' hl').of_created hcreated

theorem Books.answered (h : Books w gs) {i : Nat} (hg : gs[i]? = some g) (hasks : asks g a)
    (hexclusive : Exclusive c (w.tick c.now) a) (hx : answer c w a = some (r, w')) :
    Books w' (gs.set i (next g a r)) := by
  rcases h.moved (List.mem_of_getElem? hg) hasks hexclusive hx with hshrunk |
    ⟨session, m, rfl, hr, httl, hadmits, hsince, hcreated⟩
  · exact h.answered_shrunk hg hasks hexclusive hx hshrunk
  · cases eq_of_heq hr
    exact h.answered_created hg httl hadmits hsince (uuids_answered hx) hcreated

end Step

end Limit

open Limit

/-- **The limit of sessions** is kept, if sessions are created where the listing is complete and
none has been created since, and none that has gone is written back. -/
theorem sessions_within_limit {tr : Trace} {t : System} (h : Run machine tr t)
    (hexclusive : ∀ e ∈ tr, StepExclusive e) :
    ∀ now, t.world.now ≤ now → (t.world.tick now).WithinLimit := by
  obtain ⟨gs, hbooks, -⟩ := Async.interleave_obeys (J := fun _ => Books) (P := protocol)
    (fun op _ => program_obeys op) (by rintro _ rfl; exact books_init)
    (fun _ _ _ _ _ _ _ hJ => hJ.start)
    (fun _ e _ i a r g hgood hans _ hg hasks hJ =>
      ⟨hJ.told_of_answer hasks (hans.meets hgood) hans.answer,
        hJ.answered hg hasks (hans.meets hgood) hans.answer⟩)
    h hexclusive
  intro now hle userId ids hnodup hlive
  refine hbooks.limit userId ids hnodup fun id hid => ?_
  obtain ⟨s, hs, huser⟩ := hlive id hid
  exact ⟨s, session_of_tick hle hs, huser⟩

/-! ### Sessions in turn, and at once -/

def sampleCreation : Outside × Async.Move Operation :=
  (undisturbed "", .start (.createSession "alice" .general none none))

/-- Alice has these sessions. -/
def World.HasSessions (w : World) (ids : List Uuid) : Prop :=
  ∀ id ∈ ids, ∃ s ∈ w.session id, s.userId = "alice"

instance (w : World) (ids : List Uuid) : Decidable (w.HasSessions ids) :=
  inferInstanceAs (Decidable (∀ _ ∈ _, _))

theorem sessions_within_limit_in_turn :
    ∃ (tr : Trace) (t : System), Run machine tr t ∧ t.world.HasSessions ["a", "b", "c"] ∧
      ∀ now, t.world.now ≤ now → (t.world.tick now).WithinLimit := by
  obtain ⟨tr, t, hrun, hok⟩ := Machine.exists_run_of_replay (m := machine) (s := ⟨{}, []⟩)
    ⟨rfl, rfl⟩
    (sampleCreation :: resumes 0 "a" 6 ++ sampleCreation :: resumes 1 "b" 7 ++
      sampleCreation :: resumes 2 "c" 8 ++ sampleCreation :: resumes 3 "d" 4)
    (fun tr t => decide ((∀ e ∈ tr, StepExclusive e) ∧ t.world.HasSessions ["a", "b", "c"]))
    (fun c _ => c.2.starts_of_true) (by decide) (by decide +kernel)
  obtain ⟨hexclusive, hsessions⟩ := of_decide_eq_true hok
  exact ⟨tr, t, hrun, hsessions, sessions_within_limit hrun hexclusive⟩

/-- Four calls list the sessions before any of them writes one. -/
theorem sessions_over_limit :
    ¬ ∀ (tr : Trace) (t : System), Run machine tr t → t.world.WithinLimit := by
  intro hall
  obtain ⟨tr, t, hrun, hok⟩ := Machine.exists_run_of_replay (m := machine) (s := ⟨{}, []⟩)
    ⟨rfl, rfl⟩
    (List.replicate 4 sampleCreation ++
      resumes 0 "a" 1 ++ resumes 1 "b" 1 ++ resumes 2 "c" 1 ++ resumes 3 "d" 1 ++
      resumes 0 "a" 5 ++ resumes 1 "b" 5 ++ resumes 2 "c" 5 ++ resumes 3 "d" 5)
    (fun _ t => decide (t.world.HasSessions ["a", "b", "c", "d"]))
    (fun c _ => c.2.starts_of_true) (by decide) (by decide +kernel)
  have hfew := hall tr t hrun "alice" ["a", "b", "c", "d"] (by decide) (of_decide_eq_true hok)
  exact absurd hfew (by decide)

end Stellara.Voice
