import Mathlib.Data.List.Infix
import Stellara.Lib.Expiring
import Stellara.Lib.Machine

/-!
# The throttle guard

`ThrottleGuard.canActivate`, which every request passes, with `ThrottleService`.  A client is a
user or an address.  A client that is banned is turned away; any other request is counted, under
its path and its client, and let through while the count is within the limit of its kind:

    checkBan   →   INCR rate:path:client   →   (EXPIRE)   →   let through, or a violation

After three violations in an hour the client is banned, each time for twice as long.  A counter
is for one path, so that requests of one kind to several paths have several budgets
(`budget_exceeded`).  While a client's requests of one kind go to one path at a time, the counter of
this path counts the window (`Follows`).
-/

namespace Stellara.Throttle

/-! ## Redis -/

/-- The counters, apart from the texts. -/
structure Redis where
  counters : Store String (Expiring Int)
  texts : Store String (Expiring String)

/-- The counter under a key, unless it has expired. -/
def live (now : Int) (redis : Redis) (key : String) : Option (Expiring Int) :=
  (redis.counters.lookup key).filter fun e => e.Live now

/-- A counter that is not there is created at 0, and does not expire. -/
def incr (now : Int) (key : String) (redis : Redis) : Int × Redis :=
  let e := (live now redis key).getD ⟨0, none⟩
  (e.value + 1, { redis with counters := redis.counters.insert key ⟨e.value + 1, e.expiresAt⟩ })

/-- For a positive time. -/
def expire (now : Int) (key : String) (seconds : Int) (redis : Redis) : Redis :=
  match live now redis key with
  | some e =>
    { redis with counters := redis.counters.insert key ⟨e.value, some (now + seconds * 1000)⟩ }
  | none => redis

/-- In seconds, rounded. -/
def ttl (now : Int) (redis : Redis) (key : String) : Int :=
  match live now redis key with
  | some ⟨_, some t⟩ => (t - now + 500) / 1000
  | some ⟨_, none⟩ => -1
  | none => -2

def setEx (now : Int) (key : String) (seconds : Int) (value : String) (redis : Redis) : Redis :=
  { redis with texts := redis.texts.insert key ⟨value, some (now + seconds * 1000)⟩ }

/-! ## The service -/

structure Limit where
  limit : Int
  window : Int

def GLOBAL : Limit := { limit := 100, window := 60 }

def AUTH : Limit := { limit := 5, window := 60 }

def MAX_VIOLATIONS : Int := 3

def BASE_BAN_SECONDS : Int := 60

structure HttpException where
  message : String
  status : Nat
  deriving DecidableEq

structure Counted where
  current : Int
  limit : Int
  ttl : Int

def buildBanKey (identifier : String) : String := "ban:" ++ identifier

def checkRateLimit (now : Int) (key : String) (limit windowSeconds : Int) (redis : Redis) :
    Counted × Redis :=
  let (current, redis) := incr now key redis
  let redis := if current = 1 then expire now key windowSeconds redis else redis
  ({ current, limit, ttl := ttl now redis key }, redis)

/-- A text that is not empty bans. -/
def Banned (now : Int) (identifier : String) (redis : Redis) : Prop :=
  (Expiring.read now redis.texts (buildBanKey identifier)).any (· ≠ "")

instance (now : Int) (identifier : String) (redis : Redis) :
    Decidable (Banned now identifier redis) :=
  inferInstanceAs (Decidable (_ = true))

def checkBan (now : Int) (identifier : String) (redis : Redis) : Except HttpException Unit :=
  if Banned now identifier redis then .error ⟨"Temporarily banned", 429⟩ else .ok ()

def registerViolation (now : Int) (identifier : String) (redis : Redis) : Redis :=
  let violationsKey := "violations:" ++ identifier
  let (violations, redis) := incr now violationsKey redis
  let redis := if violations = 1 then expire now violationsKey 3600 redis else redis
  if MAX_VIOLATIONS ≤ violations then
    let banSeconds := BASE_BAN_SECONDS * 2 ^ (violations - 1).toNat
    setEx now (buildBanKey identifier) banSeconds "1" redis
  else redis

/-! ## The guard -/

structure Request where
  ip : String
  user : Option String
  path : String
  deriving DecidableEq

def Request.identifier (req : Request) : String := req.user.getD req.ip

def Request.isAuthRoute (req : Request) : Bool := decide ("/auth".toList <:+: req.path.toList)

def config (isAuthRoute : Bool) : Limit := if isAuthRoute then AUTH else GLOBAL

def Request.key (req : Request) : String := "rate:" ++ req.path ++ ":" ++ req.identifier

/-- `X-RateLimit-Limit`, `X-RateLimit-Remaining` and `X-RateLimit-Reset`. -/
structure Headers where
  limit : Int
  remaining : Int
  reset : Int

/-- The headers that are set, if any, and what the guard returns or throws. -/
structure Reply where
  headers : Option Headers
  result : Except HttpException Bool

def canActivate (now : Int) (req : Request) (redis : Redis) : Reply × Redis :=
  match checkBan now req.identifier redis with
  | .error e => ({ headers := none, result := .error e }, redis)
  | .ok () =>
    let { limit, window } := config req.isAuthRoute
    let ({ current, limit, ttl }, redis) := checkRateLimit now req.key limit window redis
    let headers : Headers := { limit, remaining := max 0 (limit - current), reset := ttl }
    if limit < current then
      ({ headers := some headers, result := .error ⟨"Rate limit exceeded", 429⟩ },
        registerViolation now req.identifier redis)
    else ({ headers := some headers, result := .ok true }, redis)

/-- Requests of any clients to any paths, each at a time in milliseconds. -/
def machine : Machine Nat Request Reply Empty Redis where
  init redis := redis = ⟨∅, ∅⟩
  valid _ _ := True
  clock now := now
  exec now req redis := .ok (canActivate now req redis)

abbrev Call : Type := Event Nat Request Reply Redis

/-! ## One request -/

def Reply.passed (r : Reply) : Bool :=
  match r.result with
  | .ok passed => passed
  | .error _ => false

section Request

variable {now : Int} {redis : Redis} {req req' : Request} {key identifier : String}

/-- The two parts of a key have their own colons, so that keys of different clients may be the
same; those of one client are not. -/
theorem path_eq_of_key_eq (hkey : req.key = req'.key) (h : req.identifier = req'.identifier) :
    req.path = req'.path := by
  unfold Request.key at hkey
  rw [h] at hkey
  simpa using hkey

theorem key_ne_violations : req.key ≠ "violations:" ++ identifier := by
  intro h
  have hfirst := congrArg (fun s => s.toList.head?) h
  unfold Request.key at hfirst
  simp at hfirst

/-- The counter after it counted once more. -/
def next (now : Int) (window : Int) (old : Option (Expiring Int)) : Expiring Int :=
  let e := old.getD ⟨0, none⟩
  ⟨e.value + 1, if e.value + 1 = 1 then some (now + window * 1000) else e.expiresAt⟩

theorem live_incr : live now (incr now key redis).2 key =
    some ⟨((live now redis key).getD ⟨0, none⟩).value + 1,
      ((live now redis key).getD ⟨0, none⟩).expiresAt⟩ := by
  unfold incr
  dsimp only
  show ((redis.counters.insert _ _).lookup key).filter _ = _
  rw [Store.lookup_insert_eq, if_pos rfl, Option.filter_some, if_pos]
  cases hlive : live now redis key with
  | none => rfl
  | some e => exact (Option.filter_eq_some_iff.mp hlive).2

/-- **What is counted.** -/
theorem lookup_checkRateLimit (limit : Int) {window : Int} {key' : String} :
    (checkRateLimit now key limit window redis).2.counters.lookup key' =
      if key' = key then some (next now window (live now redis key))
      else redis.counters.lookup key' := by
  unfold checkRateLimit next
  dsimp only
  split
  · next hone =>
    have hone' : ((live now redis key).getD ⟨0, none⟩).value + 1 = 1 := hone
    unfold expire
    rw [live_incr]
    dsimp only
    rw [Store.lookup_insert_eq, hone', if_pos rfl]
    split
    · rfl
    · next hne =>
      show (redis.counters.insert _ _).lookup key' = _
      rw [Store.lookup_insert_eq, if_neg hne]
  · next hone =>
    have hone' : ¬ ((live now redis key).getD ⟨0, none⟩).value + 1 = 1 := hone
    show (redis.counters.insert _ _).lookup key' = _
    rw [Store.lookup_insert_eq, if_neg hone']

theorem lookup_registerViolation (h : key ≠ "violations:" ++ identifier) :
    (registerViolation now identifier redis).counters.lookup key = redis.counters.lookup key := by
  have hincr : ∀ r : Redis, (incr now ("violations:" ++ identifier) r).2.counters.lookup key =
      r.counters.lookup key := fun r => by
    show (r.counters.insert _ _).lookup key = _
    rw [Store.lookup_insert_eq, if_neg h]
  have hexpire : ∀ r : Redis, (expire now ("violations:" ++ identifier) 3600 r).counters.lookup
      key = r.counters.lookup key := fun r => by
    unfold expire
    split
    · show (r.counters.insert _ _).lookup key = _
      rw [Store.lookup_insert_eq, if_neg h]
    · rfl
  unfold registerViolation
  dsimp only
  split
  · show (ite _ _ _ : Redis).counters.lookup key = _
    split
    · rw [hexpire, hincr]
    · rw [hincr]
  · split
    · rw [hexpire, hincr]
    · rw [hincr]

/-- What a request that is not banned does: it is counted, and let through while the count is
within the limit. -/
structure Counts (now : Int) (req : Request) (redis : Redis) (r : Reply × Redis) : Prop where
  passed : r.1.passed = true →
    (next now (config req.isAuthRoute).window (live now redis req.key)).value ≤
      (config req.isAuthRoute).limit
  lookup : ∀ req' : Request, r.2.counters.lookup req'.key =
    if req'.key = req.key then
      some (next now (config req.isAuthRoute).window (live now redis req.key))
    else redis.counters.lookup req'.key

/-- **What a request does.** -/
theorem canActivate_cases (now : Int) (req : Request) (redis : Redis) :
    (Banned now req.identifier redis ∧ (canActivate now req redis).1.passed = false ∧
        (canActivate now req redis).2 = redis) ∨
      (¬ Banned now req.identifier redis ∧
        Counts now req redis (canActivate now req redis)) := by
  unfold canActivate checkBan
  by_cases hbanned : Banned now req.identifier redis
  · rw [if_pos hbanned]
    exact .inl ⟨hbanned, rfl, rfl⟩
  · rw [if_neg hbanned]
    refine .inr ⟨hbanned, ?_⟩
    dsimp only
    split
    · refine ⟨fun hpassed => (by cases hpassed), fun req' => ?_⟩
      rw [lookup_registerViolation key_ne_violations, lookup_checkRateLimit _]
    · next hle =>
      exact ⟨fun _ => Int.not_lt.mp hle,
        fun _ => lookup_checkRateLimit (config req.isAuthRoute).limit⟩

end Request

/-! ## Windows -/

/-- The requests of one client and one kind that are counted. -/
def Mine (identifier : String) (isAuthRoute : Bool) (e : Call) : Prop :=
  e.call.identifier = identifier ∧ e.call.isAuthRoute = isAuthRoute ∧
    ¬ Banned e.env identifier e.before

instance (identifier : String) (isAuthRoute : Bool) :
    DecidablePred (Mine identifier isAuthRoute) := fun _ =>
  inferInstanceAs (Decidable (_ ∧ _))

/-- When the windows of a client and a kind opened, the last one first: with the first request that
is counted, and then with the first one that is counted after the window. -/
def windows (identifier : String) (isAuthRoute : Bool) : List Call → List Nat
  | [] => []
  | e :: tr =>
    let before := windows identifier isAuthRoute tr
    if Mine identifier isAuthRoute e ∧
        ∀ start ∈ before.head?, start + (config isAuthRoute).window * 1000 ≤ e.env then
      e.env :: before
    else before

/-- The requests of a client and a kind that were let through in the window that opened at
`start`. -/
def passedIn (identifier : String) (isAuthRoute : Bool) (start : Nat) (tr : List Call) : Nat :=
  tr.countP fun e =>
    Mine identifier isAuthRoute e ∧ e.ret.passed = true ∧ start ≤ e.env ∧
      (e.env : Int) < start + (config isAuthRoute).window * 1000

/-- If a request is counted, then the client's requests of this kind that were counted less than a
window before went to the same path, and no other client was counted under its key then. -/
def Alone (e : Call) (tr : List Call) : Prop :=
  Mine e.call.identifier e.call.isAuthRoute e → ∀ e' ∈ tr,
    Mine e'.call.identifier e'.call.isAuthRoute e' →
      (e.env : Int) < e'.env + (config e'.call.isAuthRoute).window * 1000 →
      (e'.call.identifier = e.call.identifier → e'.call.isAuthRoute = e.call.isAuthRoute →
        e'.call.path = e.call.path) ∧
      (e'.call.key = e.call.key → e'.call.identifier = e.call.identifier)

instance (e : Call) (tr : List Call) : Decidable (Alone e tr) :=
  inferInstanceAs (Decidable (_ → _))

section Windows

variable {identifier : String} {isAuthRoute : Bool} {tr : List Call} {redis : Redis} {e : Call}

theorem window_pos : 0 < (config isAuthRoute).window := by cases isAuthRoute <;> decide

theorem one_le_limit : 1 ≤ (config isAuthRoute).limit := by cases isAuthRoute <;> decide

/-- A request opens a window. -/
def Opens (identifier : String) (isAuthRoute : Bool) (e : Call) (tr : List Call) : Prop :=
  ∀ start ∈ (windows identifier isAuthRoute tr).head?,
    start + (config isAuthRoute).window * 1000 ≤ e.env

theorem windows_of_opens (hmine : Mine identifier isAuthRoute e)
    (h : Opens identifier isAuthRoute e tr) :
    windows identifier isAuthRoute (e :: tr) = e.env :: windows identifier isAuthRoute tr :=
  if_pos ⟨hmine, h⟩

theorem windows_of_not (h : ¬ (Mine identifier isAuthRoute e ∧ Opens identifier isAuthRoute e tr)) :
    windows identifier isAuthRoute (e :: tr) = windows identifier isAuthRoute tr :=
  if_neg h

theorem mem_windows_cons {start : Nat} (h : start ∈ windows identifier isAuthRoute tr) :
    start ∈ windows identifier isAuthRoute (e :: tr) := by
  by_cases hopens : Mine identifier isAuthRoute e ∧ Opens identifier isAuthRoute e tr
  · rw [windows_of_opens hopens.1 hopens.2]
    exact List.mem_cons_of_mem _ h
  · rwa [windows_of_not hopens]

/-- A window that has not ended, where a request does not open one. -/
theorem exists_of_not_opens (h : ¬ Opens identifier isAuthRoute e tr) :
    ∃ start, (windows identifier isAuthRoute tr).head? = some start ∧
      (e.env : Int) < start + (config isAuthRoute).window * 1000 := by
  unfold Opens at h
  push Not at h
  exact h

/-- The request that opened a window. -/
theorem exists_opener {start : Nat} (h : start ∈ windows identifier isAuthRoute tr) :
    ∃ e ∈ tr, Mine identifier isAuthRoute e ∧ e.env = start := by
  induction tr with
  | nil => cases h
  | cons e tr ih =>
    by_cases hopens : Mine identifier isAuthRoute e ∧ Opens identifier isAuthRoute e tr
    · rw [windows_of_opens hopens.1 hopens.2] at h
      rcases List.mem_cons.mp h with rfl | h
      · exact ⟨e, List.mem_cons_self, hopens.1, rfl⟩
      · obtain ⟨e', he', hmine⟩ := ih h
        exact ⟨e', List.mem_cons_of_mem _ he', hmine⟩
    · rw [windows_of_not hopens] at h
      obtain ⟨e', he', hmine⟩ := ih h
      exact ⟨e', List.mem_cons_of_mem _ he', hmine⟩

/-- The last window has not ended at the requests that are counted. -/
theorem exists_window (h : Run machine tr redis) (he : e ∈ tr)
    (hmine : Mine identifier isAuthRoute e) :
    ∃ start, (windows identifier isAuthRoute tr).head? = some start ∧
      (e.env : Int) < start + (config isAuthRoute).window * 1000 := by
  induction h with
  | start => cases he
  | @commit tr s s' now req r h hv hc hx ih =>
    have hwindow : 0 < (config isAuthRoute).window := window_pos
    by_cases hopens : Mine identifier isAuthRoute ⟨now, req, r, s, s'⟩ ∧
        Opens identifier isAuthRoute ⟨now, req, r, s, s'⟩ tr
    · rw [windows_of_opens hopens.1 hopens.2]
      refine ⟨now, rfl, ?_⟩
      rcases List.mem_cons.mp he with rfl | he
      · dsimp only
        omega
      · have hle : e.env ≤ now := hc e he
        omega
    · rw [windows_of_not hopens]
      rcases List.mem_cons.mp he with rfl | he
      · exact exists_of_not_opens fun hopen => hopens ⟨hmine, hopen⟩
      · exact ih he

theorem ended_of_head {starts : List Nat} {length : Int} {start now : Nat} (hpos : 0 < length)
    (hpairwise : starts.Pairwise fun (later start : Nat) => (start : Int) + length ≤ later)
    (hhead : ∀ start ∈ starts.head?, (start : Int) + length ≤ now) (h : start ∈ starts) :
    (start : Int) + length ≤ now := by
  cases hpairwise with
  | nil => cases h
  | @cons last rest hrest _ =>
    have hlast := hhead last rfl
    rcases List.mem_cons.mp h with rfl | h
    · exact hlast
    · have := hrest start h
      omega

/-- A window opens after the ones before it have ended. -/
theorem pairwise_windows (identifier : String) (isAuthRoute : Bool) (tr : List Call) :
    (windows identifier isAuthRoute tr).Pairwise fun (later start : Nat) =>
      (start : Int) + (config isAuthRoute).window * 1000 ≤ later := by
  induction tr with
  | nil => exact .nil
  | cons e tr ih =>
    by_cases hopens : Mine identifier isAuthRoute e ∧ Opens identifier isAuthRoute e tr
    · rw [windows_of_opens hopens.1 hopens.2]
      refine List.pairwise_cons.mpr ⟨fun start hstart => ?_, ih⟩
      have hwindow : 0 < (config isAuthRoute).window := window_pos
      exact ended_of_head (by omega) ih hopens.2 hstart
    · rwa [windows_of_not hopens]

theorem ended_of_opens {start : Nat} (hopens : Opens identifier isAuthRoute e tr)
    (h : start ∈ windows identifier isAuthRoute tr) :
    (start : Int) + (config isAuthRoute).window * 1000 ≤ e.env := by
  have hwindow : 0 < (config isAuthRoute).window := window_pos
  exact ended_of_head (by omega) (pairwise_windows identifier isAuthRoute tr) hopens h

/-- Where a window has not ended, the ones before it have. -/
theorem eq_of_mem_windows {start last : Nat}
    (hlast : (windows identifier isAuthRoute tr).head? = some last) (hle : last ≤ e.env)
    (h : start ∈ windows identifier isAuthRoute tr)
    (hlt : (e.env : Int) < start + (config isAuthRoute).window * 1000) : start = last := by
  have hpairwise := pairwise_windows identifier isAuthRoute tr
  cases hwindows : windows identifier isAuthRoute tr with
  | nil =>
    rw [hwindows] at h
    cases h
  | cons first rest =>
    rw [hwindows] at h hlast hpairwise
    obtain rfl := Option.some.inj hlast
    rcases List.mem_cons.mp h with rfl | h
    · rfl
    · have := (List.pairwise_cons.mp hpairwise).1 start h
      omega

theorem passedIn_cons (identifier : String) (isAuthRoute : Bool) (start : Nat) (e : Call)
    (tr : List Call) : passedIn identifier isAuthRoute start (e :: tr) ≤
      passedIn identifier isAuthRoute start tr + 1 := by
  unfold passedIn
  rw [List.countP_cons]
  split <;> omega

theorem passedIn_cons_of_not {start : Nat}
    (h : ¬ (Mine identifier isAuthRoute e ∧ e.ret.passed = true ∧ start ≤ e.env ∧
      (e.env : Int) < start + (config isAuthRoute).window * 1000)) :
    passedIn identifier isAuthRoute start (e :: tr) = passedIn identifier isAuthRoute start tr :=
  List.countP_cons_of_neg (by rwa [decide_eq_true_eq])

/-- When a request opens a window, none of those before it is in it. -/
theorem lt_of_opens (h : Run machine tr redis) (hopens : Opens identifier isAuthRoute e tr)
    {e' : Call} (he' : e' ∈ tr) (hmine : Mine identifier isAuthRoute e') : e'.env < e.env := by
  obtain ⟨start, hstart, hlt⟩ := exists_window h he' hmine
  have := hopens start hstart
  omega

theorem passedIn_of_opens (h : Run machine tr redis) (hopens : Opens identifier isAuthRoute e tr) :
    passedIn identifier isAuthRoute e.env tr = 0 := by
  refine List.countP_eq_zero.mpr fun e' he' => ?_
  rw [decide_eq_true_eq]
  rintro ⟨hmine, -, hle, -⟩
  have := lt_of_opens h hopens he' hmine
  omega

end Windows

/-! ## The counter of a window -/

/-- While a window has not ended, the requests that were counted in it have one counter, which
counts them and ends with it; a counter started when a window opened. -/
structure Follows (tr : List Call) (redis : Redis) : Prop where
  counter : ∀ identifier isAuthRoute start,
    (windows identifier isAuthRoute tr).head? = some start →
    (∀ e ∈ tr, (e.env : Int) < start + (config isAuthRoute).window * 1000) →
    ∃ v : Int, 1 ≤ v ∧ passedIn identifier isAuthRoute start tr ≤ v ∧
      ∀ e ∈ tr, Mine identifier isAuthRoute e → start ≤ e.env →
        redis.counters.lookup e.call.key =
          some ⟨v, some (start + (config isAuthRoute).window * 1000)⟩
  opened : ∀ (req : Request) x, redis.counters.lookup req.key = some x →
    ∃ e ∈ tr, Mine e.call.identifier e.call.isAuthRoute e ∧ e.call.key = req.key ∧
      e.env ∈ windows e.call.identifier e.call.isAuthRoute tr ∧
      x.expiresAt = some (e.env + (config e.call.isAuthRoute).window * 1000)

section Follows

variable {tr : List Call} {redis : Redis} {e : Call} {identifier : String} {isAuthRoute : Bool}

/-- The requests of one client and one kind that are close have one key. -/
theorem Alone.key_eq {e' : Call} (h : Alone e tr) (he' : e' ∈ tr)
    (hmine : Mine identifier isAuthRoute e) (hmine' : Mine identifier isAuthRoute e')
    (hlt : (e.env : Int) < e'.env + (config isAuthRoute).window * 1000) :
    e'.call.key = e.call.key := by
  obtain ⟨rfl, rfl, hcounted⟩ := hmine
  obtain ⟨hid, hkind, hcounted'⟩ := hmine'
  have hpath := (h ⟨rfl, rfl, hcounted⟩ e' he' ⟨rfl, rfl, hid.symm ▸ hcounted'⟩
    (hkind.symm ▸ hlt)).1 hid hkind
  unfold Request.key
  rw [hid, hpath]

/-- Other requests have other keys. -/
theorem Alone.key_ne {e' : Call} (h : Alone e tr) (he' : e' ∈ tr)
    (hcounted : Mine e.call.identifier e.call.isAuthRoute e)
    (hmine : ¬ Mine identifier isAuthRoute e) (hmine' : Mine identifier isAuthRoute e')
    (hlt : (e.env : Int) < e'.env + (config isAuthRoute).window * 1000) :
    e'.call.key ≠ e.call.key := by
  intro hkey
  obtain ⟨rfl, rfl, hcounted'⟩ := hmine'
  have hid := (h hcounted e' he' ⟨rfl, rfl, hcounted'⟩ hlt).2 hkey
  have hpath := path_eq_of_key_eq hkey hid
  have hkind : e.call.isAuthRoute = e'.call.isAuthRoute := by
    unfold Request.isAuthRoute
    rw [hpath]
  exact hmine ⟨hid.symm, hkind, hid.symm ▸ hcounted.2.2⟩

/-- A request that opens a window finds no counter. -/
theorem Follows.live_of_opens (h : Follows tr redis) (halone : Alone e tr)
    (hmine : Mine identifier isAuthRoute e) (hopens : Opens identifier isAuthRoute e tr) :
    live e.env redis e.call.key = none := by
  cases hlive : live e.env redis e.call.key with
  | none => rfl
  | some x =>
    obtain ⟨hlookup, hlt⟩ := Option.filter_eq_some_iff.mp hlive
    obtain ⟨e', he', hmine', hkey, hwindow, hexpires⟩ := h.opened e.call x hlookup
    unfold Expiring.Live at hlt
    rw [hexpires, Option.all_some, decide_eq_true_eq] at hlt
    -- the request that started it was for the same path, and its window has not ended
    obtain ⟨rfl, rfl, hcounted⟩ := hmine
    have hid := (halone ⟨rfl, rfl, hcounted⟩ e' he' hmine' hlt).2 hkey
    have hkind : e'.call.isAuthRoute = e.call.isAuthRoute := by
      unfold Request.isAuthRoute
      rw [path_eq_of_key_eq hkey hid]
    rw [hid, hkind] at hwindow
    rw [hkind] at hlt
    have hended := ended_of_opens hopens hwindow
    omega

/-- Any other request finds the counter of the window. -/
theorem Follows.live_of_window (h : Follows tr redis) (halone : Alone e tr)
    (hle : ∀ e' ∈ tr, e'.env ≤ e.env)
    (hmine : Mine identifier isAuthRoute e) {start : Nat}
    (hstart : (windows identifier isAuthRoute tr).head? = some start)
    (hlt : (e.env : Int) < start + (config isAuthRoute).window * 1000) :
    start ≤ e.env ∧ ∃ v : Int, 1 ≤ v ∧ passedIn identifier isAuthRoute start tr ≤ v ∧
      live e.env redis e.call.key =
        some ⟨v, some (start + (config isAuthRoute).window * 1000)⟩ := by
  obtain ⟨e', he', hmine', rfl⟩ := exists_opener (List.mem_of_mem_head? hstart)
  have hbefore := hle e' he'
  refine ⟨hbefore, ?_⟩
  obtain ⟨v, hpos, hpassed, hlookup⟩ := h.counter identifier isAuthRoute e'.env hstart
    fun e'' he'' => by
      have := hle e'' he''
      omega
  refine ⟨v, hpos, hpassed, ?_⟩
  have hcounter := hlookup e' he' hmine' (Nat.le_refl _)
  rw [halone.key_eq he' hmine hmine' hlt] at hcounter
  unfold live
  rw [hcounter, Option.filter_some, if_pos]
  unfold Expiring.Live
  rw [Option.all_some, decide_eq_true_eq]
  exact hlt

theorem next_of_none {now : Int} {window : Int} :
    next now window none = ⟨1, some (now + window * 1000)⟩ := rfl

theorem next_of_some {now window v : Int} {t : Option Int} (h : 1 ≤ v) :
    next now window (some ⟨v, t⟩) = ⟨v + 1, t⟩ := by
  unfold next
  dsimp only [Option.getD_some]
  rw [if_neg (by omega)]

/-- **One request** keeps this, where the client's are alone. -/
theorem Follows.step (h : Follows tr redis) (hrun : Run machine tr redis) (halone : Alone e tr)
    (hle : ∀ e' ∈ tr, e'.env ≤ e.env) (hbefore : e.before = redis)
    (hx : canActivate e.env e.call redis = (e.ret, e.after)) : Follows (e :: tr) e.after := by
  have hcases := canActivate_cases e.env e.call redis
  rw [hx] at hcases
  rcases hcases with ⟨hbanned, -, hafter⟩ | ⟨hcounted, hcounts⟩
  · -- nothing changes
    have hother : ∀ identifier isAuthRoute, ¬ Mine identifier isAuthRoute e := by
      rintro _ isAuthRoute ⟨rfl, -, hcounted⟩
      rw [hbefore] at hcounted
      exact hcounted hbanned
    have hafter : e.after = redis := hafter
    rw [hafter]
    refine ⟨fun identifier isAuthRoute start hstart hopen => ?_, fun req x hlookup => ?_⟩
    · have hnot := hother identifier isAuthRoute
      rw [windows_of_not fun hmine => hnot hmine.1] at hstart
      rw [passedIn_cons_of_not fun hmine => hnot hmine.1]
      obtain ⟨v, hpos, hpassed, hkeys⟩ := h.counter identifier isAuthRoute start hstart
        fun e' he' => hopen e' (List.mem_cons_of_mem _ he')
      exact ⟨v, hpos, hpassed, List.forall_mem_cons.mpr
        ⟨fun hmine => absurd hmine hnot, hkeys⟩⟩
    · obtain ⟨e', he', hmine, hkey, hwindow, hexpires⟩ := h.opened req x hlookup
      exact ⟨e', List.mem_cons_of_mem _ he', hmine, hkey, mem_windows_cons hwindow, hexpires⟩
  · have hself : Mine e.call.identifier e.call.isAuthRoute e := ⟨rfl, rfl, hbefore ▸ hcounted⟩
    have hlookup : ∀ req : Request, e.after.counters.lookup req.key = _ := hcounts.lookup
    refine ⟨fun identifier isAuthRoute start hstart hopen => ?_, fun req x hreq => ?_⟩
    · have hlt := hopen e List.mem_cons_self
      have hopen' := fun e' he' => hopen e' (List.mem_cons_of_mem _ he')
      by_cases hmine : Mine identifier isAuthRoute e
      · obtain ⟨rfl, rfl, -⟩ := hmine
        by_cases hopens : Opens e.call.identifier e.call.isAuthRoute e tr
        · -- a new window and a new counter
          rw [windows_of_opens hself hopens] at hstart
          obtain rfl : e.env = start := Option.some.inj hstart
          have hpassed := passedIn_cons e.call.identifier e.call.isAuthRoute e.env e tr
          rw [passedIn_of_opens hrun hopens] at hpassed
          refine ⟨1, Int.le_refl 1, by omega, List.forall_mem_cons.mpr ⟨fun _ _ => ?_, ?_⟩⟩
          · rw [hlookup, if_pos rfl, h.live_of_opens halone hself hopens, next_of_none]
          · intro e' he' hmine' hfrom
            have := lt_of_opens hrun hopens he' hmine'
            omega
        · rw [windows_of_not fun hboth => hopens hboth.2] at hstart
          obtain ⟨hfrom, v, hpos, hpassed, hlive⟩ :=
            h.live_of_window halone hle hself hstart hlt
          have hmore := passedIn_cons e.call.identifier e.call.isAuthRoute start e tr
          have hnext : e.after.counters.lookup e.call.key =
              some ⟨v + 1, some (start + (config e.call.isAuthRoute).window * 1000)⟩ := by
            rw [hlookup, if_pos rfl, hlive, next_of_some hpos]
          refine ⟨v + 1, by omega, by omega, List.forall_mem_cons.mpr ⟨fun _ _ => hnext, ?_⟩⟩
          intro e' he' hmine' hfrom'
          rw [halone.key_eq he' hself hmine' (by omega), hnext]
      · -- a request of another client or another kind has another key
        rw [windows_of_not fun hboth => hmine hboth.1] at hstart
        rw [passedIn_cons_of_not fun hboth => hmine hboth.1]
        obtain ⟨v, hpos, hpassed, hkeys⟩ := h.counter identifier isAuthRoute start hstart hopen'
        refine ⟨v, hpos, hpassed, List.forall_mem_cons.mpr
          ⟨fun hmine' => absurd hmine' hmine, fun e' he' hmine' hfrom => ?_⟩⟩
        rw [hlookup, if_neg (halone.key_ne he' hself hmine hmine' (by omega))]
        exact hkeys e' he' hmine' hfrom
    · rw [hlookup] at hreq
      split at hreq
      · next hkey =>
        obtain rfl := Option.some.inj hreq
        by_cases hopens : Opens e.call.identifier e.call.isAuthRoute e tr
        · refine ⟨e, List.mem_cons_self, hself, hkey.symm, ?_, ?_⟩
          · rw [windows_of_opens hself hopens]
            exact List.mem_cons_self
          · rw [h.live_of_opens halone hself hopens, next_of_none]
        · obtain ⟨start, hstart, hlt⟩ := exists_of_not_opens hopens
          obtain ⟨-, v, hpos, -, hlive⟩ := h.live_of_window halone hle hself hstart hlt
          obtain ⟨e', he', hmine, hkey', hwindow, hexpires⟩ :=
            h.opened e.call _ (Option.filter_eq_some_iff.mp hlive).1
          refine ⟨e', List.mem_cons_of_mem _ he', hmine, hkey'.trans hkey.symm,
            mem_windows_cons hwindow, ?_⟩
          rw [hlive, next_of_some hpos]
          exact hexpires
      · obtain ⟨e', he', hmine, hkey, hwindow, hexpires⟩ := h.opened req x hreq
        exact ⟨e', List.mem_cons_of_mem _ he', hmine, hkey, mem_windows_cons hwindow, hexpires⟩

theorem follows_run (h : Run machine tr redis) (halone : Throughout Alone tr) :
    Follows tr redis := by
  induction h with
  | start h =>
    obtain rfl := h
    refine ⟨fun _ _ _ hstart => ?_, fun _ _ hlookup => ?_⟩
    · cases hstart
    · cases hlookup
  | @commit tr s s' now req r h hv hc hx ih =>
    exact (ih halone.2).step (e := ⟨now, req, r, s, s'⟩) h halone.1 hc rfl (Except.ok.inj hx)

/-! ## The budget -/

/-- A request that is let through is within the limit of its window. -/
theorem Follows.passedIn_le (h : Follows tr redis) (hrun : Run machine tr redis)
    (halone : Alone e tr) (hle : ∀ e' ∈ tr, e'.env ≤ e.env) (hbefore : e.before = redis)
    (hx : canActivate e.env e.call redis = (e.ret, e.after))
    (hold : ∀ start ∈ windows identifier isAuthRoute tr,
      (passedIn identifier isAuthRoute start tr : Int) ≤ (config isAuthRoute).limit) {start : Nat}
    (hstart : start ∈ windows identifier isAuthRoute (e :: tr)) :
    (passedIn identifier isAuthRoute start (e :: tr) : Int) ≤ (config isAuthRoute).limit := by
  have hlimit : 1 ≤ (config isAuthRoute).limit := one_le_limit
  have hmore := passedIn_cons identifier isAuthRoute start e tr
  by_cases hopens : Mine identifier isAuthRoute e ∧ Opens identifier isAuthRoute e tr
  · rw [windows_of_opens hopens.1 hopens.2] at hstart
    rcases List.mem_cons.mp hstart with rfl | hstart
    · -- the first one of its window
      rw [passedIn_of_opens hrun hopens.2] at hmore
      omega
    · have hended := ended_of_opens hopens.2 hstart
      rw [passedIn_cons_of_not fun hnew => Int.not_lt.mpr hended hnew.2.2.2]
      exact hold start hstart
  · rw [windows_of_not hopens] at hstart
    by_cases hnew : Mine identifier isAuthRoute e ∧ e.ret.passed = true ∧ start ≤ e.env ∧
        (e.env : Int) < start + (config isAuthRoute).window * 1000
    · obtain ⟨hmine, hpassed, hfrom, hlt⟩ := hnew
      obtain ⟨last, hlast, hlt'⟩ := exists_of_not_opens fun hopen => hopens ⟨hmine, hopen⟩
      obtain ⟨hfrom', v, hpos, hcount, hlive⟩ := h.live_of_window halone hle hmine hlast hlt'
      obtain rfl := eq_of_mem_windows hlast hfrom' hstart hlt
      -- the counter of the window is within the limit
      obtain ⟨rfl, rfl, hcounted⟩ := hmine
      have hcases := canActivate_cases e.env e.call redis
      rw [hx] at hcases
      rcases hcases with ⟨hbanned, -⟩ | ⟨-, hcounts⟩
      · exact absurd (hbefore ▸ hbanned) hcounted
      · have hvalue := hcounts.passed hpassed
        rw [hlive, next_of_some hpos] at hvalue
        dsimp only at hvalue
        omega
    · rw [passedIn_cons_of_not hnew]
      exact hold start hstart

/-- A window has at most the limit of its kind. -/
theorem passedIn_le_limit (h : Run machine tr redis) (halone : Throughout Alone tr) :
    ∀ start ∈ windows identifier isAuthRoute tr,
      (passedIn identifier isAuthRoute start tr : Int) ≤ (config isAuthRoute).limit := by
  induction h with
  | start => exact List.forall_mem_nil _
  | @commit tr s s' now req r h hv hc hx ih =>
    intro start hstart
    exact (follows_run h halone.2).passedIn_le (e := ⟨now, req, r, s, s'⟩) h halone.1 hc rfl
      (Except.ok.inj hx) (ih halone.2) hstart

/-- **The throttle.**  Where the requests of one client and one kind that are less than a window
apart go to one path, no window has more of them than the limit; and while a client is banned,
none is let through. -/
theorem budget_kept (h : Run machine tr redis) (halone : Throughout Alone tr) :
    (∀ identifier isAuthRoute, ∀ start ∈ windows identifier isAuthRoute tr,
      (passedIn identifier isAuthRoute start tr : Int) ≤ (config isAuthRoute).limit) ∧
    ∀ e ∈ tr, Banned e.env e.call.identifier e.before → e.ret.passed = false := by
  refine ⟨fun _ _ => passedIn_le_limit h halone, fun e he hbanned => ?_⟩
  obtain ⟨tr', -, -, hx⟩ := h.of_mem he
  have hcases := canActivate_cases e.env e.call e.before
  rw [Except.ok.inj hx] at hcases
  rcases hcases with ⟨-, hpassed, -⟩ | ⟨hcounted, -⟩
  · exact hpassed
  · exact absurd hbanned hcounted

end Follows

/-! ## Examples -/

def post (path : String) : Request := { ip := "10.0.0.1", user := none, path }

/-- Requests to sign in at the given times. -/
def logins (times : List Nat) : List (Nat × Request) :=
  times.map fun now => (now, post "/auth/login")

theorem budget_kept_login :
    ∃ tr redis, Run machine tr redis ∧
      ((∀ identifier isAuthRoute, ∀ start ∈ windows identifier isAuthRoute tr,
          (passedIn identifier isAuthRoute start tr : Int) ≤ (config isAuthRoute).limit) ∧
        ∀ e ∈ tr, Banned e.env e.call.identifier e.before → e.ret.passed = false) ∧
      (tr.map fun e => e.ret.passed) =
        [false, false, false, false, true, true, true, true, true] := by
  obtain ⟨tr, redis, hrun, hp⟩ := Machine.exists_run_of_replay (m := machine) (s := ⟨∅, ∅⟩) rfl
    (logins [0, 0, 10, 20, 30, 40, 50, 60, 70000])
    (fun tr _ => decide (Throughout Alone tr ∧ (tr.map fun e => e.ret.passed) =
      [false, false, false, false, true, true, true, true, true]))
    (fun _ _ => trivial) (by decide) (by decide +kernel)
  obtain ⟨halone, hpassed⟩ := of_decide_eq_true hp
  exact ⟨tr, redis, hrun, budget_kept hrun halone, hpassed⟩

/-- Six requests to sign in or to register are let through at once, where five are in a window. -/
theorem budget_exceeded :
    ∃ tr redis, Run machine tr redis ∧ 0 ∈ windows "10.0.0.1" true tr ∧
      ¬ (passedIn "10.0.0.1" true 0 tr : Int) ≤ AUTH.limit := by
  obtain ⟨tr, redis, hrun, hp⟩ := Machine.exists_run_of_replay (m := machine) (s := ⟨∅, ∅⟩) rfl
    ((List.replicate 3 (0, post "/auth/login")) ++ List.replicate 3 (0, post "/auth/register"))
    (fun tr _ => decide (0 ∈ windows "10.0.0.1" true tr ∧
      ¬ (passedIn "10.0.0.1" true 0 tr : Int) ≤ AUTH.limit))
    (fun _ _ => trivial) (by decide) (by decide +kernel)
  exact ⟨tr, redis, hrun, of_decide_eq_true hp⟩

end Stellara.Throttle
