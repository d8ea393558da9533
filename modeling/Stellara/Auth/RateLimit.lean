import Stellara.Lib.Expiring
import Stellara.Lib.Machine
import Mathlib.Data.List.Sort

/-!
# The rate limit of the sign-in routes

`RateLimitService.checkRateLimit`.  For every key Redis has a sorted set with a member for each call
that was allowed: the text of its time, with the time as the score.  A call removes what has left
the window, and is allowed if fewer than `limit` members remain.

    zRemRangeByScore 0 (now - window)   →   zCard   →   zAdd now   →   expire

Calls of one millisecond have one member between them, so that any number of them is allowed while
the set is not full (`limit_exceeded`).  While each call that is allowed adds a member of its own,
the set has as many members in the window as calls were allowed in it (`Counts`).
-/

namespace Stellara.RateLimit

/-! ## Sorted sets -/

/-- A member of a sorted set.  Here each is the text of a number, and is kept as this number. -/
structure Member where
  score : Int
  value : Int
  deriving DecidableEq

/-- The members, each of them once, by their scores. -/
abbrev SortedSet : Type := List Member

def zRemRangeByScore (low high : Int) (set : SortedSet) : SortedSet :=
  set.filter fun x => ¬ (low ≤ x.score ∧ x.score ≤ high)

/-- A member that is there gets the new score. -/
def zAdd (x : Member) (set : SortedSet) : SortedSet :=
  (set.filter fun y => y.value ≠ x.value).orderedInsert (fun a b => a.score ≤ b.score) x

/-- The sets, and when they expire. -/
abbrev Redis : Type := Store String (Expiring SortedSet)

/-- The set under a key, which is empty where there is none. -/
def members (now : Int) (redis : Redis) (key : String) : SortedSet :=
  (Expiring.read now redis key).getD []

/-- When the set under a key expires. -/
def expiry (now : Int) (redis : Redis) (key : String) : Option Int :=
  ((redis.lookup key).filter fun e => e.Live now).bind (·.expiresAt)

/-- A set changes and expires when it did; a set without members is removed. -/
def update (now : Int) (redis : Redis) (key : String) (f : SortedSet → SortedSet) : Redis :=
  match f (members now redis key) with
  | [] => redis.erase key
  | set => redis.insert key ⟨set, expiry now redis key⟩

/-- `EXPIRE`, by which a set is removed at once unless it is given some time. -/
def expire (now : Int) (redis : Redis) (key : String) (seconds : Int) : Redis :=
  match redis.lookup key with
  | some e =>
    if 0 < seconds then redis.insert key ⟨e.value, some (now + seconds * 1000)⟩
    else redis.erase key
  | none => redis

/-! ## The service -/

structure RateLimitOptions where
  limit : Int
  windowSeconds : Int

/-- The window in milliseconds. -/
def RateLimitOptions.window (options : RateLimitOptions) : Int := options.windowSeconds * 1000

structure RateLimitResult where
  allowed : Bool
  remaining : Int
  resetAt : Int

/-- The time of a call, and whether Redis answers then. -/
structure Outside where
  now : Nat
  available : Bool

def redisKey (key : String) : String := "rate_limit:" ++ key

/-- What has not left the window. -/
def current (now : Int) (options : RateLimitOptions) (redis : Redis) (key : String) : SortedSet :=
  zRemRangeByScore 0 (now - options.window) (members now redis (redisKey key))

/-- Where Redis does not answer, the call is allowed. -/
def checkRateLimit (c : Outside) (key : String) (options : RateLimitOptions) (redis : Redis) :
    RateLimitResult × Redis :=
  let now : Int := c.now
  let windowStart := now - options.window
  if c.available then
    let redis := update now redis (redisKey key) (zRemRangeByScore 0 windowStart)
    let requestCount : Int := (members now redis (redisKey key)).length
    if options.limit ≤ requestCount then
      let oldestEntry := (members now redis (redisKey key)).head?
      let resetTime :=
        match oldestEntry with
        | some oldest => oldest.value + options.window
        | none => now + options.window
      ({ allowed := false, remaining := 0, resetAt := resetTime }, redis)
    else
      let redis := update now redis (redisKey key) (zAdd ⟨now, now⟩)
      let redis := expire now redis (redisKey key) options.windowSeconds
      ({ allowed := true, remaining := options.limit - requestCount - 1,
         resetAt := now + options.window }, redis)
  else
    ({ allowed := true, remaining := options.limit, resetAt := now + options.window }, redis)

/-- Calls for any keys while Redis answers, each key with its options. -/
def machine (options : String → RateLimitOptions) :
    Machine Outside String RateLimitResult Empty Redis where
  init redis := redis = ∅
  valid c _ := c.available = true
  clock c := c.now
  exec c key redis := .ok (checkRateLimit c key (options key) redis)

abbrev Call : Type := Event Outside String RateLimitResult Redis

/-! ## One call -/

/-- What is stored under a key, whether it has expired or not. -/
def stored (redis : Redis) (key : String) : SortedSet := (redis.lookup key).elim [] (·.value)

section Update

variable {now : Int} {redis : Redis} {key key' : String} {f : SortedSet → SortedSet}

theorem lookup_update_ne (h : key' ≠ key) :
    (update now redis key f).lookup key' = redis.lookup key' := by
  unfold update
  split
  · rw [Store.lookup_erase_eq, if_neg h]
  · rw [Store.lookup_insert_eq, if_neg h]

theorem lookup_update : (update now redis key f).lookup key =
    if f (members now redis key) = [] then none
    else some ⟨f (members now redis key), expiry now redis key⟩ := by
  unfold update
  split
  · next h => rw [h, if_pos rfl, Store.lookup_erase_eq, if_pos rfl]
  · next h => rw [if_neg h, Store.lookup_insert_eq, if_pos rfl]

theorem stored_update : stored (update now redis key f) key = f (members now redis key) := by
  unfold stored
  rw [lookup_update]
  split
  · next h => rw [h]; rfl
  · rfl

theorem live_expiry (set : SortedSet) :
    Expiring.Live now ⟨set, expiry now redis key⟩ = true := by
  unfold expiry
  cases hold : (redis.lookup key).filter fun e => e.Live now with
  | none => rfl
  | some e => exact (Option.filter_eq_some_iff.mp hold).2

/-- What is changed is there for as long as it was before. -/
theorem members_update : members now (update now redis key f) key = f (members now redis key) := by
  show (Expiring.read now (update now redis key f) key).getD [] = _
  unfold Expiring.read
  rw [lookup_update]
  split
  · next h => rw [h]; rfl
  · rw [Option.filter_some, if_pos (live_expiry _)]
    rfl

theorem lookup_expire_ne {seconds : Int} (h : key' ≠ key) :
    (expire now redis key seconds).lookup key' = redis.lookup key' := by
  unfold expire
  split
  · split
    · rw [Store.lookup_insert_eq, if_neg h]
    · rw [Store.lookup_erase_eq, if_neg h]
  · rfl

theorem lookup_expire {seconds : Int} : (expire now redis key seconds).lookup key =
    if 0 < seconds then
      (redis.lookup key).map fun e => ⟨e.value, some (now + seconds * 1000)⟩
    else none := by
  unfold expire
  cases hlookup : redis.lookup key with
  | none => rw [hlookup, Option.map_none, ite_self]
  | some e =>
    dsimp only
    split
    · rw [Store.lookup_insert_eq, if_pos rfl, Option.map_some]
    · rw [Store.lookup_erase_eq, if_pos rfl]

theorem stored_expire {seconds : Int} :
    stored (expire now redis key seconds) key = if 0 < seconds then stored redis key else [] := by
  unfold stored
  rw [lookup_expire]
  split
  · cases redis.lookup key <;> rfl
  · rfl

end Update

section Check

variable {c : Outside} {key : String} {options : RateLimitOptions} {redis : Redis}

/-- The set is full: nothing is added to what has not left the window. -/
structure Rejected (c : Outside) (key : String) (options : RateLimitOptions) (redis : Redis)
    (r : RateLimitResult × Redis) : Prop where
  full : options.limit ≤ (current c.now options redis key).length
  allowed : r.1.allowed = false
  resetAt : ∀ oldest ∈ (current c.now options redis key).head?,
    r.1.resetAt = oldest.value + options.window
  stored : stored r.2 (redisKey key) = current c.now options redis key
  expiresAt : ∀ e, r.2.lookup (redisKey key) = some e →
    ∃ e₀, redis.lookup (redisKey key) = some e₀ ∧ e.expiresAt = e₀.expiresAt

/-- The time of the call is added. -/
structure Admitted (c : Outside) (key : String) (options : RateLimitOptions) (redis : Redis)
    (r : RateLimitResult × Redis) : Prop where
  room : ((current c.now options redis key).length : Int) < options.limit
  allowed : r.1.allowed = true
  stored : stored r.2 (redisKey key) =
    if 0 < options.windowSeconds then zAdd ⟨c.now, c.now⟩ (current c.now options redis key) else []
  expiresAt : ∀ e, r.2.lookup (redisKey key) = some e →
    e.expiresAt = some (c.now + options.window)

variable (c key options redis) in
/-- **What a call does.** -/
theorem checkRateLimit_cases (h : c.available = true) :
    Rejected c key options redis (checkRateLimit c key options redis) ∨
      Admitted c key options redis (checkRateLimit c key options redis) := by
  have hcurrent : members c.now (update c.now redis (redisKey key)
      (zRemRangeByScore 0 (c.now - options.window))) (redisKey key) =
        current c.now options redis key := members_update
  unfold checkRateLimit
  dsimp only
  rw [if_pos h, hcurrent]
  split
  · next hfull =>
    refine .inl ⟨hfull, rfl, ?_, stored_update, fun e he => ?_⟩
    · intro oldest holdest
      rw [Option.mem_def] at holdest
      dsimp only
      rw [holdest]
    · rw [lookup_update] at he
      split at he
      · cases he
      · next hne =>
        -- a set that has members was there before
        have hsome : (Expiring.read c.now redis (redisKey key)).isSome := by
          cases hread : Expiring.read c.now redis (redisKey key) with
          | some set => rfl
          | none =>
            refine absurd ?_ hne
            unfold members
            rw [hread]
            rfl
        obtain ⟨set, hset⟩ := Option.isSome_iff_exists.mp hsome
        obtain ⟨e₀, he₀, hlive, -⟩ := Expiring.read_eq_some.mp hset
        refine ⟨e₀, he₀, ?_⟩
        rw [← Option.some.inj he]
        unfold expiry
        rw [he₀, Option.filter_some, if_pos hlive]
        rfl
  · next hroom =>
    refine .inr ⟨Int.lt_of_not_ge hroom, rfl, ?_, fun e he => ?_⟩
    · rw [stored_expire, stored_update, hcurrent]
    · rw [lookup_expire] at he
      split at he
      · obtain ⟨e₀, -, rfl⟩ := Option.map_eq_some_iff.mp he
        rfl
      · cases he

variable (c key options redis) in
/-- A call leaves the other keys as they are. -/
theorem lookup_checkRateLimit_ne {key' : String} (h : key' ≠ key) :
    (checkRateLimit c key options redis).2.lookup (redisKey key') =
      redis.lookup (redisKey key') := by
  have hne : redisKey key' ≠ redisKey key := fun heq => h (String.append_right_inj _ |>.mp heq)
  unfold checkRateLimit
  dsimp only
  split
  · split
    · exact lookup_update_ne hne
    · rw [lookup_expire_ne hne, lookup_update_ne hne, lookup_update_ne hne]
  · rfl

end Check

/-! ## Runs -/

/-- The calls for `key` that were allowed from `first` on and before `last`. -/
def admitted (key : String) (first last : Int) (tr : List Call) : Nat :=
  tr.countP fun e =>
    e.call = key ∧ e.ret.allowed = true ∧ first ≤ e.env.now ∧ (e.env.now : Int) < last

/-- The calls for `key` that were allowed after `t`. -/
def admittedAfter (key : String) (t : Int) (tr : List Call) : Nat :=
  tr.countP fun e => e.call = key ∧ e.ret.allowed = true ∧ t < e.env.now

/-- A call finds its own time among the members only where the set is full. -/
def Distinct (options : String → RateLimitOptions) (e : Call) : Prop :=
  let set := current e.env.now (options e.call) e.before e.call
  (∃ x ∈ set, x.value = e.env.now) → (options e.call).limit ≤ set.length

instance (options : String → RateLimitOptions) : DecidablePred (Distinct options) := fun _ =>
  inferInstanceAs (Decidable (_ → _))

/-- At the time that a rejected call is given, the next call would be allowed. -/
def Reopens (options : String → RateLimitOptions) (e : Call) : Prop :=
  ∃ now : Nat, (now : Int) = e.ret.resetAt ∧ e.env.now ≤ now ∧
    (checkRateLimit ⟨now, true⟩ e.call (options e.call) e.after).1.allowed = true

/-- The members are texts of their scores, and no more of them than the limit. -/
structure Kept (options : String → RateLimitOptions) (redis : Redis) (key : String) : Prop where
  scores : ∀ x ∈ stored redis (redisKey key), x.score = x.value ∧ 0 ≤ x.score
  length : ((stored redis (redisKey key)).length : Int) ≤ (options key).limit

/-- The members that are in a window are as many as the calls that were allowed in it. -/
structure Counts (options : String → RateLimitOptions) (tr : List Call) (redis : Redis)
    (key : String) : Prop where
  counts : ∀ n : Int, (∀ e ∈ tr, (e.env.now : Int) ≤ n) →
    admittedAfter key (n - (options key).window) tr =
      (stored redis (redisKey key)).countP fun x => n - (options key).window < x.score
  expiresAt : ∀ e, redis.lookup (redisKey key) = some e →
    ∃ t, e.expiresAt = some t ∧ ∀ call ∈ tr, call.call = key → call.ret.allowed = true →
      call.env.now + (options key).window ≤ t

section Runs

variable {options : String → RateLimitOptions} {tr : List Call} {redis : Redis} {key : String}
  {c : Outside} {o : RateLimitOptions}

theorem members_cases (now : Int) (redis : Redis) (key : String) :
    members now redis key = stored redis key ∨
      members now redis key = [] ∧
        ∀ e, redis.lookup key = some e → ∃ t, e.expiresAt = some t ∧ t ≤ now := by
  unfold members Expiring.read stored
  cases hlookup : redis.lookup key with
  | none => exact .inl rfl
  | some e =>
    cases hlive : e.Live now with
    | true =>
      rw [Option.filter_some, if_pos hlive]
      exact .inl rfl
    | false =>
      rw [Option.filter_some, if_neg (by rw [hlive]; exact Bool.false_ne_true)]
      refine .inr ⟨rfl, ?_⟩
      rintro _ ⟨⟩
      unfold Expiring.Live at hlive
      cases ht : e.expiresAt with
      | none =>
        rw [ht] at hlive
        cases hlive
      | some t =>
        rw [ht, Option.all_some, decide_eq_false_iff_not] at hlive
        exact ⟨t, rfl, by omega⟩

theorem mem_members {x : Member} {now : Int} (h : x ∈ members now redis key) :
    x ∈ stored redis key := by
  rcases members_cases now redis key with heq | ⟨heq, -⟩
  · rwa [heq] at h
  · rw [heq] at h
    cases h

theorem length_members {now : Int} :
    (members now redis key).length ≤ (stored redis key).length := by
  rcases members_cases now redis key with heq | ⟨heq, -⟩
  · rw [heq]
  · rw [heq]
    exact Nat.zero_le _

theorem mem_current {x : Member} {now : Int} : x ∈ current now o redis key ↔
    x ∈ members now redis (redisKey key) ∧ ¬ (0 ≤ x.score ∧ x.score ≤ now - o.window) := by
  unfold current zRemRangeByScore
  rw [List.mem_filter, decide_eq_true_eq]

theorem length_current {now : Int} :
    (current now o redis key).length ≤ (stored redis (redisKey key)).length :=
  Nat.le_trans (List.length_filter_le _ _) length_members

theorem mem_zAdd {x y : Member} {set : SortedSet} (h : y ∈ zAdd x set) : y = x ∨ y ∈ set := by
  unfold zAdd at h
  exact (List.mem_orderedInsert _).mp h |>.imp_right List.mem_of_mem_filter

theorem length_zAdd {x : Member} {set : SortedSet} : (zAdd x set).length ≤ set.length + 1 := by
  unfold zAdd
  rw [List.orderedInsert_length]
  exact Nat.succ_le_succ (List.length_filter_le _ _)

/-- A new member is one more. -/
theorem countP_zAdd {x : Member} {set : SortedSet} (p : Member → Bool)
    (h : ∀ y ∈ set, y.value ≠ x.value) :
    (zAdd x set).countP p = set.countP p + if p x then 1 else 0 := by
  unfold zAdd
  rw [List.filter_eq_self.mpr fun y hy => decide_eq_true (h y hy),
    (List.perm_orderedInsert _ x set).countP_eq, List.countP_cons]

theorem Kept.step (h : Kept options redis key) (hlimit : ∀ key, 1 ≤ (options key).limit)
    (hc : c.available = true) (key' : String) :
    Kept options (checkRateLimit c key' (options key') redis).2 key := by
  by_cases hkey : key = key'
  · subst hkey
    have hscores : ∀ x ∈ current c.now (options key) redis key, x.score = x.value ∧ 0 ≤ x.score :=
      fun x hx => h.scores x (mem_members (mem_current.mp hx).1)
    rcases checkRateLimit_cases _ _ _ _ hc with hr | hr
    · refine ⟨?_, ?_⟩
      · rw [hr.stored]
        exact hscores
      · rw [hr.stored]
        have hle : (current c.now (options key) redis key).length ≤ _ := length_current
        have := h.length
        omega
    · refine ⟨?_, ?_⟩
      · rw [hr.stored]
        split
        · intro x hx
          rcases mem_zAdd hx with rfl | hx
          · exact ⟨rfl, Int.natCast_nonneg _⟩
          · exact hscores x hx
        · exact List.forall_mem_nil _
      · rw [hr.stored]
        split
        · have hle : (zAdd ⟨c.now, c.now⟩ (current c.now (options key) redis key)).length ≤ _ :=
            length_zAdd
          have := hr.room
          omega
        · have := hlimit key
          rw [List.length_nil]
          omega
  · have hstored : stored (checkRateLimit c key' (options key') redis).2 (redisKey key) =
        stored redis (redisKey key) := by
      unfold stored
      rw [lookup_checkRateLimit_ne _ _ _ _ hkey]
    exact ⟨hstored ▸ h.scores, hstored ▸ h.length⟩

theorem kept_run (hlimit : ∀ key, 1 ≤ (options key).limit) (h : Run (machine options) tr redis)
    (key : String) : Kept options redis key := by
  refine h.invariant (I := fun redis => Kept options redis key) ?_ ?_
  · rintro redis rfl
    refine ⟨List.forall_mem_nil _, ?_⟩
    have := hlimit key
    show ((0 : Nat) : Int) ≤ _
    omega
  · intro c key' r redis redis' hc hI hx
    have hstep := hI.step hlimit hc key'
    rwa [Except.ok.inj hx] at hstep

/-- **A rejected call** is given a time at which the next one would be allowed. -/
theorem reopens_of_rejected (hlimit : ∀ key, 1 ≤ (options key).limit) {e : Call}
    (h : Run (machine options) tr e.before) (hc : e.env.available = true)
    (hx : (machine options).exec e.env e.call e.before = .ok (e.ret, e.after))
    (hrejected : e.ret.allowed = false) : Reopens options e := by
  have hr := checkRateLimit_cases _ e.call (options e.call) e.before hc
  rw [Except.ok.inj hx] at hr
  rcases hr with hr | hr
  · have hkept := kept_run hlimit h e.call
    cases hset : current e.env.now (options e.call) e.before e.call with
    | nil =>
      have hfull := hr.full
      rw [hset, List.length_nil] at hfull
      have := hlimit e.call
      omega
    | cons oldest rest =>
      have hmem : oldest ∈ current e.env.now (options e.call) e.before e.call := by
        rw [hset]
        exact List.mem_cons_self
      obtain ⟨hmembers, hwindow⟩ := mem_current.mp hmem
      obtain ⟨hscore, hpos⟩ := hkept.scores oldest (mem_members hmembers)
      have hreset : e.ret.resetAt = oldest.value + (options e.call).window :=
        hr.resetAt oldest (by rw [hset]; rfl)
      obtain ⟨now, hnow⟩ := Int.eq_ofNat_of_zero_le (show 0 ≤ e.ret.resetAt by omega)
      refine ⟨now, hnow.symm, by omega, ?_⟩
      -- the oldest member has left the window then
      have hlt : (current now (options e.call) e.after e.call).length <
          (oldest :: rest).length := by
        unfold current
        rcases members_cases now e.after (redisKey e.call) with heq | ⟨heq, -⟩
        · rw [heq, hr.stored, hset]
          refine List.length_filter_lt_length_iff_exists.mpr ⟨oldest, List.mem_cons_self, ?_⟩
          rw [decide_eq_true_eq, not_not]
          omega
        · rw [heq]
          exact Nat.succ_pos _
      have hle : (current e.env.now (options e.call) e.before e.call).length ≤ _ := length_current
      rw [hset] at hle
      have hlength := hkept.length
      rcases checkRateLimit_cases ⟨now, true⟩ e.call (options e.call) e.after rfl with hnext | hnext
      · have hfull := hnext.full
        dsimp only at hfull
        omega
      · exact hnext.allowed
  · rw [hr.allowed] at hrejected
    cases hrejected

/-! ## The members and the calls -/

theorem admittedAfter_eq_zero {t : Int}
    (h : ∀ e ∈ tr, e.call = key → e.ret.allowed = true → (e.env.now : Int) ≤ t) :
    admittedAfter key t tr = 0 := by
  refine List.countP_eq_zero.mpr fun e he => ?_
  rw [decide_eq_true_eq]
  rintro ⟨hkey, hallowed, hlt⟩
  have := h e he hkey hallowed
  omega

section Counts

variable {now n : Int} (h : Counts options tr redis key) (htr : ∀ e ∈ tr, (e.env.now : Int) ≤ now)
include h htr

theorem Counts.countP_members (hn : now ≤ n) :
    ((members now redis (redisKey key)).countP fun x => n - (options key).window < x.score) =
      admittedAfter key (n - (options key).window) tr := by
  have hcounts := h.counts n fun e he => Int.le_trans (htr e he) hn
  rcases members_cases now redis (redisKey key) with heq | ⟨heq, hexpired⟩
  · rw [heq, hcounts]
  · cases hlookup : redis.lookup (redisKey key) with
    | none =>
      rw [hcounts, heq]
      unfold stored
      rw [hlookup]
      rfl
    | some e =>
      -- a set that has expired has no member in the window
      obtain ⟨t, ht, hle⟩ := hexpired e hlookup
      obtain ⟨t', ht', hcalls⟩ := h.expiresAt e hlookup
      obtain rfl : t = t' := Option.some.inj (ht.symm.trans ht')
      rw [heq, admittedAfter_eq_zero fun call hcall hkey hallowed => ?_]
      · rfl
      · have := hcalls call hcall hkey hallowed
        omega

theorem Counts.countP_current (hn : now ≤ n) :
    ((current now (options key) redis key).countP fun x => n - (options key).window < x.score) =
      admittedAfter key (n - (options key).window) tr := by
  rw [← h.countP_members htr hn]
  unfold current zRemRangeByScore
  rw [List.countP_filter]
  refine List.countP_congr fun x _ => ?_
  rw [Bool.and_eq_true, decide_eq_true_eq, decide_eq_true_eq]
  omega

/-- What has not left the window are the calls that were allowed in it. -/
theorem Counts.length_current (hkept : Kept options redis key) :
    (current now (options key) redis key).length =
      admittedAfter key (now - (options key).window) tr := by
  rw [← h.countP_current htr (Int.le_refl now)]
  refine (List.countP_eq_length.mpr fun x hx => ?_).symm
  obtain ⟨hmembers, hwindow⟩ := mem_current.mp hx
  have := (hkept.scores x (mem_members hmembers)).2
  rw [decide_eq_true_eq]
  omega

end Counts

theorem Counts.step {e : Call} (h : Counts options tr redis key) (hbefore : e.before = redis)
    (hc : e.env.available = true) (htr : ∀ e' ∈ tr, e'.env.now ≤ e.env.now)
    (hx : checkRateLimit e.env e.call (options e.call) redis = (e.ret, e.after))
    (hdistinct : Distinct options e) : Counts options (e :: tr) e.after key := by
  have htr : ∀ e' ∈ tr, (e'.env.now : Int) ≤ e.env.now := fun e' he' =>
    Int.ofNat_le.mpr (htr e' he')
  by_cases hkey : e.call = key
  · subst hkey
    have hcases := checkRateLimit_cases _ e.call (options e.call) redis hc
    rw [hx] at hcases
    rcases hcases with hr | hr
    · have hallowed : e.ret.allowed = false := hr.allowed
      refine ⟨fun n hn => ?_, fun x hlookup => ?_⟩
      · have hnow := hn e List.mem_cons_self
        rw [hr.stored, h.countP_current htr hnow]
        unfold admittedAfter
        rw [List.countP_cons, hallowed]
        simp
      · obtain ⟨x₀, hx₀, heq⟩ := hr.expiresAt x hlookup
        obtain ⟨t, ht, hcalls⟩ := h.expiresAt x₀ hx₀
        refine ⟨t, heq.trans ht, List.forall_mem_cons.mpr ⟨fun _ htrue => ?_, hcalls⟩⟩
        rw [hallowed] at htrue
        cases htrue
    · have hallowed : e.ret.allowed = true := hr.allowed
      refine ⟨fun n hn => ?_, fun x hlookup => ⟨_, hr.expiresAt x hlookup, ?_⟩⟩
      · have hnow := hn e List.mem_cons_self
        rw [hr.stored]
        split
        · have hnew : ∀ y ∈ current e.env.now (options e.call) redis e.call,
              y.value ≠ (⟨e.env.now, e.env.now⟩ : Member).value := by
            intro y hy heq
            have hfull : ((options e.call).limit : Int) ≤ _ := hdistinct (by
              rw [hbefore]
              exact ⟨y, hy, heq⟩)
            rw [hbefore] at hfull
            have := hr.room
            omega
          rw [countP_zAdd _ hnew, h.countP_current htr hnow]
          unfold admittedAfter
          rw [List.countP_cons, hallowed]
          simp
        · next hwindow =>
          refine admittedAfter_eq_zero fun e' he' _ _ => ?_
          have := hn e' he'
          unfold RateLimitOptions.window
          omega
      · refine List.forall_mem_cons.mpr ⟨fun _ _ => Int.le_refl _, fun e' he' _ _ => ?_⟩
        have := htr e' he'
        omega
  · have hlookup : e.after.lookup (redisKey key) = redis.lookup (redisKey key) := by
      have hne := lookup_checkRateLimit_ne e.env e.call (options e.call) redis (Ne.symm hkey)
      rwa [hx] at hne
    refine ⟨fun n hn => ?_, fun x hx' => ?_⟩
    · have hcounts := h.counts n fun e' he' => hn e' (List.mem_cons_of_mem _ he')
      unfold stored at hcounts ⊢
      rw [hlookup, ← hcounts]
      unfold admittedAfter
      rw [List.countP_cons]
      simp [hkey]
    · obtain ⟨t, ht, hcalls⟩ := h.expiresAt x (hlookup ▸ hx')
      exact ⟨t, ht, List.forall_mem_cons.mpr ⟨fun heq => absurd heq hkey, hcalls⟩⟩

theorem counts_run (h : Run (machine options) tr redis) (hdistinct : ∀ e ∈ tr, Distinct options e)
    (key : String) : Counts options tr redis key := by
  induction h with
  | start h =>
    obtain rfl := h
    exact ⟨fun n _ => rfl, fun e he => by cases he⟩
  | @commit tr s s' c call r h hv hc hx ih =>
    rw [List.forall_mem_cons] at hdistinct
    exact (ih hdistinct.2).step (e := ⟨c, call, r, s, s'⟩) rfl hv hc (Except.ok.inj hx) hdistinct.1

/-- An interval that ends with the window of a call has no other calls than this window. -/
theorem admitted_le {t now window : Int} (ht : now < t + window) :
    admitted key t (t + window) tr ≤ admittedAfter key (now - window) tr := by
  refine List.countP_mono_left fun e _ he => ?_
  rw [decide_eq_true_eq] at he ⊢
  obtain ⟨hkey, hallowed, hfirst, -⟩ := he
  exact ⟨hkey, hallowed, by omega⟩

/-- **At most `limit` calls** are allowed in a window, while each of them has its own member. -/
theorem admitted_le_limit (hlimit : ∀ key, 1 ≤ (options key).limit)
    (h : Run (machine options) tr redis) (hdistinct : ∀ e ∈ tr, Distinct options e)
    (key : String) (t : Int) :
    (admitted key t (t + (options key).window) tr : Int) ≤ (options key).limit := by
  induction h with
  | start h =>
    have := hlimit key
    show ((0 : Nat) : Int) ≤ _
    omega
  | @commit tr s s' c call r h hv hc hx ih =>
    rw [List.forall_mem_cons] at hdistinct
    have ih := ih hdistinct.2
    unfold admitted at ih ⊢
    rw [List.countP_cons]
    split
    · next hnew =>
      rw [decide_eq_true_eq] at hnew
      obtain ⟨hkey, hallowed, hfirst, hlast⟩ := hnew
      dsimp only at hkey hallowed hfirst hlast
      subst hkey
      have hcases := checkRateLimit_cases c call (options call) s hv
      rw [Except.ok.inj hx] at hcases
      rcases hcases with hr | hr
      · have hrejected : r.allowed = false := hr.allowed
        rw [hallowed] at hrejected
        cases hrejected
      · -- the calls of the interval are among the members, which are fewer than the limit
        have hroom : ((current c.now (options call) s call).length : Int) < _ := hr.room
        have htr : ∀ e ∈ tr, (e.env.now : Int) ≤ c.now := fun e he => Int.ofNat_le.mpr (hc e he)
        rw [(counts_run h hdistinct.2 call).length_current htr
          (kept_run hlimit h call)] at hroom
        have hle : admitted call t (t + (options call).window) tr ≤
            admittedAfter call (c.now - (options call).window) tr := admitted_le hlast
        unfold admitted at hle
        omega
    · exact ih

/-- **The rate limit.**  While a call finds its own time among the members only where the set is
full, no window has more than `limit` allowed calls, and a rejected call is told a time at which
the next one would be allowed. -/
theorem limit_kept (hlimit : ∀ key, 1 ≤ (options key).limit) (h : Run (machine options) tr redis)
    (hdistinct : ∀ e ∈ tr, Distinct options e) :
    (∀ key t, (admitted key t (t + (options key).window) tr : Int) ≤ (options key).limit) ∧
      ∀ e ∈ tr, e.ret.allowed = false → Reopens options e := by
  refine ⟨admitted_le_limit hlimit h hdistinct, fun e he hrejected => ?_⟩
  obtain ⟨tr', hrun, hv, hx⟩ := h.of_mem he
  exact reopens_of_rejected hlimit hrun hv hx hrejected

end Runs

/-! ## Examples -/

/-- Two calls in ten seconds. -/
def twice (_ : String) : RateLimitOptions := { limit := 2, windowSeconds := 10 }

theorem one_le_limit_twice (key : String) : 1 ≤ (twice key).limit := by
  unfold twice
  decide

/-- Calls for one key at the given times. -/
def callsAt (times : List Nat) : List (Outside × String) :=
  times.map fun now => ({ now := now, available := true }, "ip:10.0.0.1:login")

theorem valid_callsAt (times : List Nat) :
    ∀ x ∈ callsAt times, (machine twice).valid x.1 x.2 := by
  intro x hx
  obtain ⟨now, -, rfl⟩ := List.mem_map.mp hx
  rfl

theorem limit_kept_twice :
    ∃ tr redis, Run (machine twice) tr redis ∧
      ((∀ key t, (admitted key t (t + (twice key).window) tr : Int) ≤ (twice key).limit) ∧
        ∀ e ∈ tr, e.ret.allowed = false → Reopens twice e) ∧
      (tr.map fun e => e.ret.allowed) = [true, false, true, true] := by
  obtain ⟨tr, redis, hrun, hp⟩ := Machine.exists_run_of_replay (m := machine twice) (s := ∅) rfl
    (callsAt [1000, 4000, 5000, 12000])
    (fun tr _ => decide ((∀ e ∈ tr, Distinct twice e) ∧
      (tr.map fun e => e.ret.allowed) = [true, false, true, true]))
    (valid_callsAt _) (by decide) (by decide +kernel)
  obtain ⟨hdistinct, hallowed⟩ := of_decide_eq_true hp
  exact ⟨tr, redis, hrun, limit_kept one_le_limit_twice hrun hdistinct, hallowed⟩

/-- Three calls of one millisecond are all allowed, where two are in ten seconds. -/
theorem limit_exceeded :
    ∃ tr redis, Run (machine twice) tr redis ∧
      ¬ (admitted "ip:10.0.0.1:login" 1000 (1000 + (twice "ip:10.0.0.1:login").window) tr : Int) ≤
        (twice "ip:10.0.0.1:login").limit := by
  obtain ⟨tr, redis, hrun, hp⟩ := Machine.exists_run_of_replay (m := machine twice) (s := ∅) rfl
    (callsAt [1000, 1000, 1000])
    (fun tr _ => decide (¬ (admitted "ip:10.0.0.1:login" 1000
      (1000 + (twice "ip:10.0.0.1:login").window) tr : Int) ≤ (twice "ip:10.0.0.1:login").limit))
    (valid_callsAt _) (by decide) (by decide +kernel)
  exact ⟨tr, redis, hrun, of_decide_eq_true hp⟩

end Stellara.RateLimit
