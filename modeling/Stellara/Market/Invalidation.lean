import Mathlib.Data.Set.Function
import Stellara.Market.Model

/-!
# Prices after an update

An update has the keys scanned that match `price:data:XLM*`, but prices are stored under digests:

    set  price:data:0693274beb5d2451     keys price:data:XLM*     →  nothing found

and a price that is on its way from the API is stored after the scan:

    call:     fetch                        set
    event:           emit   keys   del

If every scan finds the outdated prices of its asset, and none of them is on its way then, no call
that starts after the handling of an event returns a price from before it (`prices_refetched`).
-/

namespace Stellara.Market

open Block MarketCacheService MarketDataService
open Async (Answered obeying interleave_obeys_from)

/-- An event of the asset was emitted after the price was fetched. -/
def World.Outdates (w : World) (q : Quote) : Prop := q.dto.code ∈ w.events.drop q.fetchedAt

/-- The scan with this pattern is for the price's asset. -/
def Quote.SoughtBy (q : Quote) (pattern : String) : Prop :=
  searchPattern q.dto.code .priceData = pattern

instance (w : World) (q : Quote) : Decidable (w.Outdates q) :=
  inferInstanceAs (Decidable (_ ∈ _))

instance (q : Quote) (pattern : String) : Decidable (q.SoughtBy pattern) :=
  inferInstanceAs (Decidable (_ = _))

/-- The price that a call is about to store. -/
def storing : Async Request Answer (Except String Price) → Option Quote
  | .await (.setPrice _ value _) _ => some value
  | _ => none

/-- The pattern matches the keys of all outdated prices of its asset, and none of them is about
to be stored. -/
def Thorough (server : Server) (pattern : String) (w : World)
    (tasks : List (Async Request Answer (Except String Price))) : Prop :=
  (∀ key ∈ w.prices.keys, ∀ q ∈ w.prices.lookup key,
    q.SoughtBy pattern → w.Outdates q → server.glob pattern key = true) ∧
  ∀ p ∈ tasks, ∀ q ∈ storing p, q.SoughtBy pattern → ¬ w.Outdates q

instance (server : Server) (pattern : String) (w : World)
    (tasks : List (Async Request Answer (Except String Price))) :
    Decidable (Thorough server pattern w tasks) :=
  inferInstanceAs (Decidable (_ ∧ _))

/-- A scan in this step is thorough. -/
def StepThorough (server : Server) (e : Event Outside (Async.Move Operation) Unit System) : Prop :=
  match e.call with
  | .start _ => True
  | .resume i =>
    match e.before.awaited i with
    | some (.keys pattern) =>
      Thorough server pattern (e.before.world.remove e.env.expired) e.before.tasks
    | _ => True

instance (server : Server) : DecidablePred (StepThorough server) := fun e => by
  unfold StepThorough
  split
  · infer_instance
  · split <;> infer_instance

/-- What the digests of the given keys are stored under. -/
def storageKey (server : Server) (key : String) : String := generateCacheKey server key .priceData

/-- The keys that the calls of a run look up. -/
def lookedUp (tr : Trace) : Set String :=
  {key | ∃ e ∈ tr, ∃ assetCode issuer, e.call = .start (.getAssetPrice assetCode issuer) ∧
    key = priceKey assetCode issuer}

/-- No call that starts when an update of its asset has been handled returns a price that was
fetched before that update. -/
def Refetched (tr : Trace) (t : System) : Prop :=
  ∀ e ∈ tr, ∀ assetCode issuer, e.call = .start (.getAssetPrice assetCode issuer) →
    ∀ nr ∈ e.before.world.handled, e.before.world.events[nr]? = some assetCode →
      ∀ q, t.tasks[e.before.tasks.length]? = some (.done (.ok (some q))) → nr < q.fetchedAt

namespace Invalidation

/-! ## The table of prices -/

/-- Where a list is cut at a character that it has once. -/
theorem cut_eq {α : Type} {c : α} {xs ys us vs : List α} (h : xs ++ c :: ys = us ++ c :: vs)
    (hus : c ∉ us) (hvs : c ∉ vs) : xs = us := by
  rcases List.append_eq_append_iff.mp h with ⟨zs, rfl, hz⟩ | ⟨zs, rfl, hz⟩
  · cases zs with
    | nil => rw [List.append_nil]
    | cons z zs =>
      rw [List.cons_append] at hz
      obtain ⟨rfl, -⟩ := List.cons.inj hz
      exact absurd (List.mem_append_right _ List.mem_cons_self) hus
  · cases zs with
    | nil => rw [List.append_nil]
    | cons z zs =>
      rw [List.cons_append] at hz
      obtain ⟨-, rfl⟩ := List.cons.inj hz
      exact absurd (List.mem_append_right _ List.mem_cons_self) hvs

theorem priceKey_eq {assetCode issuer : String} (code rest : String) (hcode : ':' ∉ code.toList)
    (hrest : ':' ∉ rest.toList) (h : priceKey assetCode issuer = code ++ ":" ++ rest) :
    assetCode = code := by
  have hlist := congrArg String.toList h
  simp only [priceKey, String.toList_append] at hlist
  rw [List.append_assoc, List.append_assoc] at hlist
  exact String.toList_inj.mp (cut_eq hlist hcode hrest)

/-- A price of the table is one of the asset that it is looked up for. -/
theorem mockPrices_code {assetCode issuer : String} {dto : AssetPriceDto}
    (h : mockPrices (priceKey assetCode issuer) = some dto) : dto.code = assetCode := by
  unfold mockPrices at h
  split at h
  · next hkey =>
    cases h
    exact (priceKey_eq "XLM" "native" (by decide) (by decide) hkey).symm
  · split at h
    · next hkey =>
      cases h
      exact (priceKey_eq "USDC" "GA5ZSEJYB37JRC5AVCIA5MOP4RHTM335X2KGX3IHOJAPP5RE34K4KZVN"
        (by decide) (by decide) hkey).symm
    · cases h

/-! ## The way of a call, and of an event -/

inductive Point
  | calling (key : String)
  | hit (key : String) (value : Quote)
  | missed (key : String)
  | fetched (key : String) (fetchedAt : Nat)
  | stored (key : String) (value : Quote)
  | updating (assetCode : String)
  | scanning (assetCode : String) (nr : Nat)
  | deleting (assetCode : String) (nr : Nat) (keys : List String)
  | swept (assetCode : String) (nr : Nat)

/-- The key that a call looks up. -/
def Point.key : Point → Option String
  | .calling key | .hit key _ | .missed key | .fetched key _ | .stored key _ => some key
  | _ => none

/-- The event that is being handled. -/
def Point.event : Point → Option (String × Nat)
  | .scanning assetCode nr | .deleting assetCode nr _ | .swept assetCode nr => some (assetCode, nr)
  | _ => none

/-- The price that is fetched and not stored. -/
def Point.coming : Point → Option Quote
  | .fetched key fetchedAt => (mockPrices key).map fun dto => ⟨dto, fetchedAt⟩
  | _ => none

/-- What the call has got was fetched after the event with this number. -/
def Point.After (nr : Nat) : Point → Prop
  | .hit _ value | .stored _ value => nr < value.fetchedAt
  | .fetched _ fetchedAt => nr < fetchedAt
  | _ => True

variable (server : Server)

def asks : Point → Request → Prop
  | .calling key, .get storage => storage = storageKey server key
  | .hit _ _, .incr _ | .missed _, .incr _ | .missed _, .timeout _ => True
  | .fetched key fetchedAt, .setPrice storage value _ =>
    storage = storageKey server key ∧ value.fetchedAt = fetchedAt ∧ mockPrices key = some value.dto
  | .stored _ _, .setMetadata _ _ _ | .stored _ _, .incr _ => True
  | .updating assetCode, .emitUpdated event => event.assetCode = assetCode
  | .scanning assetCode _, .keys pattern => pattern = searchPattern assetCode .priceData
  | .deleting _ _ keys, .del deleted => deleted = keys
  | .swept _ _, .keys _ | .swept _ _, .del _ => True
  | .swept _ nr, .emitInvalidated _ _ handled => handled = nr
  | _, _ => False

/-- Redis does not reject. -/
def told : (a : Request) → Answer a → Prop
  | .get _, r => ∃ x, r = .ok x
  | .keys _, r => ∃ x, r = .ok x
  | .incr _, r | .setPrice _ _ _, r | .setMetadata _ _ _, r | .del _, r => r = .ok ()
  | _, _ => True

def next : Point → (a : Request) → Answer a → Point
  | .calling key, .get _, .ok (some value) => .hit key value
  | .calling key, .get _, .ok none => .missed key
  | .missed key, .timeout _, n => .fetched key n
  | .fetched key _, .setPrice _ value _, _ => .stored key value
  | .updating assetCode, .emitUpdated _, nr => .scanning assetCode nr
  | .scanning assetCode nr, .keys _, .ok [] => .swept assetCode nr
  | .scanning assetCode nr, .keys _, .ok (key :: keys) => .deleting assetCode nr (key :: keys)
  | .deleting assetCode nr _, .del _, _ => .swept assetCode nr
  | g, _, _ => g

abbrev protocol : Protocol Request Answer Point := ⟨asks server, fun _ => told, next⟩

def begin : Operation → Point
  | .getAssetPrice assetCode issuer => .calling (priceKey assetCode issuer)
  | .assetUpdated event => .updating event.assetCode

/-- A call returns what it has got, and has stored what it has fetched. -/
def End (x : Except String Price) (g : Point) : Prop :=
  g.coming = none ∧ ∀ q, x = .ok (some q) → ∃ key, g = .hit key q ∨ g = .stored key q

section Programs

variable {server}

/-- A block that nothing is thrown in. -/
abbrev Obeys {α : Type} (server : Server) (m : On α) (Q : α → Point → Prop) (g : Point) : Prop :=
  wp (obeying (protocol server)) m (fun x _ g => Q x g) (fun _ _ _ => False) () g

theorem Obeys.catch {α : Type} {m : On α} {f : String → On α} {Q : α → Point → Prop} {g : Point}
    (h : Obeys server m Q g) : Obeys server (tryCatch m f) Q g := by
  unfold Obeys
  rw [wp_tryCatch]
  exact wp_mono (fun _ _ _ h => h) (fun _ _ _ h => h.elim) h

theorem Obeys.bind {α β : Type} {m : On α} {f : α → On β} {P : α → Point → Prop}
    {Q : β → Point → Prop} {g : Point} (hm : Obeys server m P g)
    (hf : ∀ x g', P x g' → Obeys server (f x) Q g') : Obeys server (m >>= f) Q g := by
  unfold Obeys
  rw [wp_bind]
  exact wp_mono (fun x _ g' h => hf x g' h) (fun _ _ _ h => h) hm

/-- First a command that leads nowhere. -/
theorem Obeys.before {β : Type} {m : On Unit} {f : Unit → On β} {Q : β → Point → Prop} {g : Point}
    (hm : Obeys server m (fun _ g' => g' = g) g) (hf : Obeys server (f ()) Q g) :
    Obeys server (m >>= f) Q g :=
  hm.bind fun _ _ h => h ▸ hf

theorem incr_obeys {key : String} {g : Point} (hasks : asks server g (.incr key)) :
    Obeys server (incr key) (fun _ g' => g' = g) g := by
  refine ⟨hasks, fun r hr => ?_⟩
  cases (show r = .ok () from hr)
  cases g <;> rfl

theorem setMetadata_obeys {key : String} {ttl : Nat} {ns : CacheNamespace} {g : Point}
    (hasks : asks server g (.setMetadata key ttl ns)) :
    Obeys server (setMetadata key ttl ns) (fun _ g' => g' = g) g := by
  refine ⟨hasks, fun r hr => ?_⟩
  cases (show r = .ok () from hr)
  cases g <;> rfl

/-- A hit is returned, and nothing has been fetched. -/
theorem get_obeys {key : String} :
    Obeys server (MarketCacheService.get server key .priceData)
      (fun x g => match x with
        | some q => g = .hit key q
        | none => g = .missed key) (.calling key) := by
  refine .catch ?_
  show Obeys server (Market.get _ >>= _) _ _
  unfold Obeys
  rw [wp_bind]
  refine ⟨rfl, fun r hr => ?_⟩
  obtain ⟨cached, rfl⟩ := hr
  cases cached with
  | some value =>
    show Obeys server (incr _ >>= fun _ => incr _ >>= fun _ => pure _) _ (.hit key value)
    exact (incr_obeys (by trivial)).before ((incr_obeys (by trivial)).before rfl)
  | none =>
    show Obeys server (incr _ >>= fun _ => incr _ >>= fun _ => pure _) _ (.missed key)
    exact (incr_obeys (by trivial)).before ((incr_obeys (by trivial)).before rfl)

theorem set_obeys {key : String} {value : Quote} {ttl : Option Nat}
    (h : mockPrices key = some value.dto) :
    Obeys server (MarketCacheService.set server key value .priceData ttl)
      (fun _ g => g = .stored key value) (.fetched key value.fetchedAt) := by
  refine .catch ?_
  show Obeys server (setPrice _ _ _ >>= _) _ _
  unfold Obeys
  rw [wp_bind]
  refine ⟨⟨rfl, rfl, h⟩, fun r hr => ?_⟩
  cases (show r = .ok () from hr)
  show Obeys server (setMetadata _ _ _ >>= fun _ => incr _) _ (.stored key value)
  exact (setMetadata_obeys (by trivial)).before (incr_obeys (by trivial))

theorem getAssetPrice_obeys {assetCode issuer : String} :
    Obeys server (getAssetPrice server assetCode issuer) (fun x g => End (.ok x) g)
      (.calling (priceKey assetCode issuer)) := by
  refine get_obeys.bind fun cached g hg => ?_
  cases cached with
  | some q =>
    subst hg
    refine ⟨rfl, fun q' h => ?_⟩
    cases h
    exact ⟨_, .inl rfl⟩
  | none =>
    subst hg
    show Obeys server (timeout 300 >>= _ >>= _) _ _
    unfold Obeys
    rw [wp_bind, wp_bind]
    refine ⟨trivial, fun fetchedAt _ => ?_⟩
    show Obeys server
      (match (mockPrices (priceKey assetCode issuer)).map fun dto => (⟨dto, fetchedAt⟩ : Quote) with
        | some value =>
          MarketCacheService.set server (priceKey assetCode issuer) value .priceData none >>=
            fun _ => pure (some value)
        | none => pure none) _ (.fetched (priceKey assetCode issuer) fetchedAt)
    cases hmock : mockPrices (priceKey assetCode issuer) with
    | none =>
      refine ⟨?_, fun q h => by cases h⟩
      simp only [Point.coming, hmock, Option.map_none]
    | some dto =>
      refine Obeys.bind (set_obeys hmock) fun _ g hg => ?_
      subst hg
      refine ⟨rfl, fun q h => ?_⟩
      cases h
      exact ⟨_, .inr rfl⟩

theorem del_obeys {keys : List String} {assetCode : String} {nr : Nat} :
    Obeys server (del keys) (fun _ g => g = .swept assetCode nr) (.swept assetCode nr) := by
  refine ⟨trivial, fun r hr => ?_⟩
  cases (show r = .ok () from hr)
  rfl

theorem invalidateByPattern_obeys {assetCode : String} {nr : Nat} :
    Obeys server (invalidateByPattern assetCode .priceData)
      (fun _ g => g = .swept assetCode nr) (.scanning assetCode nr) := by
  refine .catch ?_
  show Obeys server (keys _ >>= _) _ _
  unfold Obeys
  rw [wp_bind]
  refine ⟨rfl, fun r hr => ?_⟩
  obtain ⟨found, rfl⟩ := hr
  cases found with
  | nil => rfl
  | cons key found =>
    show Obeys server (del (key :: found) >>= fun _ => pure _) _ (.deleting assetCode nr (key :: found))
    unfold Obeys
    rw [wp_bind]
    refine ⟨rfl, fun r hr => ?_⟩
    cases (show r = .ok () from hr)
    rfl

theorem invalidateNamespace_obeys {ns : CacheNamespace} {assetCode : String} {nr : Nat} :
    Obeys server (invalidateNamespace ns) (fun _ g => g = .swept assetCode nr)
      (.swept assetCode nr) := by
  refine .catch ?_
  show Obeys server (keys _ >>= _) _ _
  unfold Obeys
  rw [wp_bind]
  refine ⟨trivial, fun r hr => ?_⟩
  obtain ⟨found, rfl⟩ := hr
  cases found with
  | nil => rfl
  | cons key found =>
    show Obeys server (del _ >>= fun _ => del _ >>= fun _ => del _ >>= fun _ => del _ >>= fun _ =>
      pure _) _ (.swept assetCode nr)
    exact del_obeys.before (del_obeys.before (del_obeys.before (del_obeys.before rfl)))

theorem triggerAssetUpdate_obeys {event : AssetUpdateEvent} :
    Obeys server (CacheInvalidationService.triggerAssetUpdate event)
      (fun _ g => g.coming = none) (.updating event.assetCode) := by
  show Obeys server (request _ _ >>= _) _ _
  unfold Obeys
  rw [wp_bind]
  refine ⟨rfl, fun nr _ => ?_⟩
  show Obeys server (CacheInvalidationService.handleAssetUpdate event nr) _
    (.scanning event.assetCode nr)
  refine .catch ?_
  refine invalidateByPattern_obeys.bind fun _ g hg => ?_
  subst hg
  refine invalidateNamespace_obeys.bind fun _ g hg => ?_
  subst hg
  exact ⟨rfl, fun _ _ => rfl⟩

theorem program_obeys (op : Operation) :
    Async.wp (obeying (protocol server)) (op.program server) End (begin op) := by
  cases op with
  | getAssetPrice assetCode issuer =>
    refine wp_program.mpr (wp_mono (fun _ _ _ h => h) (fun _ _ _ h => h.elim) getAssetPrice_obeys)
  | assetUpdated event =>
    refine wp_program.mpr ?_
    rw [wp_bind]
    refine wp_mono (fun _ _ g h => ?_) (fun _ _ _ h => h.elim) triggerAssetUpdate_obeys
    exact ⟨h, fun q hq => by cases hq⟩

end Programs

/-! ## What an answer does to the cache -/

section Answers

variable {server} {c : Outside} {w w' : World} {a : Request} {r : Answer a}

theorem lookup_remove (w : World) (keys : List String) (key : String) :
    (w.remove keys).prices.lookup key = if key ∈ keys then none else w.prices.lookup key :=
  lookup_removeAll keys w.prices key

theorem lookup_of_remove {keys : List String} {key : String} {q : Quote}
    (h : (w.remove keys).prices.lookup key = some q) : w.prices.lookup key = some q := by
  rw [lookup_remove] at h
  split at h
  · cases h
  · exact h

/-- A price in the cache was there, or has just been stored. -/
theorem prices_answered (h : answer server c w a = some (r, w')) {key : String} {q : Quote}
    (hq : w'.prices.lookup key = some q) :
    (w.remove c.expired).prices.lookup key = some q ∨ ∃ ttl, a = .setPrice key q ttl := by
  unfold answer reply at h
  cases a with
  | setPrice key' value ttl =>
    obtain ⟨e, -, -, rfl⟩ | ⟨-, -, rfl⟩ := Async.attempt_cases h
    · exact .inl hq
    · rw [Store.lookup_insert_eq] at hq
      split at hq
      · next heq =>
        cases hq
        exact .inr ⟨ttl, by rw [heq]⟩
      · exact .inl hq
  | del keys =>
    obtain ⟨e, -, -, rfl⟩ | ⟨-, -, rfl⟩ := Async.attempt_cases h
    · exact .inl hq
    · exact .inl (lookup_of_remove hq)
  | get _ | incr _ | setMetadata _ _ _ | keys _ =>
    obtain ⟨e, -, -, rfl⟩ | ⟨-, -, rfl⟩ := Async.attempt_cases h <;> exact .inl hq
  | timeout _ | emitUpdated _ | emitInvalidated _ _ _ =>
    cases h
    exact .inl hq

theorem events_answered (h : answer server c w a = some (r, w')) :
    w'.events = w.events ∨ ∃ event, a = .emitUpdated event ∧
      w'.events = w.events ++ [event.assetCode] := by
  unfold answer reply at h
  cases a with
  | emitUpdated event =>
    cases h
    exact .inr ⟨event, rfl, rfl⟩
  | get _ | incr _ | setPrice _ _ _ | setMetadata _ _ _ | keys _ | del _ =>
    obtain ⟨e, -, -, rfl⟩ | ⟨-, -, rfl⟩ := Async.attempt_cases h <;> exact .inl rfl
  | timeout _ | emitInvalidated _ _ _ =>
    cases h
    exact .inl rfl

theorem handled_answered (h : answer server c w a = some (r, w')) :
    w'.handled = w.handled ∨ ∃ pattern reason nr, a = .emitInvalidated pattern reason nr ∧
      w'.handled = nr :: w.handled := by
  unfold answer reply at h
  cases a with
  | emitInvalidated pattern reason nr =>
    cases h
    exact .inr ⟨pattern, reason, nr, rfl, rfl⟩
  | get _ | incr _ | setPrice _ _ _ | setMetadata _ _ _ | keys _ | del _ =>
    obtain ⟨e, -, -, rfl⟩ | ⟨-, -, rfl⟩ := Async.attempt_cases h <;> exact .inl rfl
  | timeout _ | emitUpdated _ =>
    cases h
    exact .inl rfl

/-- Without a rejection the answer is the one that a point of the protocol is told. -/
theorem told_of_answer (h : answer server c w a = some (r, w')) (hredis : c.rejects = none) :
    told a r := by
  unfold answer reply at h
  cases a with
  | get _ | keys _ =>
    obtain ⟨e, he, -⟩ | ⟨-, rfl, -⟩ := Async.attempt_cases h
    · rw [hredis] at he
      cases he
    · exact ⟨_, rfl⟩
  | incr _ | setPrice _ _ _ | setMetadata _ _ _ | del _ =>
    obtain ⟨e, he, -⟩ | ⟨-, rfl, -⟩ := Async.attempt_cases h
    · rw [hredis] at he
      cases he
    · rfl
  | timeout _ | emitUpdated _ | emitInvalidated _ _ _ => trivial

end Answers

/-! ## The invariant -/

/-- No price of the asset that is stored under a key outside `keys`, or fetched and not stored,
is older than the event with this number. -/
structure Cleared (w : World) (gs : List Point) (assetCode : String) (nr : Nat)
    (keys : List String) : Prop where
  entries : ∀ key q, w.prices.lookup key = some q → q.dto.code = assetCode →
    nr < q.fetchedAt ∨ key ∈ keys
  coming : ∀ g ∈ gs, ∀ q, g.coming = some q → q.dto.code = assetCode → nr < q.fetchedAt

/-- Where the call of `getAssetPrice(assetCode, issuer)` is that found `handled` events handled. -/
structure CallAt (w before : World) (assetCode issuer : String) (g : Point) : Prop where
  key : g.key = some (priceKey assetCode issuer)
  after : ∀ nr ∈ before.handled, before.events[nr]? = some assetCode →
    nr ∈ w.handled ∧ w.events[nr]? = some assetCode ∧ g.After nr

structure Books (server : Server) (used : Set String) (tr : Trace) (w : World) (gs : List Point) :
    Prop where
  entries : ∀ key q, w.prices.lookup key = some q →
    ∃ k ∈ used, key = storageKey server k ∧ mockPrices k = some q.dto
  lookups : ∀ g ∈ gs, ∀ k, g.key = some k → k ∈ used
  numbers : ∀ g ∈ gs, ∀ assetCode nr, g.event = some (assetCode, nr) →
    w.events[nr]? = some assetCode
  handled : ∀ nr ∈ w.handled, ∃ assetCode, w.events[nr]? = some assetCode ∧
    Cleared w gs assetCode nr []
  deleting : ∀ assetCode nr keys, .deleting assetCode nr keys ∈ gs →
    Cleared w gs assetCode nr keys
  swept : ∀ assetCode nr, .swept assetCode nr ∈ gs → Cleared w gs assetCode nr []
  calls : ∀ e ∈ tr, ∀ assetCode issuer, e.call = .start (.getAssetPrice assetCode issuer) →
    ∃ g, gs[e.before.tasks.length]? = some g ∧ CallAt w e.before.world assetCode issuer g

theorem books_init {used : Set String} : Books server used [] {} [] where
  entries _ _ h := by cases h
  lookups _ h := by cases h
  numbers _ h := by cases h
  handled _ h := by cases h
  deleting _ _ _ h := by cases h
  swept _ _ h := by cases h
  calls _ h := by cases h

variable {server} {used : Set String} {tr : Trace} {w : World} {gs : List Point}

/-- A task that has fetched nothing changes nothing. -/
theorem Cleared.start {assetCode : String} {nr : Nat} {keys : List String}
    (h : Cleared w gs assetCode nr keys) {g : Point} (hg : g.coming = none) :
    Cleared w (gs ++ [g]) assetCode nr keys := by
  refine ⟨h.entries, fun g' hg' q hq => ?_⟩
  rcases List.mem_append.mp hg' with hg' | hg'
  · exact h.coming g' hg' q hq
  · rw [List.mem_singleton.mp hg', hg] at hq
    cases hq

theorem begin_coming (op : Operation) : (begin op).coming = none := by cases op <;> rfl

theorem Books.start {e : Event Outside (Async.Move Operation) Unit System} {op : Operation}
    (h : Books server used tr w gs) (hcall : e.call = .start op) (hw : e.before.world = w)
    (hlen : e.before.tasks.length = gs.length)
    (hused : ∀ assetCode issuer, op = .getAssetPrice assetCode issuer →
      priceKey assetCode issuer ∈ used) :
    Books server used (e :: tr) w (gs ++ [begin op]) := by
  have hmem : ∀ g ∈ gs ++ [begin op], g ∈ gs ∨ g = begin op := by
    intro g hg
    rcases List.mem_append.mp hg with hg | hg
    · exact .inl hg
    · exact .inr (List.mem_singleton.mp hg)
  refine ⟨h.entries, ?_, ?_, ?_, ?_, ?_, ?_⟩
  · intro g hg k hk
    rcases hmem g hg with hg | rfl
    · exact h.lookups g hg k hk
    · cases op with
      | getAssetPrice assetCode issuer =>
        cases hk
        exact hused _ _ rfl
      | assetUpdated event => cases hk
  · intro g hg assetCode nr hev
    rcases hmem g hg with hg | rfl
    · exact h.numbers g hg assetCode nr hev
    · cases op <;> cases hev
  · intro nr hnr
    obtain ⟨assetCode, hev, hclear⟩ := h.handled nr hnr
    exact ⟨assetCode, hev, hclear.start (begin_coming op)⟩
  · intro assetCode nr keys hg
    rcases hmem _ hg with hg | hg
    · exact (h.deleting _ _ _ hg).start (begin_coming op)
    · cases op <;> cases hg
  · intro assetCode nr hg
    rcases hmem _ hg with hg | hg
    · exact (h.swept _ _ hg).start (begin_coming op)
    · cases op <;> cases hg
  · intro e' he' assetCode issuer hcall'
    rcases List.mem_cons.mp he' with rfl | he'
    · obtain rfl : op = .getAssetPrice assetCode issuer := by
        rw [hcall] at hcall'
        exact Async.Move.start.inj hcall'
      refine ⟨.calling (priceKey assetCode issuer), ?_, rfl, ?_⟩
      · rw [hlen, List.getElem?_append_right (le_refl _), Nat.sub_self]
        rfl
      · rw [hw]
        exact fun nr hnr hev => ⟨hnr, hev, trivial⟩
    · obtain ⟨g, hg, hat⟩ := h.calls e' he' assetCode issuer hcall'
      refine ⟨g, ?_, hat⟩
      rw [List.getElem?_append_left (List.getElem?_eq_some_iff.mp hg).1]
      exact hg

/-! ### One answer -/

section Step

variable {c : Outside} {w' : World} {i : Nat} {a : Request} {r : Answer a} {g : Point}
  {tasks : List (Async Request Answer (Except String Price))}

theorem next_key (g : Point) (a : Request) (r : Answer a) : (next g a r).key = g.key := by
  unfold next
  split <;> rfl

/-- A task that goes on has its price from the cache, or from now. -/
theorem next_coming {q : Quote} (hasks : asks server g a)
    (hx : answer server c w a = some (r, w'))
    (hq : (next g a r).coming = some q) : q.fetchedAt = w.events.length := by
  cases g with
  | fetched key fetchedAt =>
    cases a with
    | setPrice storage value ttl => cases hq
    | _ => cases hasks
  | missed key =>
    cases a with
    | timeout ms =>
      cases hx
      obtain ⟨dto, -, rfl⟩ := Option.map_eq_some_iff.mp hq
      rfl
    | incr key => cases hq
    | _ => cases hasks
  | calling key =>
    cases a with
    | get storage =>
      match r, hq with
      | .ok (some _), hq => cases hq
      | .ok none, hq => cases hq
      | .error _, hq => cases hq
    | _ => cases hasks
  | scanning assetCode nr =>
    cases a with
    | keys pattern =>
      match r, hq with
      | .ok [], hq => cases hq
      | .ok (_ :: _), hq => cases hq
      | .error _, hq => cases hq
    | _ => cases hasks
  | hit key value => cases a <;> first | exact absurd hasks id | cases hq
  | stored key value => cases a <;> first | exact absurd hasks id | cases hq
  | updating assetCode => cases a <;> first | exact absurd hasks id | cases hq
  | deleting assetCode nr keys => cases a <;> first | exact absurd hasks id | cases hq
  | swept assetCode nr => cases a <;> first | exact absurd hasks id | cases hq

/-- What a task stores it has fetched. -/
theorem coming_of_store {key : String} {q : Quote} {ttl : Nat}
    (hasks : asks server g (.setPrice key q ttl)) : g.coming = some q := by
  cases g with
  | fetched k fetchedAt =>
    obtain ⟨-, rfl, hmock⟩ := hasks
    simp only [Point.coming, hmock, Option.map_some]
  | _ => cases hasks

/-- What has been cleared stays so: prices fetched from now on are newer. -/
theorem Cleared.step {assetCode : String} {nr : Nat} {keys : List String}
    (h : Cleared w gs assetCode nr keys) (hnr : nr < w.events.length) (hg : gs[i]? = some g)
    (hasks : asks server g a) (hx : answer server c w a = some (r, w')) :
    Cleared w' (gs.set i (next g a r)) assetCode nr keys := by
  refine ⟨fun key q hq hcode => ?_, fun g' hg' q hq hcode => ?_⟩
  · rcases prices_answered hx hq with hold | ⟨ttl, rfl⟩
    · exact h.entries key q (lookup_of_remove hold) hcode
    · exact .inl (h.coming g (List.mem_of_getElem? hg) q (coming_of_store hasks) hcode)
  · rcases List.mem_or_eq_of_mem_set hg' with hg' | rfl
    · exact h.coming g' hg' q hq hcode
    · rw [next_coming hasks hx hq]
      exact hnr

theorem events_getElem? {nr : Nat} {assetCode : String}
    (hx : answer server c w a = some (r, w')) (h : w.events[nr]? = some assetCode) :
    w'.events[nr]? = some assetCode := by
  rcases events_answered hx with hev | ⟨event, -, hev⟩
  · rw [hev]
    exact h
  · rw [hev, List.getElem?_append_left (List.getElem?_eq_some_iff.mp h).1]
    exact h

/-- **A thorough scan** finds every price that is older than the event. -/
theorem scanned {assetCode : String} {nr : Nat} {found : List String}
    (hat : List.Forall₂ (Async.wp (obeying (protocol server)) · End) tasks gs)
    (hev : w.events[nr]? = some assetCode)
    (hthorough : Thorough server (searchPattern assetCode .priceData) (w.remove c.expired)
      tasks)
    (hx : answer server c w (.keys (searchPattern assetCode .priceData)) =
      some (.ok found, w')) :
    Cleared w' (gs.set i (next (.scanning assetCode nr)
      (.keys (searchPattern assetCode .priceData)) (.ok found))) assetCode nr found := by
  have houtdated : ∀ q : Quote, q.dto.code = assetCode → ¬ nr < q.fetchedAt → w.Outdates q := by
    intro q hcode hle
    rw [← hcode] at hev
    unfold World.Outdates
    refine List.mem_iff_getElem?.mpr ⟨nr - q.fetchedAt, ?_⟩
    rw [List.getElem?_drop, show q.fetchedAt + (nr - q.fetchedAt) = nr from by omega]
    exact hev
  obtain ⟨hfinds, hnone⟩ := hthorough
  refine ⟨fun key q hq hcode => ?_, fun g' hg' q hq hcode => ?_⟩
  · by_cases hlt : nr < q.fetchedAt
    · exact .inl hlt
    · refine .inr ?_
      obtain ⟨e, -, hr, -⟩ | ⟨-, hr, hw⟩ := Async.attempt_cases hx
      · cases hr
      · rw [hw] at hq
        have hkey : key ∈ (w.remove c.expired).prices.keys :=
          AList.mem_keys.mpr (AList.lookup_isSome.mp (by rw [hq]; rfl))
        have hmatch := hfinds key hkey q hq (by rw [Quote.SoughtBy, hcode]) (houtdated q hcode hlt)
        cases hr
        exact List.mem_filter.mpr ⟨List.mem_append_left _ (List.mem_append_left _ hkey), hmatch⟩
  · rcases List.mem_or_eq_of_mem_set hg' with hg' | rfl
    · by_contra hlt
      -- a task that has fetched the price is about to store it
      obtain ⟨j, hj⟩ := List.mem_iff_getElem?.mp hg'
      obtain ⟨p, hp, hend⟩ := Async.exists_of_getElem? hat.flip hj
      have hstores : storing p = some q := by
        cases p with
        | done x =>
          have hnil := hend.1
          rw [hq] at hnil
          cases hnil
        | await a k =>
          have hasks : asks server g' a := hend.1
          cases g' with
          | fetched key fetchedAt =>
            cases a with
            | setPrice storage value ttl =>
              have := coming_of_store hasks
              rw [hq] at this
              exact this.symm
            | _ => cases hasks
          | _ => cases hq
      exact hnone p (List.mem_of_getElem? hp) q hstores (by rw [Quote.SoughtBy, hcode])
        (houtdated q hcode hlt)
    · cases found <;> cases hq

/-- The handler's way: what it has not been told before, it has been told now. -/
theorem next_event (hasks : asks server g a) (hnr : ∀ assetCode nr, g.event = some (assetCode, nr) →
      w.events[nr]? = some assetCode) (hx : answer server c w a = some (r, w')) {assetCode : String}
    {nr : Nat} (h : (next g a r).event = some (assetCode, nr)) :
    w'.events[nr]? = some assetCode := by
  have hold : g.event = some (assetCode, nr) → w'.events[nr]? = some assetCode := fun hev =>
    events_getElem? hx (hnr _ _ hev)
  cases g with
  | updating code =>
    cases a with
    | emitUpdated event =>
      have hcode : event.assetCode = code := hasks
      cases hx
      cases h
      show (w.events ++ [event.assetCode])[w.events.length]? = _
      rw [List.getElem?_append_right (le_refl _), Nat.sub_self, hcode]
      rfl
    | _ => cases hasks
  | scanning code n =>
    cases a with
    | keys pattern =>
      match r, h with
      | .ok [], h => exact hold h
      | .ok (_ :: _), h => exact hold h
      | .error _, h => exact hold h
    | _ => cases hasks
  | calling key =>
    cases a with
    | get storage =>
      match r, h with
      | .ok (some _), h => cases h
      | .ok none, h => cases h
      | .error _, h => cases h
    | _ => cases hasks
  | deleting code n keys => cases a <;> first | exact absurd hasks id | exact hold h
  | swept code n => cases a <;> first | exact absurd hasks id | exact hold h
  | hit key value => cases a <;> first | exact absurd hasks id | cases h
  | missed key => cases a <;> first | exact absurd hasks id | cases h
  | fetched key fetchedAt => cases a <;> first | exact absurd hasks id | cases h
  | stored key value => cases a <;> first | exact absurd hasks id | cases h

/-- **What a call gets** was fetched after the events that it found handled. -/
theorem Books.after (h : Books server used tr w gs) (hinj : Set.InjOn (storageKey server) used)
    (hg : gs[i]? = some g) (hasks : asks server g a) (hx : answer server c w a = some (r, w'))
    {assetCode issuer : String} {nr : Nat} (hkey : g.key = some (priceKey assetCode issuer))
    (hnr : nr ∈ w.handled) (hev : w.events[nr]? = some assetCode) (hafter : g.After nr) :
    (next g a r).After nr := by
  have hmem := List.mem_of_getElem? hg
  cases g with
  | calling key =>
    cases a with
    | get storage =>
      match r, hx with
      | .error _, _ => trivial
      | .ok none, _ => trivial
      | .ok (some value), hx =>
        cases hkey
        obtain ⟨code, hcode, hclear⟩ := h.handled nr hnr
        obtain rfl : code = assetCode := Option.some.inj (hcode.symm.trans hev)
        obtain ⟨e, -, hr, -⟩ | ⟨-, hr, -⟩ := Async.attempt_cases hx
        · cases hr
        · have hold := lookup_of_remove (Except.ok.inj hr).symm
          -- another key's price would be stored under another digest
          obtain ⟨k, hk, hstorage, hmock⟩ := h.entries _ _ hold
          obtain rfl : k = priceKey code issuer :=
            hinj hk (h.lookups _ hmem _ rfl)
              (hstorage.symm.trans (show storage = storageKey server _ from hasks))
          rcases hclear.entries _ _ hold (mockPrices_code hmock) with hnew | hnil
          · exact hnew
          · cases hnil
    | _ => cases hasks
  | missed key =>
    cases a with
    | timeout ms =>
      cases hx
      exact (List.getElem?_eq_some_iff.mp hev).1
    | incr key => trivial
    | _ => cases hasks
  | fetched key fetchedAt =>
    cases a with
    | setPrice storage value ttl =>
      obtain ⟨-, hfetched, -⟩ := hasks
      show nr < value.fetchedAt
      rw [hfetched]
      exact hafter
    | _ => cases hasks
  | hit key value => cases a <;> first | exact absurd hasks id | exact hafter
  | stored key value => cases a <;> first | exact absurd hasks id | exact hafter
  | updating _ | scanning _ _ | deleting _ _ _ | swept _ _ => cases hkey

theorem handled_of_handled {nr : Nat} (hx : answer server c w a = some (r, w'))
    (h : nr ∈ w.handled) : nr ∈ w'.handled := by
  rcases handled_answered hx with hw | ⟨-, -, n, -, hw⟩
  · rw [hw]
    exact h
  · rw [hw]
    exact List.mem_cons_of_mem _ h

variable {e : Event Outside (Async.Move Operation) Unit System}

/-- What a scan or a deletion has cleared. -/
theorem Books.clears (h : Books server used tr e.before.world gs)
    (hans : Answered (answer server) e i a r) (hg : gs[i]? = some g) (hasks : asks server g a)
    (hredis : e.env.rejects = none) (hthorough : StepThorough server e)
    (hat : List.Forall₂ (Async.wp (obeying (protocol server)) · End) e.before.tasks gs)
    {assetCode : String} {nr : Nat} {keys : List String}
    (hnext : next g a r = .deleting assetCode nr keys ∨
      next g a r = .swept assetCode nr ∧ keys = []) :
    Cleared e.after.world (gs.set i (next g a r)) assetCode nr keys := by
  have hx := hans.answer
  have hmem := List.mem_of_getElem? hg
  have hnumber : ∀ {code n}, g.event = some (code, n) → e.before.world.events[n]? = some code :=
    fun hev => h.numbers g hmem _ _ hev
  have hlt : ∀ {code n}, g.event = some (code, n) → n < e.before.world.events.length :=
    fun hev => (List.getElem?_eq_some_iff.mp (hnumber hev)).1
  cases g with
  | scanning code n =>
    cases a with
    | keys pattern =>
      obtain rfl : pattern = searchPattern code .priceData := hasks
      obtain ⟨found, rfl⟩ : ∃ found, r = .ok found := told_of_answer hx hredis
      have hscan : Thorough server (searchPattern code .priceData)
          (e.before.world.remove e.env.expired) e.before.tasks := by
        unfold StepThorough at hthorough
        rw [hans.call] at hthorough
        simp only [hans.awaited] at hthorough
        exact hthorough
      have hcleared := scanned (i := i) hat (hnumber rfl) hscan hx
      cases found with
      | nil =>
        obtain hnext | ⟨hnext, rfl⟩ := hnext <;> cases hnext
        exact hcleared
      | cons key found =>
        obtain hnext | ⟨hnext, rfl⟩ := hnext <;> cases hnext
        exact hcleared
    | _ => cases hasks
  | deleting code n l =>
    cases a with
    | del deleted =>
      have hdel : deleted = l := hasks
      subst hdel
      obtain hnext | ⟨hnext, rfl⟩ := hnext <;> cases hnext
      have hold := (h.deleting _ _ _ hmem).step (hlt rfl) hg hasks hx
      refine ⟨fun key q hq hcode => ?_, hold.coming⟩
      obtain ⟨x, hrej, -⟩ | ⟨-, -, hw⟩ := Async.attempt_cases hx
      · rw [hredis] at hrej
        cases hrej
      · rcases hold.entries key q hq hcode with hnew | hkey
        · exact .inl hnew
        · rw [hw, lookup_remove, if_pos hkey] at hq
          cases hq
    | _ => cases hasks
  | swept code n =>
    have hstay : next (.swept code n) a r = .swept code n := by
      cases a <;> first | exact absurd hasks id | rfl
    rw [hstay] at hnext ⊢
    obtain hnext | ⟨hnext, rfl⟩ := hnext <;> cases hnext
    exact (h.swept _ _ hmem).step (hlt rfl) hg hasks hx
  | calling key =>
    have hkey := next_key (.calling key) a r
    obtain hnext | ⟨hnext, -⟩ := hnext <;> rw [hnext] at hkey <;> cases hkey
  | hit key value =>
    have hkey := next_key (.hit key value) a r
    obtain hnext | ⟨hnext, -⟩ := hnext <;> rw [hnext] at hkey <;> cases hkey
  | missed key =>
    have hkey := next_key (.missed key) a r
    obtain hnext | ⟨hnext, -⟩ := hnext <;> rw [hnext] at hkey <;> cases hkey
  | fetched key fetchedAt =>
    have hkey := next_key (.fetched key fetchedAt) a r
    obtain hnext | ⟨hnext, -⟩ := hnext <;> rw [hnext] at hkey <;> cases hkey
  | stored key value =>
    have hkey := next_key (.stored key value) a r
    obtain hnext | ⟨hnext, -⟩ := hnext <;> rw [hnext] at hkey <;> cases hkey
  | updating code =>
    cases a with
    | emitUpdated event => obtain hnext | ⟨hnext, -⟩ := hnext <;> cases hnext
    | _ => cases hasks

theorem Books.answered (h : Books server used tr e.before.world gs)
    (hinj : Set.InjOn (storageKey server) used) (hans : Answered (answer server) e i a r)
    (hg : gs[i]? = some g) (hasks : asks server g a) (hredis : e.env.rejects = none)
    (hthorough : StepThorough server e)
    (hat : List.Forall₂ (Async.wp (obeying (protocol server)) · End) e.before.tasks gs) :
    Books server used (e :: tr) e.after.world (gs.set i (next g a r)) := by
  have hx := hans.answer
  have hmem := List.mem_of_getElem? hg
  have hlt : ∀ {code n}, e.before.world.events[n]? = some code → n < e.before.world.events.length :=
    fun hev => (List.getElem?_eq_some_iff.mp hev).1
  have hdeleting : ∀ assetCode nr keys, .deleting assetCode nr keys ∈ gs.set i (next g a r) →
      Cleared e.after.world (gs.set i (next g a r)) assetCode nr keys := by
    intro assetCode nr keys hthis
    rcases List.mem_or_eq_of_mem_set hthis with hthis | hthis
    · exact (h.deleting _ _ _ hthis).step (hlt (h.numbers _ hthis _ _ rfl)) hg hasks hx
    · exact h.clears hans hg hasks hredis hthorough hat (.inl hthis.symm)
  have hswept : ∀ assetCode nr, .swept assetCode nr ∈ gs.set i (next g a r) →
      Cleared e.after.world (gs.set i (next g a r)) assetCode nr [] := by
    intro assetCode nr hthis
    rcases List.mem_or_eq_of_mem_set hthis with hthis | hthis
    · exact (h.swept _ _ hthis).step (hlt (h.numbers _ hthis _ _ rfl)) hg hasks hx
    · exact h.clears hans hg hasks hredis hthorough hat (.inr ⟨hthis.symm, rfl⟩)
  refine ⟨?_, ?_, ?_, ?_, hdeleting, hswept, ?_⟩
  · intro key q hq
    rcases prices_answered hx hq with hold | ⟨ttl, rfl⟩
    · exact h.entries key q (lookup_of_remove hold)
    · cases g with
      | fetched k fetchedAt =>
        obtain ⟨hkey, -, hmock⟩ := hasks
        exact ⟨k, h.lookups _ hmem k rfl, hkey, hmock⟩
      | _ => cases hasks
  · intro g' hg' k hk
    rcases List.mem_or_eq_of_mem_set hg' with hg' | rfl
    · exact h.lookups g' hg' k hk
    · rw [next_key] at hk
      exact h.lookups g hmem k hk
  · intro g' hg' assetCode nr hev
    rcases List.mem_or_eq_of_mem_set hg' with hg' | rfl
    · exact events_getElem? hx (h.numbers g' hg' _ _ hev)
    · exact next_event hasks (h.numbers g hmem) hx hev
  · intro nr hnr
    rcases handled_answered hx with hw | ⟨pattern, reason, n, rfl, hw⟩
    · rw [hw] at hnr
      obtain ⟨code, hev, hclear⟩ := h.handled nr hnr
      exact ⟨code, events_getElem? hx hev, hclear.step (hlt hev) hg hasks hx⟩
    · rw [hw] at hnr
      rcases List.mem_cons.mp hnr with rfl | hnr
      · -- a handler tells of its event at the end
        cases g with
        | swept code m =>
          obtain rfl : nr = m := hasks
          exact ⟨code, events_getElem? hx (h.numbers _ hmem _ _ rfl),
            hswept code nr (Async.mem_set _ hg)⟩
        | _ => cases hasks
      · obtain ⟨code, hev, hclear⟩ := h.handled nr hnr
        exact ⟨code, events_getElem? hx hev, hclear.step (hlt hev) hg hasks hx⟩
  · intro e' he' assetCode issuer hcall
    rcases List.mem_cons.mp he' with rfl | he'
    · rw [hans.call] at hcall
      cases hcall
    · obtain ⟨g', hg', hkey, hafter⟩ := h.calls e' he' assetCode issuer hcall
      have hkeep : ∀ nr ∈ e'.before.world.handled, e'.before.world.events[nr]? = some assetCode →
          nr ∈ e.after.world.handled ∧ e.after.world.events[nr]? = some assetCode := by
        intro nr hnr hev
        obtain ⟨hnow, hevnow, -⟩ := hafter nr hnr hev
        exact ⟨handled_of_handled hx hnow, events_getElem? hx hevnow⟩
      by_cases hi : e'.before.tasks.length = i
      · rw [hi] at hg' ⊢
        obtain rfl := Option.some.inj (hg.symm.trans hg')
        refine ⟨next g a r, List.getElem?_set_self (List.getElem?_eq_some_iff.mp hg).1, ?_, ?_⟩
        · rw [next_key, hkey]
        · intro nr hnr hev
          obtain ⟨hnow, hevnow, hthis⟩ := hafter nr hnr hev
          obtain ⟨hnext, hevnext⟩ := hkeep nr hnr hev
          exact ⟨hnext, hevnext, h.after hinj hg hasks hx hkey hnow hevnow hthis⟩
      · refine ⟨g', ?_, hkey, fun nr hnr hev => ?_⟩
        · rw [List.getElem?_set_ne (Ne.symm hi)]
          exact hg'
        · obtain ⟨hnext, hevnext⟩ := hkeep nr hnr hev
          exact ⟨hnext, hevnext, (hafter nr hnr hev).2.2⟩

end Step

end Invalidation

open Invalidation

/-- **No price from before an update**, if every scan of the run is thorough. -/
theorem prices_refetched {server : Server} {tr : Trace} {t : System}
    (h : Run (machine server) tr t) (hredis : ∀ e ∈ tr, e.env.rejects = none)
    (hinj : Set.InjOn (storageKey server) (lookedUp tr))
    (hthorough : ∀ e ∈ tr, StepThorough server e) : Refetched tr t := by
  have hgood : ∀ e ∈ tr, e.env.rejects = none ∧ StepThorough server e ∧
      ∀ assetCode issuer, e.call = .start (.getAssetPrice assetCode issuer) →
        priceKey assetCode issuer ∈ lookedUp tr :=
    fun e he => ⟨hredis e he, hthorough e he, fun _ _ hcall => ⟨e, he, _, _, hcall, rfl⟩⟩
  obtain ⟨gs, hbooks, hat⟩ := interleave_obeys_from (J := Books server (lookedUp tr))
    (P := protocol server) (fun op _ => program_obeys op) (by rintro _ rfl; exact books_init server)
    (fun _ e _ op _ hgood hcall _ hlen hJ => hJ.start hcall rfl hlen
      fun _ _ hop => hgood.2.2 _ _ (hop ▸ hcall))
    (fun _ e _ i a r g hgood hans hat hg hasks hJ =>
      ⟨told_of_answer hans.answer hgood.1,
        hJ.answered hinj hans hg hasks hgood.1 hgood.2.1 hat⟩)
    h hgood
  intro e he assetCode issuer hcall nr hnr hev q htask
  obtain ⟨g, hg, hat'⟩ := hbooks.calls e he assetCode issuer hcall
  obtain ⟨g', hg', hend⟩ := Async.exists_of_getElem? hat htask
  obtain rfl := Option.some.inj (hg.symm.trans hg')
  obtain ⟨-, -, hafter⟩ := hat'.after nr hnr hev
  obtain ⟨key, rfl | rfl⟩ := hend.2 q rfl
  · exact hafter
  · exact hafter

/-! ### A price that is fetched again, and one that is not -/

/-- The digest of one key, and patterns with one star, at the end. -/
def sampleServer : Server where
  sha256 key :=
    if key = "XLM:native" then "0693274beb5d2451202b8264cdd0d125f5268aca6872767275c5b80235516c72"
    else ""
  glob pattern key := pattern.toList.dropLast.isPrefixOf key.toList

def undisturbed : Outside := ⟨0, none, []⟩

def resumes (i answers : Nat) : List (Outside × Async.Move Operation) :=
  List.replicate answers (undisturbed, .resume i)

def sampleUpdate : Async.Move Operation := .start (.assetUpdated ⟨"XLM", "native", .price⟩)

def sampleCall : Async.Move Operation := .start (.getAssetPrice "XLM" "native")

/-- The price that a task has returned. -/
def returned (p : Option (Async Request Answer (Except String Price))) : Option Quote :=
  match p with
  | some (.done (.ok q)) => q
  | _ => none

theorem eq_of_returned {p : Option (Async Request Answer (Except String Price))} {q : Quote}
    (h : returned p = some q) : p = some (.done (.ok (some q))) := by
  unfold returned at h
  split at h
  · rw [h]
  · cases h

theorem lookedUp_sample {tr : Trace}
    (h : ∀ e ∈ tr, e.call ∈ [sampleUpdate, sampleCall, .resume 0, .resume 1, .resume 2]) :
    lookedUp tr ⊆ {"XLM:native"} := by
  rintro key ⟨e, he, assetCode, issuer, hcall, rfl⟩
  have hmem := h e he
  rw [hcall] at hmem
  simp only [sampleUpdate, sampleCall, List.mem_cons, List.not_mem_nil, or_false, reduceCtorEq,
    Async.Move.start.injEq, Operation.getAssetPrice.injEq, false_or] at hmem
  obtain ⟨rfl, rfl⟩ := hmem
  rfl

theorem prices_refetched_after_update :
    ∃ (tr : Trace) (t : System), ∃ e ∈ tr, ∃ q, Run (machine sampleServer) tr t ∧
      e.call = sampleCall ∧ 0 ∈ e.before.world.handled ∧
      t.tasks[e.before.tasks.length]? = some (.done (.ok (some q))) ∧ 0 < q.fetchedAt := by
  obtain ⟨tr, t, hrun, hok⟩ := Machine.exists_run_of_replay (m := machine sampleServer)
    (s := ⟨{}, []⟩) ⟨rfl, rfl⟩
    ((undisturbed, sampleUpdate) :: resumes 0 4 ++ (undisturbed, sampleCall) :: resumes 1 7 ++
      (undisturbed, sampleCall) :: resumes 2 3)
    (fun tr t => decide ((∀ e ∈ tr, e.env.rejects = none) ∧
      (∀ e ∈ tr, StepThorough sampleServer e) ∧
      (∀ e ∈ tr, e.call ∈ [sampleUpdate, sampleCall, .resume 0, .resume 1, .resume 2]) ∧
      ∃ e ∈ tr, e.call = sampleCall ∧ 0 ∈ e.before.world.handled ∧
        e.before.world.events[0]? = some "XLM" ∧
        (returned t.tasks[e.before.tasks.length]?).isSome))
    (fun c _ => c.2.starts_of_true) (by decide) (by decide +kernel)
  obtain ⟨hredis, hthorough, hcalls, e, he, hcall, hhandled, hevent, hsome⟩ := of_decide_eq_true hok
  obtain ⟨q, hq⟩ := Option.isSome_iff_exists.mp hsome
  have htask := eq_of_returned hq
  refine ⟨tr, t, e, he, q, hrun, hcall, hhandled, htask, ?_⟩
  exact prices_refetched hrun hredis ((Set.injOn_singleton _ _).mono (lookedUp_sample hcalls))
    hthorough e he _ _ hcall 0 hhandled hevent q htask

/-- The pattern `price:data:XLM*` does not match the key `price:data:0693274beb5d2451`. -/
theorem prices_not_refetched :
    ¬ ∀ (server : Server) (tr : Trace) (t : System), Run (machine server) tr t →
      (∀ e ∈ tr, e.env.rejects = none) → Set.InjOn (storageKey server) (lookedUp tr) →
      Refetched tr t := by
  intro hall
  obtain ⟨tr, t, hrun, hok⟩ := Machine.exists_run_of_replay (m := machine sampleServer)
    (s := ⟨{}, []⟩) ⟨rfl, rfl⟩
    ((undisturbed, sampleCall) :: resumes 0 7 ++ (undisturbed, sampleUpdate) :: resumes 1 4 ++
      (undisturbed, sampleCall) :: resumes 2 3)
    (fun tr t => decide ((∀ e ∈ tr, e.env.rejects = none) ∧
      (∀ e ∈ tr, e.call ∈ [sampleUpdate, sampleCall, .resume 0, .resume 1, .resume 2]) ∧
      ∃ e ∈ tr, e.call = sampleCall ∧ 0 ∈ e.before.world.handled ∧
        e.before.world.events[0]? = some "XLM" ∧
        (returned t.tasks[e.before.tasks.length]?).map Quote.fetchedAt = some 0))
    (fun c _ => c.2.starts_of_true) (by decide) (by decide +kernel)
  obtain ⟨hredis, hcalls, e, he, hcall, hhandled, hevent, hfetched⟩ := of_decide_eq_true hok
  obtain ⟨q, hq, hzero⟩ := Option.map_eq_some_iff.mp hfetched
  have hnew := hall sampleServer tr t hrun hredis
    ((Set.injOn_singleton _ _).mono (lookedUp_sample hcalls)) e he _ _ hcall 0 hhandled hevent q
    (eq_of_returned hq)
  omega

end Stellara.Market
