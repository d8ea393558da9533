import Mathlib.Data.Rat.Defs
import Stellara.Lib.Protocol
import Stellara.Lib.Store

/-!
# The market cache

`MarketDataService.getAssetPrice` with the cache it looks in first (`MarketCacheService`), and
`CacheInvalidationService.handleAssetUpdate`, which removes what the cache has for an asset.
Each Redis command is one request; between two requests of one call any other may run.

The SHA-256 digest and the patterns of `KEYS` are parameters (`Server`).  A digest has no colon,
so prices, their metadata and the counters have different keys and stand in stores of their own.
Ghosts: events are numbered in the order in which they are emitted, a `Quote` says how many had
been emitted when it was fetched, and `handled` lists the events whose handling has ended.
-/

namespace Stellara.Market

inductive CacheNamespace
  | marketSnapshot
  | news
  | assetData
  | priceData
deriving DecidableEq, Repr

def CacheNamespace.name : CacheNamespace → String
  | .marketSnapshot => "market:snapshot"
  | .news => "news"
  | .assetData => "asset:data"
  | .priceData => "price:data"

/-- `CACHE_TTL_CONFIG`, in seconds. -/
def getTtlForNamespace : CacheNamespace → Nat
  | .marketSnapshot => 300
  | .news => 900
  | .assetData => 600
  | .priceData => 60

structure AssetPriceDto where
  code : String
  issuer : String
  priceUSD : Rat
  change24h : Rat
  volume24h : Rat
  marketCap : Rat
deriving DecidableEq, Repr

/-- A price, and how many events had been emitted when it was fetched. -/
structure Quote where
  dto : AssetPriceDto
  fetchedAt : Nat
deriving DecidableEq, Repr

inductive UpdateType
  | price
  | metadata
  | trustlines
deriving DecidableEq, Repr

def UpdateType.name : UpdateType → String
  | .price => "price"
  | .metadata => "metadata"
  | .trustlines => "trustlines"

structure AssetUpdateEvent where
  assetCode : String
  issuer : String
  updateType : UpdateType
deriving DecidableEq, Repr

/-- What is stored next to a price. -/
structure Metadata where
  createdAt : Int
  ttl : Nat
  cacheNamespace : CacheNamespace
deriving DecidableEq, Repr

/-! ## Requests and their answers -/

inductive Request
  | get (key : String)
  | incr (key : String)
  | setPrice (key : String) (value : Quote) (ttl : Nat)
  | setMetadata (key : String) (ttl : Nat) (cacheNamespace : CacheNamespace)
  | keys (pattern : String)
  | del (keys : List String)
  /-- `setTimeout`; the answer is a ghost, the number of events emitted by then -/
  | timeout (ms : Nat)
  /-- `emit('asset.updated', …)`; the answer is a ghost, the event's number -/
  | emitUpdated (event : AssetUpdateEvent)
  /-- `emit('cache.invalidated', …)` for the event with this number -/
  | emitInvalidated (pattern reason : String) (nr : Nat)

def Answer : Request → Type
  | .get _ => Except String (Option Quote)
  | .keys _ => Except String (List String)
  | .incr _ | .setPrice _ _ _ | .setMetadata _ _ _ | .del _ => Except String Unit
  | .timeout _ | .emitUpdated _ => Nat
  | .emitInvalidated _ _ _ => Unit

structure World where
  prices : Store String Quote := ∅
  metadata : Store String Metadata := ∅
  counters : Store String Nat := ∅
  /-- the asset codes of the events, in the order in which they were emitted -/
  events : List String := []
  /-- the numbers of the events that have been handled -/
  handled : List Nat := []

/-- The circumstances of an answer: the keys that have expired by then are gone. -/
structure Outside where
  now : Int
  rejects : Option String
  expired : List String

/-- `crypto.createHash('sha256').update(key).digest('hex')`, and whether a key matches a
pattern of `KEYS`. -/
structure Server where
  sha256 : String → String
  glob : String → String → Bool

def removeAll {ν : Type} (keys : List String) (s : Store String ν) : Store String ν :=
  keys.foldl (fun s key => s.erase key) s

theorem lookup_removeAll {ν : Type} (keys : List String) (s : Store String ν) (key : String) :
    (removeAll keys s).lookup key = if key ∈ keys then none else s.lookup key := by
  induction keys generalizing s with
  | nil => rfl
  | cons k keys ih =>
    show (removeAll keys (s.erase k)).lookup key = _
    rw [ih, Store.lookup_erase_eq]
    by_cases hk : key = k
    · subst hk
      simp
    · by_cases hmem : key ∈ keys
      · simp [hmem]
      · simp [hmem, hk]

def World.remove (w : World) (keys : List String) : World :=
  { w with prices := removeAll keys w.prices, metadata := removeAll keys w.metadata
           counters := removeAll keys w.counters }

def World.allKeys (w : World) : List String := w.prices.keys ++ w.metadata.keys ++ w.counters.keys

/-- Redis and the event emitter answer, or Redis rejects. -/
def reply (server : Server) (c : Outside) (w : World) : (a : Request) → Option (Answer a × World)
  | .get key => some (Async.attempt c.rejects (w.prices.lookup key) w w)
  | .incr key =>
    some (Async.attempt c.rejects () w
      { w with counters := w.counters.insert key ((w.counters.lookup key).getD 0 + 1) })
  | .setPrice key value _ =>
    some (Async.attempt c.rejects () w { w with prices := w.prices.insert key value })
  | .setMetadata key ttl ns =>
    some (Async.attempt c.rejects () w
      { w with metadata := w.metadata.insert key ⟨c.now, ttl, ns⟩ })
  | .keys pattern => some (Async.attempt c.rejects (w.allKeys.filter (server.glob pattern)) w w)
  | .del keys => some (Async.attempt c.rejects () w (w.remove keys))
  | .timeout _ => some (w.events.length, w)
  | .emitUpdated event =>
    some (w.events.length, { w with events := w.events ++ [event.assetCode] })
  | .emitInvalidated _ _ nr => some ((), { w with handled := nr :: w.handled })

def answer (server : Server) (c : Outside) (w : World) (a : Request) : Option (Answer a × World) :=
  reply server c (w.remove c.expired) a

/-! ## MarketCacheService -/

abbrev On (α : Type) : Type := Block Request Answer String Unit α

open Block

def get (key : String) : On (Option Quote) := request (.get key) id
def incr (key : String) : On Unit := request (.incr key) id

/-- `client.set(key, JSON.stringify(value), { EX: ttl })`. -/
def setPrice (key : String) (value : Quote) (ttl : Nat) : On Unit :=
  request (.setPrice key value ttl) id

/-- The metadata that goes with `key`, created now. -/
def setMetadata (key : String) (ttl : Nat) (ns : CacheNamespace) : On Unit :=
  request (.setMetadata key ttl ns) id

def keys (pattern : String) : On (List String) := request (.keys pattern) id
def del (keys : List String) : On Unit := request (.del keys) id

def timeout (ms : Nat) : On Nat := request (.timeout ms) fun n : Nat => .ok n

namespace MarketCacheService

variable (server : Server)

def generateCacheKey (key : String) (ns : CacheNamespace) : String :=
  s!"{ns.name}:{String.ofList ((server.sha256 key).toList.take 16)}"

def get (key : String) (ns : CacheNamespace) : On (Option Quote) :=
  tryCatch (do
    let cached ← Market.get (generateCacheKey server key ns)
    match cached with
    | some value => do
      incr s!"{ns.name}:stats:hits"
      incr "market:cache:total-hits"
      pure (some value)
    | none => do
      incr s!"{ns.name}:stats:misses"
      incr "market:cache:total-misses"
      pure none) fun _ => pure none

def set (key : String) (value : Quote) (ns : CacheNamespace) (customTtl : Option Nat) : On Unit :=
  tryCatch (do
    let cacheKey := generateCacheKey server key ns
    let ttl := if customTtl.getD 0 = 0 then getTtlForNamespace ns else customTtl.getD 0
    setPrice cacheKey value ttl
    setMetadata s!"{cacheKey}:metadata" ttl ns
    incr s!"{ns.name}:stats:total-entries") fun _ => pure ()

/-- The pattern that `invalidateByPattern` looks for. -/
def searchPattern (pattern : String) (ns : CacheNamespace) : String := s!"{ns.name}:{pattern}*"

def invalidateByPattern (pattern : String) (ns : CacheNamespace) : On Nat :=
  tryCatch (do
    let keys ← keys (searchPattern pattern ns)
    if keys.length = 0 then pure 0
    else do
      del keys
      pure keys.length) fun _ => pure 0

def invalidateNamespace (ns : CacheNamespace) : On Nat :=
  tryCatch (do
    let keys ← keys s!"{ns.name}:*"
    if keys.length = 0 then pure 0
    else do
      del keys
      del [s!"{ns.name}:stats:hits"]
      del [s!"{ns.name}:stats:misses"]
      del [s!"{ns.name}:stats:total-entries"]
      pure keys.length) fun _ => pure 0

end MarketCacheService

/-! ## MarketDataService -/

namespace MarketDataService

open MarketCacheService

/-- `${assetCode}:${issuer}`. -/
def priceKey (assetCode issuer : String) : String := assetCode ++ ":" ++ issuer

/-- The prices of the service's own table, which stands for an API. -/
def mockPrices (key : String) : Option AssetPriceDto :=
  if key = "XLM:native" then some ⟨"XLM", "native", 125 / 1000, 25 / 10, 125000000, 3500000000⟩
  else if key = "USDC:GA5ZSEJYB37JRC5AVCIA5MOP4RHTM335X2KGX3IHOJAPP5RE34K4KZVN" then
    some ⟨"USDC", "GA5ZSEJYB37JRC5AVCIA5MOP4RHTM335X2KGX3IHOJAPP5RE34K4KZVN", 1, 1 / 100, 50000000,
      45000000000⟩
  else none

def fetchAssetPrice (assetCode issuer : String) : On (Option Quote) := do
  let fetchedAt ← timeout 300
  pure ((mockPrices (priceKey assetCode issuer)).map fun dto => ⟨dto, fetchedAt⟩)

def getAssetPrice (server : Server) (assetCode issuer : String) : On (Option Quote) := do
  let cacheKey := priceKey assetCode issuer
  let cached ← MarketCacheService.get server cacheKey .priceData
  match cached with
  | some value => pure (some value)
  | none => do
    let priceData ← fetchAssetPrice assetCode issuer
    match priceData with
    | some value => do
      MarketCacheService.set server cacheKey value .priceData none
      pure (some value)
    | none => pure none

end MarketDataService

/-! ## CacheInvalidationService -/

namespace CacheInvalidationService

open MarketCacheService

/-- The handler of the event with the number `nr`. -/
def handleAssetUpdate (event : AssetUpdateEvent) (nr : Nat) : On Unit :=
  tryCatch (do
    let _ ← invalidateByPattern event.assetCode .priceData
    let _ ← invalidateNamespace .marketSnapshot
    request (.emitInvalidated event.assetCode s!"Asset update: {event.updateType.name}" nr)
      fun _ => .ok ()) fun _ => pure ()

/-- The event is emitted and handled; an emitter calls its handler at once. -/
def triggerAssetUpdate (event : AssetUpdateEvent) : On Unit := do
  let nr ← request (.emitUpdated event) fun n : Nat => .ok n
  handleAssetUpdate event nr

end CacheInvalidationService

/-! ## Calls and events, interleaved -/

inductive Operation
  | getAssetPrice (assetCode issuer : String)
  | assetUpdated (event : AssetUpdateEvent)
deriving DecidableEq, Repr

/-- What a call returns; the handling of an event returns nothing. -/
abbrev Price : Type := Option Quote

def Operation.program (server : Server) : Operation → Async Request Answer (Except String Price)
  | .getAssetPrice assetCode issuer =>
    Block.program (MarketDataService.getAssetPrice server assetCode issuer)
  | .assetUpdated event => Block.program do
    CacheInvalidationService.triggerAssetUpdate event
    pure none

/-- Any number of calls and events, from an empty cache. -/
abbrev machine (server : Server) :=
  Async.interleave (Operation.program server) (fun _ => True) (answer server) (· = {})

abbrev System : Type := Async.System Request Answer (Except String Price) World

abbrev Trace : Type := List (Event Outside (Async.Move Operation) Unit System)

end Stellara.Market
