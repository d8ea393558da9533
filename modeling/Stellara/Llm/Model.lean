import Mathlib.Data.List.Infix
import Stellara.Lib.JavaScript
import Stellara.Lib.Protocol
import Stellara.Lib.Store

/-!
# Requests to language models

`LlmService` (voice) and `AiService`, each with its quota service and its cache.  Every Redis
command is one request, and so is every read of the clock, every wait and every call of a
provider; between two requests of one call any other may run.  The AI service counts in memory,
where a read is one step and so is an update.

The field `calls` of the world is not in the source: it holds every provider call, with what the
checks before it compared.  In the source the checks return nothing; here they return that.
-/

namespace Stellara.Llm

/-! ## Quotas -/

structure QuotaConfig where
  monthlyLimit : Int
  perSessionLimit : Int
  requestsPerMinute : Int

def defaultConfig : QuotaConfig :=
  { monthlyLimit := 1000, perSessionLimit := 100, requestsPerMinute := 20 }

/-- The limit of the AI service, for a month. -/
def MAX_REQUESTS : Int := 1000

/-- What the checks of the voice service read. -/
structure Usage where
  customLimit : Option Int
  monthly : Int
  session : Int
  minute : Int
  deriving DecidableEq

/-- A call of a provider, for a request of the voice service or of the AI service, which knows
its user or not. -/
inductive ProviderCall
  | voice (userId sessionId : String) (read : Usage)
  | ai (userId : String) (requestCount : Int)
  | anonymous
  deriving DecidableEq

structure MadeCall where
  call : ProviderCall
  time : Int
  deriving DecidableEq

/-- The UTC year and month of an instant. -/
def utcMonth (now : Int) : Int × Int :=
  let date := CivilDate.ofMillis now
  (date.year, date.month)

/-- The minute of an instant, counted from 1970. -/
def utcMinute (now : Int) : Int := now / 60000

/-- What a limit is for. -/
inductive Window
  | userMonth (userId : String) (month : Int × Int)
  | session (sessionId : String)
  | userMinute (userId : String) (minute : Int)
  | aiUserMonth (userId : String) (month : Int × Int)
  deriving DecidableEq

/-- A limit that a call is under, and the usage that its check compared with it. -/
structure Quota where
  window : Window
  usage : Int
  limit : Int

def ProviderCall.quotas (now : Int) : ProviderCall → List Quota
  | .voice userId sessionId read =>
    [⟨.userMonth userId (utcMonth now), read.monthly,
        read.customLimit.getD defaultConfig.monthlyLimit⟩,
      ⟨.session sessionId, read.session, defaultConfig.perSessionLimit⟩,
      ⟨.userMinute userId (utcMinute now), read.minute, defaultConfig.requestsPerMinute⟩]
  | .ai userId requestCount => [⟨.aiUserMonth userId (utcMonth now), requestCount, MAX_REQUESTS⟩]
  | .anonymous => []

def MadeCall.quotas (m : MadeCall) : List Quota := m.call.quotas m.time

/-- The number of calls made in a window. -/
def callsIn (window : Window) (calls : List MadeCall) : Nat :=
  calls.countP fun m => m.quotas.any fun q => q.window = window

/-! ## World -/

/-- A Redis value, and when it expires. -/
structure Entry (α : Type) where
  value : α
  expiresAt : Option Int

def Entry.Live {α : Type} (now : Int) (e : Entry α) : Bool := e.expiresAt.all fun t => now < t

/-- The entry of a key, unless it has expired. -/
def live {α : Type} (entries : Store String (Entry α)) (now : Int) (key : String) :
    Option (Entry α) :=
  (entries.lookup key).filter fun e => e.Live now

structure QuotaRecord where
  requestCount : Int
  tokenCount : Int

/-- Redis, with its counters apart from the cached texts, and the maps of the AI service:
`memory` is its cache where there is no Redis. -/
structure World where
  counters : Store String (Entry Int)
  texts : Store String (Entry String)
  memory : Store String String
  quotas : Store String QuotaRecord
  calls : List MadeCall

inductive Request
  | now
  | sleep (ms : Int)
  | random
  -- counters
  | get (key : String)
  | incr (key : String)
  | expire (key : String) (seconds : Int)
  -- cached texts and their statistics, which nothing here reads
  | getText (key : String)
  | setText (key value : String) (seconds : Int)
  | countText
  -- maps of the AI service
  | mapGet (key : String)
  | mapSet (key value : String)
  | getQuota (key : String)
  | addUsage (key : String) (tokens : Int)
  -- providers
  | call (c : ProviderCall)
  | result

def Answer : Request → Type
  | .now => Int
  | .sleep _ => Unit
  | .random => Fin 4
  | .get _ => Except String (Option Int)
  | .incr _ => Except String Int
  | .expire _ _ => Except String Unit
  | .getText _ => Except String (Option String)
  | .setText _ _ _ | .countText => Except String Unit
  | .mapGet _ => Option String
  | .mapSet _ _ => Unit
  | .getQuota _ => Option QuotaRecord
  | .addUsage _ _ => Unit
  | .call _ => Unit
  | .result => Except String (String × Int)

/-- The circumstances of an answer. -/
structure Outside where
  now : Int
  rejects : Option String
  random : Fin 4
  /-- the text of the provider, and the tokens used -/
  result : Except String (String × Int)

open Async (attempt)

/-- Redis, the maps and the providers answer. -/
def answer (c : Outside) (w : World) : (a : Request) → Option (Answer a × World)
  | .now => some (c.now, w)
  | .sleep _ => some ((), w)
  | .random => some (c.random, w)
  | .get key => some (attempt c.rejects ((live w.counters c.now key).map (·.value)) w w)
  | .incr key =>
    let e := (live w.counters c.now key).getD ⟨0, none⟩
    some (attempt c.rejects (e.value + 1) w
      { w with counters := w.counters.insert key ⟨e.value + 1, e.expiresAt⟩ })
  | .expire key seconds =>
    some (attempt c.rejects () w { w with
      counters := match live w.counters c.now key with
        | some e => w.counters.insert key ⟨e.value, some (c.now + seconds * 1000)⟩
        | none => w.counters })
  | .getText key => some (attempt c.rejects ((live w.texts c.now key).map (·.value)) w w)
  | .setText key value seconds =>
    some (attempt c.rejects () w
      { w with texts := w.texts.insert key ⟨value, some (c.now + seconds * 1000)⟩ })
  | .countText => some (attempt c.rejects () w w)
  | .mapGet key => some (w.memory.lookup key, w)
  | .mapSet key value => some ((), { w with memory := w.memory.insert key value })
  | .getQuota key => some (w.quotas.lookup key, w)
  | .addUsage key tokens =>
    let existing := (w.quotas.lookup key).getD ⟨0, 0⟩
    some ((), { w with
      quotas := w.quotas.insert key ⟨existing.requestCount + 1, existing.tokenCount + tokens⟩ })
  | .call call => some ((), { w with calls := ⟨call, c.now⟩ :: w.calls })
  | .result => some (c.result, w)

/-! ## Programs -/

/-- An `HttpException`, or another error. -/
inductive Fault
  | http (status : Nat) (message : String)
  | error (message : String)

abbrev On (α : Type) : Type := Block Request Answer Fault Unit α

open Block

/-- A rejection is an error. -/
def orError {α : Type} : Except String α → Except Fault α
  | .ok x => .ok x
  | .error message => .error (.error message)

/-- `new Date()` -/
def newDate : On Int := request .now fun now : Int => .ok now

/-- `if (!condition) throw fault;` -/
def ensure (condition : Bool) (fault : Fault) : On Unit :=
  if condition then pure () else throw fault

/-- `if (condition) await m;` -/
def onlyIf (condition : Bool) (m : On Unit) : On Unit := if condition then m else pure ()

section Rules

variable {σ : Type} {T : Async.Rules Request Answer σ} {Q : Unit → Unit → σ → Prop}
  {E : Fault → Unit → σ → Prop} {x : Unit} {s : σ} {c : Bool}

theorem wp_ensure {fault : Fault} :
    wp T (ensure c fault) Q E x s ↔ if c then Q () x s else E fault x s := by
  unfold ensure
  split <;> rfl

theorem wp_onlyIf {m : On Unit} :
    wp T (onlyIf c m) Q E x s ↔ if c then wp T m Q E x s else Q () x s := by
  unfold onlyIf
  split <;> rfl

end Rules

/-- `parseInt((await client.get(key)) || '0', 10)` -/
def getUsage (key : String) : On Int :=
  request (.get key) fun value => (orError value).map fun v => v.getD 0

/-- An empty text counts as none. -/
def nonempty (text : Option String) : Option String := text.filter fun s => s ≠ ""

/-! ## Voice -/

/-- The server's local time: the instant at which a month starts. -/
structure Zone where
  startOfMonth : Int × Int → Int

structure QuotaStatus where
  monthlyUsage : Int
  monthlyLimit : Int
  sessionUsage : Int
  sessionLimit : Int
  requestsThisMinute : Int
  requestsPerMinuteLimit : Int

namespace QuotaService

def MONTHLY_QUOTA_PREFIX : String := "quota:monthly:"

def SESSION_QUOTA_PREFIX : String := "quota:session:"

def RPM_PREFIX : String := "quota:rpm:"

def getMonthKey (userId : String) (now : Int) : String :=
  s!"{MONTHLY_QUOTA_PREFIX}{userId}:{(utcMonth now).1}-{(utcMonth now).2}"

def getSessionKey (sessionId : String) : String := s!"{SESSION_QUOTA_PREFIX}{sessionId}"

def getRpmKey (userId : String) (now : Int) : String := s!"{RPM_PREFIX}{userId}:{utcMinute now}"

/-- The seconds until the next month starts, rounded up.  The month is that of the UTC date, and
starts at local midnight. -/
def getMonthExpiry (zone : Zone) (now : Int) : Int :=
  let (year, month) := utcMonth now
  let nextMonth := zone.startOfMonth (if month = 12 then (year + 1, 1) else (year, month + 1))
  (nextMonth - now + 999) / 1000

/-- Returns the custom limit and the usage. -/
def checkMonthlyQuota (userId : String) (now limit : Int) : On (Option Int × Int) := do
  let customLimit ← request (.get s!"{MONTHLY_QUOTA_PREFIX}{userId}:limit") orError
  let effectiveLimit := customLimit.getD limit
  let usage ← getUsage (getMonthKey userId now)
  ensure (usage < effectiveLimit) (.http 429
    s!"Monthly LLM quota exceeded ({usage}/{effectiveLimit}). Please try again next month or contact support.")
  pure (customLimit, usage)

def checkSessionQuota (sessionId : String) (limit : Int) : On Int := do
  let usage ← getUsage (getSessionKey sessionId)
  ensure (usage < limit) (.http 429
    s!"Session LLM quota exceeded ({usage}/{limit}). Please start a new session.")
  pure usage

def checkRequestsPerMinute (userId : String) (now limit : Int) : On Int := do
  let usage ← getUsage (getRpmKey userId now)
  ensure (usage < limit) (.http 429
    s!"Rate limit exceeded. Maximum {limit} requests per minute.")
  pure usage

def getQuotaStatus (userId sessionId : String) (now : Int) (config : QuotaConfig) :
    On QuotaStatus := do
  let monthlyUsage ← getUsage (getMonthKey userId now)
  let sessionUsage ← getUsage (getSessionKey sessionId)
  let rpmUsage ← getUsage (getRpmKey userId now)
  pure {
    monthlyUsage
    monthlyLimit := config.monthlyLimit
    sessionUsage
    sessionLimit := config.perSessionLimit
    requestsThisMinute := rpmUsage
    requestsPerMinuteLimit := config.requestsPerMinute }

def enforceQuota (userId sessionId : String) (config : QuotaConfig) : On (QuotaStatus × Usage) := do
  let now ← newDate
  tryCatch (do
      let (customLimit, monthly) ← checkMonthlyQuota userId now config.monthlyLimit
      let session ← checkSessionQuota sessionId config.perSessionLimit
      let minute ← checkRequestsPerMinute userId now config.requestsPerMinute
      let status ← getQuotaStatus userId sessionId now config
      pure (status, { customLimit, monthly, session, minute }))
    fun
      | .http status message => throw (.http status message)
      | .error _ => throw (.http 500 "Quota check failed")

/-- The answer to `INCR`, whichever way it is. -/
def incr (key : String) : On (Except String Int) := request (.incr key) fun r => .ok r

/-- A counter that has become 1 is given its expiry. -/
def expireFirst (key : String) (seconds : Int) (newValue : Except String Int) : On Unit :=
  onlyIf (newValue.toOption = some 1) (request (.expire key seconds) fun _ => .ok ())

/-- The three counters are incremented at once, and expiries are set as the answers arrive; a
rejection is only logged. -/
def recordRequest (zone : Zone) (userId sessionId : String) : On Unit := do
  let now ← newDate
  let monthKey := getMonthKey userId now
  let sessionKey := getSessionKey sessionId
  let rpmKey := getRpmKey userId now
  let month ← incr monthKey
  let session ← incr sessionKey
  let rpm ← incr rpmKey
  expireFirst monthKey (getMonthExpiry zone now) month
  expireFirst sessionKey 604800 session
  expireFirst rpmKey 60 rpm

end QuotaService

/-- What the platform does with a text: its SHA-256, in hexadecimal, and `toLowerCase`. -/
structure Platform where
  sha256 : String → String
  toLowerCase : String → String

namespace LlmCacheService

def CACHE_PREFIX : String := "llm:cache:"

def CACHE_VERSION : String := "v1"

def DEFAULT_TTL : Int := 86400

def generateCacheKey (platform : Platform) (prompt model : String) : String :=
  s!"{CACHE_PREFIX}{CACHE_VERSION}:{model}:{platform.sha256 (platform.toLowerCase (trim prompt))}"

def get (platform : Platform) (prompt model : String) : On (Option String) :=
  tryCatch (do
      let cached ← request (.getText (generateCacheKey platform prompt model)) orError
      match nonempty cached with
      | some text =>
        request .countText orError
        pure (some text)
      | none => pure none)
    fun _ => pure none

def set (platform : Platform) (prompt response model : String) (ttl : Option Int) :
    On Unit :=
  tryCatch (do
      let effectiveTtl := (ttl.filter fun t => t ≠ 0).getD DEFAULT_TTL
      request (.setText (generateCacheKey platform prompt model) response effectiveTtl) orError
      request .countText orError)
    fun _ => pure ()

end LlmCacheService

structure LlmResponseOptions where
  model : Option String := none
  useCache : Bool := true
  recordQuota : Bool := true
  cacheTtl : Option Int := none

structure LlmResponse where
  content : String
  cached : Bool
  quotaStatus : Option QuotaStatus
  model : String

namespace LlmService

def FALLBACK_MESSAGE : String :=
  "I'm sorry, I'm having trouble processing your request right now. Please try again in a moment."

def DEFAULT_MODEL : String := "gpt-3.5-turbo"

def responses (prompt : String) : Fin 4 → String
  | 0 => s!"I understand your question about {prompt}. Let me help you with that."
  | 1 => "That's an interesting point. Based on what you've said, I think the best approach would be to consider multiple factors."
  | 2 => "I can definitely help you with that. Here's what I recommend based on your situation."
  | 3 => "Thanks for sharing that with me. Let me provide you with some guidance on this topic."

/-- `prompt.toLowerCase().includes('force-fail')` -/
def forceFail (platform : Platform) (prompt : String) : Bool :=
  decide ("force-fail".toList <:+: (platform.toLowerCase prompt).toList)

def callLlmWithFallback (platform : Platform) (call : ProviderCall) (prompt : String) : On String := do
  request (.call call) fun _ => .ok ()
  if forceFail platform prompt then pure FALLBACK_MESSAGE
  else do
    request (.sleep 500) fun _ => .ok ()
    request .random fun i => .ok (responses prompt i)

def modelOf (options : LlmResponseOptions) : String := (nonempty options.model).getD DEFAULT_MODEL

/-- `useCache ? await this.cacheService.get(prompt, model) : null` -/
def tryCache (platform : Platform) (prompt model : String) (useCache : Bool) :
    On (Option String) :=
  if useCache then LlmCacheService.get platform prompt model else pure none

def generateResponse (zone : Zone) (platform : Platform) (userId sessionId prompt : String)
    (options : LlmResponseOptions) : On LlmResponse :=
  let model := modelOf options
  tryCatch (do
      let (quotaStatus, usage) ← QuotaService.enforceQuota userId sessionId defaultConfig
      let cachedResponse ← tryCache platform prompt model options.useCache
      match cachedResponse with
      | some content => pure { content, cached := true, quotaStatus := some quotaStatus, model }
      | none => do
        let response ← callLlmWithFallback platform (.voice userId sessionId usage) prompt
        onlyIf options.useCache
          (LlmCacheService.set platform prompt response model options.cacheTtl)
        onlyIf options.recordQuota (QuotaService.recordRequest zone userId sessionId)
        pure { content := response, cached := false, quotaStatus := some quotaStatus, model })
    fun
      | .http status message => throw (.http status message)
      | .error _ => throw (.http 500 "LLM service error")

def generateResponseWithFallback (zone : Zone) (platform : Platform)
    (userId sessionId prompt : String) (options : LlmResponseOptions) : On LlmResponse :=
  let fallback (quotaStatus : Option QuotaStatus) : LlmResponse :=
    { content := FALLBACK_MESSAGE, cached := false, quotaStatus, model := modelOf options }
  tryCatch (generateResponse zone platform userId sessionId prompt options) fun _ =>
    tryCatch (do
        let now ← newDate
        let quotaStatus ← QuotaService.getQuotaStatus userId sessionId now defaultConfig
        pure (fallback (some quotaStatus)))
      fun _ => pure (fallback none)

end LlmService

/-! ## AI -/

namespace Ai

/-- The month in UTC, `YYYY-MM`. -/
def getKey (userId : String) (now : Int) : String :=
  s!"{userId}:{String.ofList ((isoChars now).take 7)}"

/-- Returns the number of requests. -/
def assertQuota (userId : String) : On Int := do
  let now ← newDate
  let quota ← request (.getQuota (getKey userId now)) fun r : Option QuotaRecord => .ok r
  let requestCount := (quota.map (·.requestCount)).getD 0
  ensure (requestCount < MAX_REQUESTS) (.http 403 "Monthly AI usage quota exceeded")
  pure requestCount

def recordUsage (userId : String) (tokens : Int) : On Unit := do
  let now ← newDate
  request (.addUsage (getKey userId now) tokens) fun _ => .ok ()

def TTL : Int := 3600

/-- The cache, in Redis if there is one. -/
def get (redis : Bool) (key : String) : On (Option String) :=
  if redis then request (.getText key) orError
  else request (.mapGet key) fun value : Option String => .ok value

def set (redis : Bool) (key value : String) : On Unit :=
  if redis then request (.setText key value TTL) orError
  else request (.mapSet key value) fun _ => .ok ()

def buildKey (sha256 : String → String) (input model : String) : String :=
  s!"ai:{model}:{sha256 input}"

def UNAVAILABLE : String := "AI service is temporarily unavailable. Please try again later."

/-- `FallbackProvider.generate`, with the text and the tokens used. -/
def generate (redis : Bool) (sha256 : String → String) (call : ProviderCall) (prompt : String) :
    On (String × Int) :=
  tryCatch (do
      request (.call call) fun _ => .ok ()
      request .result orError)
    fun _ => do
      let cached ← get redis (buildKey sha256 prompt "fallback")
      pure (((nonempty cached).getD UNAVAILABLE), 0)

structure AiRequestDto where
  prompt : String
  userId : Option String

structure AiResponse where
  response : String
  cached : Option Bool := none
  degraded : Option Bool := none

/-- The calls of a request without a user are not counted. -/
def admission (dto : AiRequestDto) : On ProviderCall :=
  match nonempty dto.userId with
  | some userId => do
    let requestCount ← assertQuota userId
    pure (.ai userId requestCount)
  | none => pure .anonymous

def record (dto : AiRequestDto) (tokens : Int) : On Unit :=
  match nonempty dto.userId with
  | some userId => recordUsage userId tokens
  | none => pure ()

def handlePrompt (redis : Bool) (sha256 : String → String) (dto : AiRequestDto) :
    On AiResponse := do
  let call ← admission dto
  let cacheKey := buildKey sha256 dto.prompt "gpt-4"
  let cached ← get redis cacheKey
  match nonempty cached with
  | some response => pure { response, cached := some true }
  | none =>
    tryCatch (do
        let (response, tokensUsed) ← generate redis sha256 call dto.prompt
        set redis cacheKey response
        record dto tokensUsed
        pure { response, cached := some false })
      fun _ => pure { response := UNAVAILABLE, degraded := some true }

end Ai

/-! ## All requests -/

inductive Operation
  | generateResponse (userId sessionId prompt : String) (options : LlmResponseOptions)
  | generateResponseWithFallback (userId sessionId prompt : String) (options : LlmResponseOptions)
  | handlePrompt (dto : Ai.AiRequestDto)

inductive Reply
  | llm (response : LlmResponse)
  | ai (response : Ai.AiResponse)

/-- The server: its platform, its time zone, and whether the AI service has a Redis. -/
structure Server extends Platform where
  zone : Zone
  redis : Bool

def Operation.program (server : Server) : Operation → Async Request Answer (Except Fault Reply)
  | .generateResponse userId sessionId prompt options => Block.program do
    let response ←
      LlmService.generateResponse server.zone server.toPlatform userId sessionId prompt options
    pure (.llm response)
  | .generateResponseWithFallback userId sessionId prompt options => Block.program do
    let response ← LlmService.generateResponseWithFallback server.zone server.toPlatform userId
      sessionId prompt options
    pure (.llm response)
  | .handlePrompt dto => Block.program do
    let response ← Ai.handlePrompt server.redis server.sha256 dto
    pure (.ai response)

/-- Every call is within all its limits: with it, no window has more calls than the limit. -/
def WithinQuota : List MadeCall → Prop
  | [] => True
  | m :: before =>
    (∀ q ∈ m.quotas, (callsIn q.window (m :: before) : Int) ≤ q.limit) ∧ WithinQuota before

instance decidableWithinQuota : (calls : List MadeCall) → Decidable (WithinQuota calls)
  | [] => isTrue trivial
  | _ :: before => @instDecidableAnd _ _ inferInstance (decidableWithinQuota before)

/-- All interleavings of requests, from any counters and caches. -/
abbrev machine (server : Server) :=
  Async.interleave (Operation.program server) (fun _ => True) answer fun w => WithinQuota w.calls

abbrev System : Type := Async.System Request Answer (Except Fault Reply) World

abbrev Trace : Type := List (Event Outside (Async.Move Operation) Unit System)

end Stellara.Llm
