import Stellara.Llm.Quotas

/-!
# Cached responses

A fallback text is returned like a response of the provider, and stored like one:

    request 1:   provider fails   →   fallback   →   set
    request 2:                                             get   →   cached: true, the fallback

(`fallback_cached`).  While no provider call fails whose answer is to be stored, what a cache gives
was provided for a prompt that is the same up to white space and letter case, and for the same model
(`cached_provided`).
-/

namespace Stellara.Llm

open Block
open Async (Answered obeying started attempt_cases interleave_obeys)

/-! ## What is asked for -/

/-- The prompt of a request, and the options of the voice service. -/
inductive Question
  | voice (prompt : String) (options : LlmResponseOptions)
  | ai (prompt : String)

def Operation.question : Operation → Question
  | .generateResponse _ _ prompt options | .generateResponseWithFallback _ _ prompt options =>
    .voice prompt options
  | .handlePrompt dto => .ai dto.prompt

namespace Question

def prompt : Question → String
  | .voice prompt _ | .ai prompt => prompt

def model : Question → String
  | .voice _ options => LlmService.modelOf options
  | .ai _ => "gpt-4"

def UsesCache : Question → Prop
  | .voice _ options => options.useCache = true
  | .ai _ => True

instance : DecidablePred UsesCache := fun q => by
  cases q <;> unfold UsesCache <;> infer_instance

/-- The text whose digest is in the key. -/
def hashed (platform : Platform) : Question → String
  | .voice prompt _ => platform.toLowerCase (trim prompt)
  | .ai prompt => prompt

def cacheKey (platform : Platform) : Question → String
  | .voice prompt options =>
    LlmCacheService.generateCacheKey platform prompt (LlmService.modelOf options)
  | .ai prompt => Ai.buildKey platform.sha256 prompt "gpt-4"

/-- The provider of the voice service throws. -/
def Throws (platform : Platform) : Question → Prop
  | .voice prompt _ => LlmService.forceFail platform prompt = true
  | .ai _ => False

instance (platform : Platform) : DecidablePred (Throws platform) := fun q => by
  cases q <;> unfold Throws <;> infer_instance

/-- The same up to white space and letter case, and for the same model. -/
def Alike (platform : Platform) (q q' : Question) : Prop :=
  platform.toLowerCase (trim q.prompt) = platform.toLowerCase (trim q'.prompt) ∧ q.model = q'.model

end Question

/-- The content of a reply that is said to be cached. -/
def Reply.fromCache : Reply → Option String
  | .llm response => if response.cached then some response.content else none
  | .ai response => if response.cached = some true then some response.response else none

theorem Reply.fromCache_llm {response : LlmResponse} {content : String}
    (h : (Reply.llm response).fromCache = some content) :
    response.cached = true ∧ response.content = content := by
  have h : (if response.cached = true then some response.content else none) = some content := h
  split at h
  · next hcached => exact ⟨hcached, Option.some.inj h⟩
  · cases h

theorem Reply.fromCache_ai {response : Ai.AiResponse} {content : String}
    (h : (Reply.ai response).fromCache = some content) :
    response.cached = some true ∧ response.response = content := by
  have h : (if response.cached = some true then some response.response else none) =
      some content := h
  split at h
  · next hcached => exact ⟨hcached, Option.some.inj h⟩
  · cases h

/-- What request `i` has been answered from a cache. -/
def served (t : System) (i : Nat) : Option String :=
  match t.tasks[i]? with
  | some (.done (.ok reply)) => reply.fromCache
  | _ => none

theorem served_eq_some {t : System} {i : Nat} {content : String} (h : served t i = some content) :
    ∃ reply, t.tasks[i]? = some (.done (.ok reply)) ∧ reply.fromCache = some content := by
  unfold served at h
  split at h
  · next reply htask => exact ⟨reply, htask, h⟩
  · cases h

/-! ## Provider calls -/

/-- What a provider gives in a step. -/
def provided (c : Outside) (q : Question) : Request → Option String
  | .random => some (LlmService.responses q.prompt c.random)
  | .result => c.result.toOption.map (·.1)
  | _ => none

/-- A provider gave this content to a request with this question. -/
def Provided (tr : Trace) (q : Question) (content : String) : Prop :=
  ∃ e ∈ tr, ∃ i op a, (started tr)[i]? = some op ∧ op.question = q ∧ e.call = .resume i ∧
    e.before.awaited i = some a ∧ provided e.env q a = some content

/-- The provider call, if it is one, does not fail, or its answer is not stored. -/
def Question.Succeeds (platform : Platform) (c : Outside) (q : Question) : Request → Prop
  | .call _ => q.UsesCache → ¬ q.Throws platform
  | .result => c.result.isOk = true
  | _ => True

instance (platform : Platform) (c : Outside) (q : Question) :
    DecidablePred (q.Succeeds platform c)
  | .call _ => inferInstanceAs (Decidable (q.UsesCache → ¬ q.Throws platform))
  | .result => inferInstanceAs (Decidable (c.result.isOk = true))
  | .now | .sleep _ | .random | .get _ | .incr _ | .expire _ _ | .getText _ | .setText _ _ _
  | .countText | .mapGet _ | .mapSet _ _ | .getQuota _ | .addUsage _ _ => instDecidableTrue

/-- No provider call fails whose answer is to be stored. -/
def Succeeds (platform : Platform) (e : Event Outside (Async.Move Operation) Unit System)
    (tr : Trace) : Prop :=
  match e.call with
  | .start _ => True
  | .resume i => ∀ op ∈ (started tr)[i]?, ∀ a ∈ e.before.awaited i,
    op.question.Succeeds platform e.env a

instance (platform : Platform) (e : Event Outside (Async.Move Operation) Unit System)
    (tr : Trace) : Decidable (Succeeds platform e tr) := by
  unfold Succeeds
  split <;> infer_instance

/-- All interleavings of requests, from empty caches. -/
abbrev caching (server : Server) :=
  Async.interleave (Operation.program server) (fun _ => True) answer
    fun w => w.texts = ∅ ∧ w.memory = ∅

/-! ## The way of a request -/

/-- What the cache gave to a request, what its provider gave, and whether the provider failed. -/
structure Point where
  question : Question
  found : Option String := none
  produced : Option String := none
  failed : Bool := false

def asks (platform : Platform) (g : Point) : Request → Prop
  | .setText key value _ | .mapSet key value =>
    key = g.question.cacheKey platform ∧ g.question.UsesCache ∧
      (g.failed = false → g.produced = some value)
  | _ => True

def next (platform : Platform) (g : Point) : (a : Request) → Answer a → Point
  | .getText key, r =>
    if key = g.question.cacheKey platform then { g with found := Except.toOption r |>.join } else g
  | .mapGet key, r => if key = g.question.cacheKey platform then { g with found := r } else g
  | .call _, _ => if g.question.Throws platform then { g with failed := true } else g
  | .random, i => { g with produced := some (LlmService.responses g.question.prompt i) }
  | .result, r =>
    match r with
    | .ok (text, _) => { g with produced := some text }
    | .error _ => { g with failed := true }
  | _, _ => g

def protocol (platform : Platform) : Protocol Request Answer Point where
  asks := asks platform
  told _ _ _ := True
  next := next platform

/-- What is said to be cached is what the cache gave. -/
def End (r : Except Fault Reply) (g : Point) : Prop :=
  ∀ reply, r = .ok reply → ∀ content ∈ reply.fromCache, g.found = some content

theorem end_error (e : Fault) (g : Point) : End (.error e) g := by
  intro reply h
  cases h

theorem neutral_background (platform : Platform) (g : Point) :
    (protocol platform).Neutral Background g := by
  intro a ha
  cases a <;> first | exact ⟨trivial, fun _ => rfl⟩ | exact absurd ha id

section Programs

variable {platform : Platform} {q : Question} {g : Point}

/-- The quota services leave a request where it is. -/
theorem wp_background {α : Type} {m : On α} {R : α → Prop} {Q : α → Unit → Point → Prop}
    {E : Fault → Unit → Point → Prop} (h : Keeps Background m R) (hQ : ∀ x, R x → Q x () g)
    (hE : ∀ e, E e () g) : wp (obeying (protocol platform)) m Q E () g := by
  refine wp_mono ?_ ?_ (h.obeys (neutral_background platform g))
  · rintro x u g' ⟨hx, rfl⟩
    exact hQ x hx
  · rintro e u g' rfl
    exact hE e

section Voice

open LlmService

variable {prompt : String} {options : LlmResponseOptions}

/-- The answer of the cache is what it gave, and it never throws. -/
theorem wp_cacheGet (hq : g.question = .voice prompt options) :
    wp (obeying (protocol platform)) (LlmCacheService.get platform prompt (modelOf options))
      (fun cached _ g' => g'.question = g.question ∧ ∀ content ∈ cached, g'.found = some content)
      (fun _ _ _ => False) () g := by
  have hkey : LlmCacheService.generateCacheKey platform prompt (modelOf options) =
      g.question.cacheKey platform := by rw [hq]; rfl
  refine wp_tryCatch.mpr (wp_bind.mpr ⟨trivial, fun r _ => ?_⟩)
  have hnext : (protocol platform).next g (.getText (LlmCacheService.generateCacheKey platform
      prompt (modelOf options))) r = { g with found := (Except.toOption r).join } := if_pos hkey
  rw [hnext]
  cases r with
  | error e => exact ⟨rfl, nofun⟩
  | ok value =>
    change wp _ _ _ _ () _
    cases hvalue : nonempty value with
    | none => exact ⟨rfl, nofun⟩
    | some text =>
      have hfound : value = some text := (Option.filter_eq_some_iff.mp hvalue).1
      refine wp_bind.mpr ⟨trivial, fun r _ => ?_⟩
      cases r with
      | error e => exact ⟨rfl, nofun⟩
      | ok u =>
        refine ⟨rfl, ?_⟩
        rintro content hcontent
        cases hcontent
        exact hfound

theorem wp_tryCache (hq : g.question = .voice prompt options) {useCache : Bool} :
    wp (obeying (protocol platform)) (tryCache platform prompt (modelOf options) useCache)
      (fun cached _ g' => g'.question = g.question ∧ ∀ content ∈ cached, g'.found = some content)
      (fun _ _ _ => False) () g := by
  unfold tryCache
  split
  · exact wp_cacheGet hq
  · exact ⟨rfl, nofun⟩

/-- What the provider gave, unless it failed. -/
def Produces (q : Question) (content : String) (g : Point) : Prop :=
  g.question = q ∧ (g.failed = false → g.produced = some content)

theorem wp_callLlmWithFallback (hq : g.question = .voice prompt options) {call : ProviderCall} :
    wp (obeying (protocol platform)) (callLlmWithFallback platform call prompt)
      (fun response _ => Produces g.question response) (fun _ _ _ => False) () g := by
  refine wp_bind.mpr ⟨trivial, fun _ _ => ?_⟩
  have hthrows : g.question.Throws platform ↔ forceFail platform prompt = true := by rw [hq]; rfl
  show wp _ (if forceFail platform prompt = true then _ else _) _ _ ()
    (if g.question.Throws platform then { g with failed := true } else g)
  split
  · next hfail =>
    rw [if_pos (hthrows.mpr hfail)]
    exact ⟨rfl, nofun⟩
  · next hfail =>
    rw [if_neg fun h => hfail (hthrows.mp h)]
    refine wp_bind.mpr ⟨trivial, fun _ _ => ⟨trivial, fun i _ => ?_⟩⟩
    have hprompt : g.question.prompt = prompt := by rw [hq]; rfl
    refine ⟨rfl, fun _ => ?_⟩
    show some (responses g.question.prompt i) = _
    rw [hprompt]

theorem wp_cacheSet {g' : Point} {response : String} {ttl : Option Int}
    (hq : g'.question = .voice prompt options) (huses : options.useCache = true)
    (hproduces : Produces q response g') :
    wp (obeying (protocol platform))
      (LlmCacheService.set platform prompt response (modelOf options) ttl)
      (fun _ _ g'' => g'' = g') (fun _ _ _ => False) () g' := by
  refine wp_tryCatch.mpr (wp_bind.mpr ⟨⟨?_, ?_, hproduces.2⟩, fun r _ => ?_⟩)
  · rw [hq]
    rfl
  · rw [hq]
    exact huses
  · cases r with
    | error e => rfl
    | ok u =>
      refine ⟨trivial, fun r _ => ?_⟩
      cases r <;> rfl

theorem wp_generateResponse {zone : Zone} {userId sessionId : String}
    (hq : g.question = .voice prompt options) :
    wp (obeying (protocol platform))
      (generateResponse zone platform userId sessionId prompt options)
      (fun response _ g' => response.cached = true → g'.found = some response.content)
      (fun _ _ g' => g'.question = g.question) () g := by
  refine wp_tryCatch.mpr (wp_mono (E := fun _ _ g' => g'.question = g.question) (fun _ _ _ h => h)
    ?_ (wp_bind.mpr ?_))
  · intro e u g' hg'
    cases e <;> exact hg'
  refine wp_background (keeps_enforceQuota fun _ h => h) (fun x _ => ?_) fun _ => rfl
  refine wp_bind.mpr (wp_mono ?_ (fun _ _ _ => False.elim) (wp_tryCache hq))
  rintro cached u g₁ ⟨hq₁, hfound⟩
  cases cached with
  | some content => exact fun _ => hfound content rfl
  | none =>
    have hvoice := hq₁.trans hq
    refine wp_bind.mpr (wp_mono ?_ (fun _ _ _ => False.elim) (wp_callLlmWithFallback hvoice))
    intro response u g₂ hproduces
    refine wp_bind.mpr (wp_onlyIf.mpr ?_)
    have hrest : wp (obeying (protocol platform))
        (onlyIf options.recordQuota (QuotaService.recordRequest zone userId sessionId))
        (fun _ _ _ => True) (fun _ _ g' => g'.question = g.question) () g₂ := by
      refine wp_background (keeps_onlyIf fun _ => keeps_recordRequest fun _ h => h)
        (fun _ _ => trivial) fun _ => hproduces.1.trans hq₁
    have hlast : wp (obeying (protocol platform)) (do
        onlyIf options.recordQuota (QuotaService.recordRequest zone userId sessionId)
        pure { content := response, cached := false, quotaStatus := some x.1,
               model := modelOf options } : On LlmResponse)
        (fun response _ g' => response.cached = true → g'.found = some response.content)
        (fun _ _ g' => g'.question = g.question) () g₂ :=
      wp_bind.mpr (wp_mono (fun _ _ _ _ => nofun) (fun _ _ _ h => h) hrest)
    split
    · next huses =>
      refine wp_mono ?_ (fun _ _ _ => False.elim)
        (wp_cacheSet (hproduces.1.trans hvoice) huses hproduces)
      rintro _ u g₃ rfl
      exact hlast
    · exact hlast

theorem wp_generateResponseWithFallback {zone : Zone} {userId sessionId : String}
    (hq : g.question = .voice prompt options) :
    wp (obeying (protocol platform))
      (generateResponseWithFallback zone platform userId sessionId prompt options)
      (fun response _ g' => response.cached = true → g'.found = some response.content)
      (fun _ _ _ => True) () g := by
  refine wp_tryCatch.mpr (wp_mono (fun _ _ _ h => h) ?_ (wp_generateResponse hq))
  intro e u g' _
  refine wp_tryCatch.mpr (wp_bind.mpr ?_)
  refine wp_background (keeps_newDate fun _ h => h) (fun now _ => ?_) fun _ => nofun
  refine wp_bind.mpr ?_
  exact wp_background (keeps_getQuotaStatus fun _ h => h) (fun _ _ => nofun) fun _ => nofun

end Voice

/-! ### AI -/

section AiService

open Ai

variable {redis : Bool} {dto : AiRequestDto}

/-- A text that is looked up, and what the cache gave where it is the request's own. -/
theorem wp_aiGet {key : String} :
    wp (obeying (protocol platform)) (Ai.get redis key)
      (fun cached _ g' => g'.question = g.question ∧ g'.produced = g.produced ∧
        g'.failed = g.failed ∧ (key = g.question.cacheKey platform → g'.found = cached))
      (fun _ _ g' => g'.question = g.question) () g := by
  unfold Ai.get
  split
  · refine ⟨trivial, fun r _ => ?_⟩
    show Ends _ _ _ (if key = g.question.cacheKey platform then
      { g with found := (Except.toOption r).join } else g)
    cases r with
    | error e => split <;> rfl
    | ok value =>
      split
      · exact ⟨rfl, rfl, rfl, fun _ => rfl⟩
      · next hne => exact ⟨rfl, rfl, rfl, fun h => absurd h hne⟩
  · refine ⟨trivial, fun value _ => ?_⟩
    show Ends _ _ _ (if key = g.question.cacheKey platform then { g with found := value } else g)
    split
    · exact ⟨rfl, rfl, rfl, fun _ => rfl⟩
    · next hne => exact ⟨rfl, rfl, rfl, fun h => absurd h hne⟩

theorem wp_generate {call : ProviderCall} {prompt : String} (hq : g.question = .ai dto.prompt) :
    wp (obeying (protocol platform)) (generate redis platform.sha256 call prompt)
      (fun result _ => Produces g.question result.1) (fun _ _ _ => True) () g := by
  refine wp_tryCatch.mpr (wp_bind.mpr ⟨trivial, fun _ _ => ?_⟩)
  have hthrows : ¬ g.question.Throws platform := by
    rw [hq]
    exact id
  show wp _ _ _ _ () (if g.question.Throws platform then { g with failed := true } else g)
  rw [if_neg hthrows]
  refine ⟨trivial, fun r _ => ?_⟩
  cases r with
  | ok result => exact ⟨rfl, fun _ => rfl⟩
  | error e =>
    refine wp_bind.mpr (wp_mono ?_ (fun _ _ _ _ => trivial) wp_aiGet)
    rintro cached u g' ⟨hquestion, -, hfailed, -⟩
    refine ⟨hquestion, fun hnot => ?_⟩
    rw [hfailed] at hnot
    cases hnot

theorem wp_aiSet {value : String} (hq : g.question = .ai dto.prompt)
    (hproduces : Produces q value g) :
    wp (obeying (protocol platform)) (Ai.set redis (buildKey platform.sha256 dto.prompt "gpt-4")
      value) (fun _ _ _ => True) (fun _ _ _ => True) () g := by
  have hasks : buildKey platform.sha256 dto.prompt "gpt-4" = g.question.cacheKey platform ∧
      g.question.UsesCache ∧ (g.failed = false → g.produced = some value) := by
    rw [hq]
    exact ⟨rfl, trivial, hproduces.2⟩
  unfold Ai.set
  split
  · refine ⟨hasks, fun r _ => ?_⟩
    cases r <;> trivial
  · exact ⟨hasks, fun _ _ => trivial⟩

theorem wp_handlePrompt (hq : g.question = .ai dto.prompt) :
    wp (obeying (protocol platform)) (handlePrompt redis platform.sha256 dto)
      (fun response _ g' => response.cached = some true → g'.found = some response.response)
      (fun _ _ _ => True) () g := by
  refine wp_bind.mpr (wp_background (keeps_admission fun _ h => h) (fun call _ => ?_)
    fun _ => trivial)
  refine wp_bind.mpr (wp_mono ?_ (fun _ _ _ _ => trivial) wp_aiGet)
  rintro cached u g₁ ⟨hq₁, -, -, hfound⟩
  cases hcached : nonempty cached with
  | some response =>
    intro _
    rw [hfound (by rw [hq]; rfl)]
    exact (Option.filter_eq_some_iff.mp hcached).1
  | none =>
    refine wp_tryCatch.mpr (wp_bind.mpr ?_)
    have hai := hq₁.trans hq
    refine wp_mono ?_ (fun _ _ _ _ => nofun) (wp_generate hai)
    intro result u g₂ hproduces
    refine wp_bind.mpr (wp_mono ?_ (fun _ _ _ _ => nofun)
      (wp_aiSet (hproduces.1.trans hai) hproduces))
    intro _ u g₃ _
    exact wp_bind.mpr (wp_background (keeps_record fun _ h => h) (fun _ _ => nofun)
      fun _ => nofun)

end AiService

end Programs

/-- **Every program** obeys the protocol. -/
theorem program_obeys (server : Server) (op : Operation) :
    Async.wp (obeying (protocol server.toPlatform)) (op.program server) End
      { question := op.question } := by
  cases op with
  | generateResponse userId sessionId prompt options =>
    refine wp_program.mpr (wp_bind.mpr (wp_mono ?_ ?_ (wp_generateResponse rfl)))
    · rintro response u g hfound reply hreply content hcontent
      obtain rfl := Except.ok.inj hreply
      obtain ⟨hcached, rfl⟩ := Reply.fromCache_llm hcontent
      exact hfound hcached
    · exact fun e _ g _ => end_error e g
  | generateResponseWithFallback userId sessionId prompt options =>
    refine wp_program.mpr (wp_bind.mpr (wp_mono ?_ ?_ (wp_generateResponseWithFallback rfl)))
    · rintro response u g hfound reply hreply content hcontent
      obtain rfl := Except.ok.inj hreply
      obtain ⟨hcached, rfl⟩ := Reply.fromCache_llm hcontent
      exact hfound hcached
    · exact fun e _ g _ => end_error e g
  | handlePrompt dto =>
    refine wp_program.mpr (wp_bind.mpr (wp_mono ?_ ?_ (wp_handlePrompt rfl)))
    · rintro response u g hfound reply hreply content hcontent
      obtain rfl := Except.ok.inj hreply
      obtain ⟨hcached, rfl⟩ := Reply.fromCache_ai hcontent
      exact hfound hcached
    · exact fun e _ g _ => end_error e g

/-! ## The caches -/

section Caches

variable {platform : Platform} {tr : Trace} {q : Question} {content : String}

theorem Provided.cons {e : Event Outside (Async.Move Operation) Unit System}
    (h : Provided tr q content) : Provided (e :: tr) q content := by
  obtain ⟨e', he', i, op, a, hop, hrest⟩ := h
  exact ⟨e', List.mem_cons_of_mem _ he', i, op, a, Async.getElem?_started_cons hop, hrest⟩

/-- What is under a key was provided for a question with this key. -/
def Genuine (platform : Platform) (tr : Trace) (key content : String) : Prop :=
  ∃ q, Provided tr q content ∧ q.cacheKey platform = key

theorem Genuine.cons {key : String} {e : Event Outside (Async.Move Operation) Unit System}
    (h : Genuine platform tr key content) : Genuine platform (e :: tr) key content := by
  obtain ⟨q, hprovided, hkey⟩ := h
  exact ⟨q, hprovided.cons, hkey⟩

/-- What a request has found or produced was provided, and no failed one stores anything. -/
structure Point.Genuine (platform : Platform) (tr : Trace) (g : Point) : Prop where
  found : ∀ content, g.found = some content →
    Llm.Genuine platform tr (g.question.cacheKey platform) content
  produced : ∀ content, g.produced = some content → Provided tr g.question content
  failed : g.failed = true → ¬ g.question.UsesCache

theorem Point.Genuine.cons {g : Point} {e : Event Outside (Async.Move Operation) Unit System}
    (h : g.Genuine platform tr) : g.Genuine platform (e :: tr) :=
  ⟨fun content hfound => (h.found content hfound).cons,
    fun content hproduced => (h.produced content hproduced).cons, h.failed⟩

/-- Both caches have only what was provided. -/
structure Genuines (platform : Platform) (tr : Trace) (w : World) (gs : List Point) : Prop where
  texts : ∀ key x, w.texts.lookup key = some x → Genuine platform tr key x.value
  memory : ∀ key value, w.memory.lookup key = some value → Genuine platform tr key value
  points : ∀ g ∈ gs, g.Genuine platform tr

section Step

variable {e : Event Outside (Async.Move Operation) Unit System} {i : Nat} {a : Request}
  {r : Answer a} {g : Point} {gs : List Point} {op : Operation}

theorem provided_of_answered {content : String} (hans : Answered answer e i a r)
    (hop : (started tr)[i]? = some op) (hq : op.question = g.question)
    (h : provided e.env g.question a = some content) : Provided (e :: tr) g.question content :=
  ⟨e, List.mem_cons_self, i, op, a, Async.getElem?_started_cons hop, hq, hans.call, hans.awaited, h⟩

/-- What a task has found or produced was provided. -/
theorem Point.Genuine.next {w : World} (h : g.Genuine platform tr) (hw : e.before.world = w)
    (htexts : ∀ key x, w.texts.lookup key = some x → Llm.Genuine platform tr key x.value)
    (hmemory : ∀ key value, w.memory.lookup key = some value →
      Llm.Genuine platform tr key value)
    (hans : Answered answer e i a r) (hop : (started tr)[i]? = some op)
    (hq : op.question = g.question) (hsucceeds : op.question.Succeeds platform e.env a) :
    (next platform g a r).Genuine platform (e :: tr) := by
  have hanswer := hans.answer
  rw [hw] at hanswer
  have hcons : g.Genuine platform (e :: tr) := h.cons
  rw [hq] at hsucceeds
  cases a with
  | getText key =>
    show (if key = g.question.cacheKey platform then _ else g : Point).Genuine platform _
    split
    · next hkey =>
      refine ⟨fun content hfound => ?_, hcons.produced, hcons.failed⟩
      have hfound : (Except.toOption r).join = some content := hfound
      obtain ⟨_, -, hr, -⟩ | ⟨-, hr, -⟩ := attempt_cases hanswer <;> rw [hr] at hfound
      · cases hfound
      · obtain ⟨x, hlive, rfl⟩ := Option.map_eq_some_iff.mp hfound
        rw [← hkey]
        exact (htexts key x (Option.filter_eq_some_iff.mp hlive).1).cons
    · exact hcons
  | mapGet key =>
    show (if key = g.question.cacheKey platform then _ else g : Point).Genuine platform _
    split
    · next hkey =>
      refine ⟨fun content hfound => ?_, hcons.produced, hcons.failed⟩
      cases hanswer
      rw [← hkey]
      exact (hmemory key content hfound).cons
    · exact hcons
  | call c =>
    show (if g.question.Throws platform then { g with failed := true } else g).Genuine platform _
    split
    · next hthrows =>
      exact ⟨hcons.found, hcons.produced, fun _ huses => hsucceeds huses hthrows⟩
    · exact hcons
  | random =>
    refine ⟨hcons.found, fun content hproduced => ?_, hcons.failed⟩
    cases hanswer
    exact provided_of_answered hans hop hq hproduced
  | result =>
    cases hanswer
    show (match e.env.result with
      | .ok (text, _) => { g with produced := some text }
      | .error _ => { g with failed := true } : Point).Genuine platform _
    unfold Question.Succeeds at hsucceeds
    split
    · next text tokens hresult =>
      refine ⟨hcons.found, fun content hproduced => provided_of_answered hans hop hq ?_,
        hcons.failed⟩
      show e.env.result.toOption.map _ = _
      rw [hresult]
      exact hproduced
    · next message hresult =>
      rw [hresult] at hsucceeds
      cases hsucceeds
  | _ => exact hcons

/-- What a task that does not fail stores was provided. -/
theorem Point.Genuine.stores (h : g.Genuine platform tr) {key value : String}
    (hasks : key = g.question.cacheKey platform ∧ g.question.UsesCache ∧
      (g.failed = false → g.produced = some value)) : Llm.Genuine platform tr key value := by
  obtain ⟨rfl, huses, hproduced⟩ := hasks
  have hfailed : g.failed = false := by
    cases hfailed : g.failed with
    | false => rfl
    | true => exact absurd huses (h.failed hfailed)
  exact ⟨g.question, h.produced value (hproduced hfailed), rfl⟩

/-- **One answer** leaves only what was provided in the caches. -/
theorem Genuines.answered (h : Genuines platform tr e.before.world gs)
    (hg : gs[i]? = some g) (hans : Answered answer e i a r) (hasks : asks platform g a)
    (hop : (started tr)[i]? = some op) (hq : op.question = g.question)
    (hsucceeds : op.question.Succeeds platform e.env a) :
    Genuines platform (e :: tr) e.after.world (gs.set i (next platform g a r)) := by
  have hpoint := h.points g (List.mem_of_getElem? hg)
  have hanswer := hans.answer
  have htexts : ∀ key x, e.before.world.texts.lookup key = some x →
      Genuine platform (e :: tr) key x.value := fun key x hx => (h.texts key x hx).cons
  have hmemory : ∀ key value, e.before.world.memory.lookup key = some value →
      Genuine platform (e :: tr) key value := fun key value hvalue =>
    (h.memory key value hvalue).cons
  refine ⟨?_, ?_, fun x hx => ?_⟩
  · cases a with
    | setText key value seconds =>
      obtain ⟨_, -, -, hafter⟩ | ⟨-, -, hafter⟩ := attempt_cases hanswer
      · rw [hafter]
        exact htexts
      · intro key' x hx
        rw [hafter, Store.lookup_insert_eq] at hx
        split at hx
        · next hkey =>
          cases hx
          rw [hkey]
          exact (hpoint.stores hasks).cons
        · exact htexts key' x hx
    | get _ | incr _ | expire _ _ | getText _ | countText =>
      obtain ⟨_, -, -, hafter⟩ | ⟨-, -, hafter⟩ := attempt_cases hanswer <;> rw [hafter] <;>
        exact htexts
    | now | sleep _ | random | mapGet _ | mapSet _ _ | getQuota _ | addUsage _ _ | call _
    | result =>
      rw [← (Prod.mk.inj (Option.some.inj hanswer)).2]
      exact htexts
  · cases a with
    | mapSet key value =>
      rw [← (Prod.mk.inj (Option.some.inj hanswer)).2]
      intro key' x hx
      rw [Store.lookup_insert_eq] at hx
      split at hx
      · next hkey =>
        cases hx
        rw [hkey]
        exact (hpoint.stores hasks).cons
      · exact hmemory key' x hx
    | get _ | incr _ | expire _ _ | getText _ | setText _ _ _ | countText =>
      obtain ⟨_, -, -, hafter⟩ | ⟨-, -, hafter⟩ := attempt_cases hanswer <;> rw [hafter] <;>
        exact hmemory
    | now | sleep _ | random | mapGet _ | getQuota _ | addUsage _ _ | call _ | result =>
      rw [← (Prod.mk.inj (Option.some.inj hanswer)).2]
      exact hmemory
  · rcases Async.of_mem_set hg hx with rfl | ⟨j, -, hj⟩
    · exact hpoint.next rfl h.texts h.memory hans hop hq hsucceeds
    · exact (h.points x (List.mem_of_getElem? hj)).cons

end Step

end Caches

/-- Every request of a run is at the point of its question, and while no provider call fails, all
that was stored or found was provided. -/
def Stands (platform : Platform) (tr : Trace) (w : World) (gs : List Point) : Prop :=
  gs.map (·.question) = (started tr).map (·.question) ∧
    (Throughout (Succeeds platform) tr → Genuines platform tr w gs)

theorem stands_run {server : Server} {tr : Trace} {t : System} (h : Run (caching server) tr t) :
    ∃ gs, Stands server.toPlatform tr t.world gs ∧
      List.Forall₂ (Async.wp (obeying (protocol server.toPlatform)) · End) t.tasks gs := by
  refine interleave_obeys (J := Stands server.toPlatform)
    (fun op _ => program_obeys server op) ?_ ?_ ?_ h fun _ _ => True.intro
  · rintro w ⟨htexts, hmemory⟩
    refine ⟨rfl, fun _ => ⟨fun key x hx => ?_, fun key value hvalue => ?_, fun g hg => ?_⟩⟩
    · rw [htexts] at hx
      cases hx
    · rw [hmemory] at hvalue
      cases hvalue
    · cases hg
  · rintro tr w gs op e - hcall ⟨hmap, hgenuine⟩
    refine ⟨?_, fun hsucceeds => ?_⟩
    · rw [Async.started_start hcall, List.map_append, List.map_append, hmap]
      rfl
    · have h := hgenuine hsucceeds.2
      refine ⟨fun key x hx => (h.texts key x hx).cons,
        fun key value hvalue => (h.memory key value hvalue).cons, fun g hg => ?_⟩
      rcases List.mem_append.mp hg with hg | hg
      · exact (h.points g hg).cons
      · rw [List.mem_singleton.mp hg]
        exact ⟨nofun, nofun, nofun⟩
  · rintro tr e gs i a r g - hans - hg hasks ⟨hmap, hgenuine⟩
    -- the question of the task that is answered
    have hlookup : ((started tr).map (·.question))[i]? = some g.question := by
      rw [← hmap, List.getElem?_map, hg]
      rfl
    rw [List.getElem?_map, Option.map_eq_some_iff] at hlookup
    obtain ⟨op, hop, hq⟩ := hlookup
    refine ⟨trivial, ?_, fun hsucceeds => ?_⟩
    · rw [Async.started_resume hans.call, ← hmap]
      refine Async.map_set_of_eq hg ?_
      show (next server.toPlatform g a r).question = g.question
      unfold next
      split <;> first | rfl | (split <;> rfl)
    · have hthis : op.question.Succeeds server.toPlatform e.env a := by
        have hstep := hsucceeds.1
        unfold Succeeds at hstep
        rw [hans.call] at hstep
        exact hstep op hop a hans.awaited
      exact (hgenuine hsucceeds.2).answered hg hans hasks hop hq hthis

/-! ## Keys -/

section Keys

variable {platform : Platform} {q q' : Question}

/-- Where a list is cut at a character for the last time. -/
theorem cut_last {α : Type} {c : α} {xs ys us vs : List α} (h : xs ++ c :: ys = us ++ c :: vs)
    (hys : c ∉ ys) (hvs : c ∉ vs) : xs = us ∧ ys = vs := by
  rcases List.append_eq_append_iff.mp h with ⟨zs, rfl, hz⟩ | ⟨zs, rfl, hz⟩
  · cases zs with
    | nil => exact ⟨(List.append_nil xs).symm, (List.cons.inj hz).2⟩
    | cons z zs =>
      obtain ⟨-, rfl⟩ := List.cons.inj hz
      exact absurd (List.mem_append_right _ List.mem_cons_self) hys
  · cases zs with
    | nil => exact ⟨List.append_nil us, (List.cons.inj hz).2.symm⟩
    | cons z zs =>
      obtain ⟨-, rfl⟩ := List.cons.inj hz
      exact absurd (List.mem_append_right _ List.mem_cons_self) hvs

/-- What the digests of a run are relied on for: they have no colon, and different texts of the
run have different ones. -/
structure Digests (platform : Platform) (tr : Trace) : Prop where
  colon : ∀ text, ':' ∉ (platform.sha256 text).toList
  collision : ∀ op ∈ started tr, ∀ op' ∈ started tr,
    platform.sha256 (op.question.hashed platform) = platform.sha256 (op'.question.hashed platform) →
    op.question.hashed platform = op'.question.hashed platform

theorem toList_cacheKey_voice {prompt : String} {options : LlmResponseOptions} :
    ((Question.voice prompt options).cacheKey platform).toList =
      ("llm:cache:v1:".toList ++ (LlmService.modelOf options).toList) ++
        ':' :: (platform.sha256 (platform.toLowerCase (trim prompt))).toList := by
  simp [Question.cacheKey, LlmCacheService.generateCacheKey, LlmCacheService.CACHE_PREFIX,
    LlmCacheService.CACHE_VERSION, toString]

theorem toList_cacheKey_ai {prompt : String} :
    ((Question.ai prompt).cacheKey platform).toList =
      "ai:gpt-4:".toList ++ (platform.sha256 prompt).toList := by
  simp [Question.cacheKey, Ai.buildKey, toString]

/-- Questions with one key are alike. -/
theorem Question.alike_of_cacheKey (hcolon : ∀ text, ':' ∉ (platform.sha256 text).toList)
    (hcollision : platform.sha256 (q.hashed platform) = platform.sha256 (q'.hashed platform) →
      q.hashed platform = q'.hashed platform)
    (h : q.cacheKey platform = q'.cacheKey platform) : q.Alike platform q' := by
  have hlist := congrArg String.toList h
  cases q with
  | voice prompt options =>
    cases q' with
    | voice prompt' options' =>
      rw [toList_cacheKey_voice, toList_cacheKey_voice] at hlist
      obtain ⟨hmodel, hdigest⟩ := cut_last hlist (hcolon _) (hcolon _)
      exact ⟨hcollision (String.toList_inj.mp hdigest),
        String.toList_inj.mp (List.append_cancel_left hmodel)⟩
    | ai prompt' =>
      rw [toList_cacheKey_voice, toList_cacheKey_ai] at hlist
      cases (List.cons.inj hlist).1
  | ai prompt =>
    cases q' with
    | voice prompt' options' =>
      rw [toList_cacheKey_voice, toList_cacheKey_ai] at hlist
      cases (List.cons.inj hlist).1
    | ai prompt' =>
      rw [toList_cacheKey_ai, toList_cacheKey_ai] at hlist
      have hprompt : prompt = prompt' :=
        hcollision (String.toList_inj.mp (List.append_cancel_left hlist))
      rw [hprompt]
      exact ⟨rfl, rfl⟩

end Keys

/-- **What is served from a cache** was given by a provider, for a prompt that is the same up to
white space and letter case and for the same model, in an interleaving of requests in which no
provider call fails whose answer is to be stored. -/
theorem cached_provided {server : Server} {tr : Trace} {t : System}
    (h : Run (caching server) tr t) (hdigests : Digests server.toPlatform tr)
    (hsucceeds : Throughout (Succeeds server.toPlatform) tr) :
    ∀ i op content, (started tr)[i]? = some op → served t i = some content →
      ∃ q, Provided tr q content ∧ op.question.Alike server.toPlatform q := by
  intro i op content hop hserved
  obtain ⟨reply, htask, hcached⟩ := served_eq_some hserved
  obtain ⟨gs, ⟨hmap, hgenuine⟩, hat⟩ := stands_run h
  obtain ⟨g, hg, hend⟩ := Async.exists_of_getElem? hat htask
  obtain ⟨q, hprovided, hkey⟩ :=
    ((hgenuine hsucceeds).points g (List.mem_of_getElem? hg)).found content
      (hend reply rfl content hcached)
  have hquestion : g.question = op.question := by
    have hlookup : (gs.map (·.question))[i]? = ((started tr).map (·.question))[i]? := by rw [hmap]
    rw [List.getElem?_map, List.getElem?_map, hg, hop] at hlookup
    exact Option.some.inj hlookup
  obtain ⟨-, -, j, op', -, hop', rfl, -⟩ := id hprovided
  refine ⟨op'.question, hprovided, ?_⟩
  refine Question.alike_of_cacheKey hdigests.colon ?_ (hquestion ▸ hkey.symm)
  exact hdigests.collision op (List.mem_of_getElem? hop) op' (List.mem_of_getElem? hop')

/-! ### One prompt, asked twice -/

/-- A platform as it is for two texts. -/
def samplePlatform : Platform where
  sha256 text :=
    if text = "hello" then "2cf24dba5fb0a30e26e83b2ac5b9e29e1b161e5c1fa7425e73043362938b9824"
    else if text = "force-fail" then
      "3fff86c8a8a494045534511119e9c1ce028b09ebba0e07570bf85ea42e9445f4"
    else ""
  toLowerCase text := String.ofList (text.toList.map Char.toLower)

def cachingServer : Server := { samplePlatform with zone := ⟨fun _ => 2678400000⟩, redis := false }

def noCounters : World := { counters := ∅, texts := ∅, memory := ∅, quotas := ∅, calls := [] }

def steady : Outside := { now := 1000, rejects := none, random := ⟨1, Nat.one_lt_succ_succ _⟩, result := .error "" }

/-- The second request comes when the first one has been answered, after `n` steps. -/
def askedTwice (n : Nat) (first second : String) : List (Outside × Async.Move Operation) :=
  (steady, .start (.generateResponse "alice" "session" first {})) ::
    List.replicate n (steady, .resume 0) ++
    (steady, .start (.generateResponse "alice" "session" second {})) ::
    List.replicate 10 (steady, .resume 1)

theorem starts_askedTwice {n : Nat} {first second : String} :
    ∀ c ∈ askedTwice n first second, (caching cachingServer).valid c.1 c.2 :=
  fun c _ => c.2.starts_of_true

theorem pairwise_askedTwice {n : Nat} {first second : String} :
    (askedTwice n first second).Pairwise fun a b =>
      (caching cachingServer).clock a.1 ≤ (caching cachingServer).clock b.1 :=
  List.pairwise_of_forall fun _ _ => Nat.le_refl 0

/-- White space and letter case make no difference. -/
theorem cached_provided_hello :
    ∃ (tr : Trace) (t : System), Run (caching cachingServer) tr t ∧
      served t 1 = some (LlmService.responses "hello" 1) ∧
      ∀ i op content, (started tr)[i]? = some op → served t i = some content →
        ∃ q, Provided tr q content ∧ op.question.Alike cachingServer.toPlatform q := by
  obtain ⟨tr, t, hrun, hok⟩ := Machine.exists_run_of_replay (m := caching cachingServer)
    (s := ⟨noCounters, []⟩) ⟨⟨rfl, rfl⟩, rfl⟩ (askedTwice 21 "hello" " Hello ")
    (fun tr t => decide (Throughout (Succeeds cachingServer.toPlatform) tr ∧
      (∀ op ∈ started tr, op.question.hashed cachingServer.toPlatform = "hello") ∧
      served t 1 = some (LlmService.responses "hello" 1)))
    starts_askedTwice pairwise_askedTwice (by decide +kernel)
  obtain ⟨hsucceeds, hhashed, hserved⟩ := of_decide_eq_true hok
  refine ⟨tr, t, hrun, hserved, cached_provided hrun ⟨?_, ?_⟩ hsucceeds⟩
  · intro text
    show ':' ∉ (samplePlatform.sha256 text).toList
    unfold samplePlatform
    dsimp only
    split
    · decide
    · split <;> decide
  · intro op hop op' hop' _
    rw [hhashed op hop, hhashed op' hop']

theorem responses_ne_fallback {prompt : String} :
    LlmService.responses prompt 1 ≠ LlmService.FALLBACK_MESSAGE := by
  show LlmService.responses "" 1 ≠ _
  decide +kernel

/-- The text for a failed provider call is cached. -/
theorem fallback_cached :
    ∃ (tr : Trace) (t : System), Run (caching cachingServer) tr t ∧
      served t 1 = some LlmService.FALLBACK_MESSAGE ∧
      ∀ q, ¬ Provided tr q LlmService.FALLBACK_MESSAGE := by
  obtain ⟨tr, t, hrun, hok⟩ := Machine.exists_run_of_replay (m := caching cachingServer)
    (s := ⟨noCounters, []⟩) ⟨⟨rfl, rfl⟩, rfl⟩ (askedTwice 19 "force-fail" "force-fail")
    (fun tr t => decide (served t 1 = some LlmService.FALLBACK_MESSAGE ∧
      ∀ e ∈ tr, e.env.random = 1 ∧ e.env.result.toOption = none))
    starts_askedTwice pairwise_askedTwice (by decide +kernel)
  obtain ⟨hserved, hsteady⟩ := of_decide_eq_true hok
  refine ⟨tr, t, hrun, hserved, ?_⟩
  rintro q ⟨e, he, i, op, a, -, -, -, -, hprovided⟩
  obtain ⟨hrandom, hresult⟩ := hsteady e he
  unfold provided at hprovided
  split at hprovided
  · rw [hrandom] at hprovided
    exact responses_ne_fallback (Option.some.inj hprovided)
  · rw [hresult] at hprovided
    cases hprovided
  · cases hprovided

end Stellara.Llm
