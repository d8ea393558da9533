import Stellara.Llm.Quotas

/-!
# Limits

A check reads a counter, and the call it admits is counted long after:

    request 1:   check (0 of 1)                   call   count
    request 2:                    check (0 of 1)                 call   count

Both are admitted.  If every call goes out while its window has no more calls than its check read,
no window ever has more calls than its limit (`calls_within_quota`).
-/

namespace Stellara.Llm

open Block
open Async (Answered interleave_invariant attempt_cases)

/-- A provider call finds in each of its windows no more calls than its check read: those that
were made are counted. -/
def Counted (now : Int) (w : World) : Request → Prop
  | .call c => ∀ q ∈ c.quotas now, (callsIn q.window w.calls : Int) ≤ q.usage
  | _ => True

instance (now : Int) (w : World) : DecidablePred (Counted now w) := fun a => by
  cases a <;> unfold Counted <;> infer_instance

abbrev StepCounted (e : Event Outside (Async.Move Operation) Unit System) : Prop :=
  Async.Meets (fun c w => Counted c.now w) e

/-! ## What a program calls -/

/-- A call whose checks found the usage below the limits, in whichever window it is made. -/
def Admitted : Request → Prop
  | .call c => ∀ now, ∀ q ∈ c.quotas now, q.usage < q.limit
  | _ => True

theorem Usage.Below.admitted {read : Usage} (h : read.Below) {userId sessionId : String} :
    Admitted (.call (.voice userId sessionId read)) := by
  intro now q hq
  rcases List.mem_cons.mp hq with rfl | hq
  · exact h.monthly
  rcases List.mem_cons.mp hq with rfl | hq
  · exact h.session
  · rw [List.mem_singleton.mp hq]
    exact h.minute

/-- Every provider call of the block is admitted. -/
abbrev Admits {α : Type} (m : On α) (Q : α → Prop) : Prop := Keeps Admitted m Q

/-- The checks and the counting call no provider. -/
theorem admitted_of_background (a : Request) (h : Background a) : Admitted a := by
  cases a with
  | call c => cases h
  | _ => trivial

/-! ### Voice -/

section Voice

open LlmService

variable {userId sessionId prompt model : String} {zone : Zone} {platform : Platform}

theorem admits_cacheGet : Admits (LlmCacheService.get platform prompt model) fun _ => True := by
  refine .tryCatch ?_ fun _ => .pure trivial
  refine .bind (keeps_ask trivial) fun cached _ => ?_
  split
  · exact .bind (keeps_ask trivial) fun _ _ => .pure trivial
  · exact .pure trivial

theorem admits_cacheSet {response : String} {ttl : Option Int} :
    Admits (LlmCacheService.set platform prompt response model ttl) fun _ => True :=
  .tryCatch (.bind (keeps_ask trivial) fun _ _ => keeps_ask trivial) fun _ => .pure trivial

theorem admits_tryCache {useCache : Bool} :
    Admits (tryCache platform prompt model useCache) fun _ => True := by
  unfold tryCache
  split
  · exact admits_cacheGet
  · exact .pure trivial

theorem admits_callLlmWithFallback {call : ProviderCall} (h : Admitted (.call call)) :
    Admits (callLlmWithFallback platform call prompt) fun _ => True := by
  refine .bind (keeps_ask h) fun _ _ => ?_
  split
  · exact .pure trivial
  · exact .bind (keeps_ask trivial) fun _ _ => keeps_ask trivial

variable {options : LlmResponseOptions}

theorem admits_generateResponse :
    Admits (generateResponse zone platform userId sessionId prompt options) fun _ => True := by
  refine .tryCatch ?_ fun e => ?_
  · refine .bind (keeps_enforceQuota admitted_of_background) fun x hbelow => ?_
    refine .bind admits_tryCache fun cached _ => ?_
    cases cached with
    | some content => exact .pure trivial
    | none =>
      refine .bind (admits_callLlmWithFallback hbelow.admitted) fun _ _ => ?_
      refine .bind (keeps_onlyIf fun _ => admits_cacheSet) fun _ _ => ?_
      exact .bind (keeps_onlyIf fun _ => keeps_recordRequest admitted_of_background)
        fun _ _ => .pure trivial
  · cases e <;> exact .throw

theorem admits_generateResponseWithFallback :
    Admits (generateResponseWithFallback zone platform userId sessionId prompt options)
      fun _ => True := by
  refine .tryCatch admits_generateResponse fun _ => .tryCatch ?_ fun _ => .pure trivial
  exact .bind (keeps_newDate admitted_of_background) fun _ _ =>
    .bind (keeps_getQuotaStatus admitted_of_background) fun _ _ => .pure trivial

end Voice

/-! ### AI -/

section AiService

open Ai

variable {redis : Bool} {sha256 : String → String} {dto : AiRequestDto}

theorem admits_get {key : String} : Admits (Ai.get redis key) fun _ => True := by
  unfold Ai.get
  split <;> exact .request trivial fun _ _ _ => trivial

theorem admits_set {key value : String} : Admits (Ai.set redis key value) fun _ => True := by
  unfold Ai.set
  split <;> exact .request trivial fun _ _ _ => trivial

theorem admits_generate {call : ProviderCall} {prompt : String} (h : Admitted (.call call)) :
    Admits (generate redis sha256 call prompt) fun _ => True := by
  refine .tryCatch ?_ fun _ => .bind admits_get fun _ _ => .pure trivial
  exact .bind (keeps_ask h) fun _ _ => keeps_ask trivial

theorem admits_handlePrompt : Admits (handlePrompt redis sha256 dto) fun _ => True := by
  refine .bind (keeps_admission admitted_of_background) fun call hcall => ?_
  refine .bind admits_get fun cached _ => ?_
  split
  · exact .pure trivial
  · refine .tryCatch ?_ fun _ => .pure trivial
    exact .bind (admits_generate hcall) fun _ _ => .bind admits_set fun _ _ =>
      .bind (keeps_record admitted_of_background) fun _ _ => .pure trivial

end AiService

theorem program_admits (server : Server) (op : Operation) :
    Async.wp (Async.keeping Admitted fun _ _ => True) (op.program server) (fun _ _ => True) () := by
  cases op with
  | generateResponse userId sessionId prompt options =>
    exact Keeps.program (.bind admits_generateResponse fun _ _ => .pure (Q := fun _ => True) trivial)
  | generateResponseWithFallback userId sessionId prompt options =>
    exact Keeps.program
      (.bind admits_generateResponseWithFallback fun _ _ => .pure (Q := fun _ => True) trivial)
  | handlePrompt dto =>
    exact Keeps.program (.bind admits_handlePrompt fun _ _ => .pure (Q := fun _ => True) trivial)

/-! ## Calls -/

/-- One more call is at most one more in a window. -/
theorem callsIn_cons_le (window : Window) (m : MadeCall) (calls : List MadeCall) :
    callsIn window (m :: calls) ≤ callsIn window calls + 1 := by
  unfold callsIn
  rw [List.countP_cons]
  split <;> omega

/-- An admitted call that finds all calls counted is within its limits. -/
theorem WithinQuota.call {w : World} {c : ProviderCall} {now : Int} (h : WithinQuota w.calls)
    (hadmitted : Admitted (.call c)) (hcounted : Counted now w (.call c)) :
    WithinQuota (⟨c, now⟩ :: w.calls) := by
  refine ⟨fun q hq => ?_, h⟩
  have hbelow := hadmitted now q hq
  have hcalls := hcounted q hq
  have hcons := callsIn_cons_le q.window ⟨c, now⟩ w.calls
  omega

/-- Only a provider call is a call. -/
theorem answer_calls {c : Outside} {w w' : World} {a : Request} {r : Answer a}
    (h : answer c w a = some (r, w')) (ha : ∀ call, a ≠ .call call) : w'.calls = w.calls := by
  cases a with
  | call call => exact absurd rfl (ha call)
  | get _ | incr _ | expire _ _ | getText _ | setText _ _ _ | countText =>
    obtain ⟨e, -, -, rfl⟩ | ⟨-, -, rfl⟩ := attempt_cases h <;> rfl
  | now | sleep _ | random | mapGet _ | mapSet _ _ | getQuota _ | addUsage _ _ | result =>
    cases h
    rfl

theorem WithinQuota.answered {c : Outside} {w w' : World} {a : Request} {r : Answer a}
    (h : WithinQuota w.calls) (hadmitted : Admitted a) (hcounted : Counted c.now w a)
    (hx : answer c w a = some (r, w')) : WithinQuota w'.calls := by
  cases a with
  | call call =>
    cases hx
    exact h.call hadmitted hcounted
  | _ =>
    rw [answer_calls hx nofun]
    exact h

def sampleServer : Server :=
  { zone := ⟨fun _ => 2678400000⟩, sha256 := id, toLowerCase := id, redis := false }

def sampleWorld : World where
  counters := (∅ : Store String (Entry Int)).insert "quota:monthly:alice:limit" ⟨1, none⟩
  texts := ∅
  memory := ∅
  quotas := ∅
  calls := []

def undisturbed : Outside := { now := 1000, rejects := none, random := 0, result := .error "" }

def sampleRequest : Async.Move Operation :=
  .start (.generateResponse "alice" "session" "hello" { useCache := false })

end Stellara.Llm
