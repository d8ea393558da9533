import Stellara.Llm.Model

/-!
# What the quota services ask

The checks and the counting of both services read the clock and the counters, and nothing else
(`Background`): whatever holds of such requests holds of all that they ask.  What a check lets pass
is below its limit.
-/

namespace Stellara.Llm

open Block

/-- The clock, the counters and the AI service's own. -/
def Background : Request → Prop
  | .now | .get _ | .incr _ | .expire _ _ | .getQuota _ | .addUsage _ _ => True
  | _ => False

/-- What the checks read is below the limits. -/
structure Usage.Below (read : Usage) : Prop where
  monthly : read.monthly < read.customLimit.getD defaultConfig.monthlyLimit
  session : read.session < defaultConfig.perSessionLimit
  minute : read.minute < defaultConfig.requestsPerMinute

section Blocks

variable {G : Request → Prop} {α : Type}

theorem keeps_ensure {c : Bool} {fault : Fault} : Keeps G (ensure c fault) fun _ => c = true := by
  refine wp_ensure.mpr ?_
  split
  · assumption
  · trivial

theorem keeps_onlyIf {c : Bool} {m : On Unit} (h : c = true → Keeps G m fun _ => True) :
    Keeps G (onlyIf c m) fun _ => True := by
  refine wp_onlyIf.mpr ?_
  split
  · next hc => exact h hc
  · trivial

theorem keeps_ask {a : Request} {f : Answer a → Except Fault α} (h : G a) :
    Keeps G (request a f : On α) fun _ => True :=
  .request h fun _ _ _ => trivial

end Blocks

section Quotas

open QuotaService

variable {G : Request → Prop} (hG : ∀ a, Background a → G a)
  {userId sessionId : String} {now limit : Int} {config : QuotaConfig} {zone : Zone}
include hG

theorem keeps_newDate : Keeps G newDate fun _ => True := keeps_ask (hG _ trivial)

theorem keeps_getUsage {key : String} : Keeps G (getUsage key) fun _ => True :=
  keeps_ask (hG _ trivial)

/-! ## Voice -/

theorem keeps_checkMonthlyQuota :
    Keeps G (checkMonthlyQuota userId now limit) fun x => x.2 < x.1.getD limit := by
  refine .bind (keeps_ask (hG _ trivial)) fun customLimit _ => ?_
  refine .bind (keeps_getUsage hG) fun usage _ => ?_
  exact .bind keeps_ensure fun _ h => .pure (of_decide_eq_true h)

theorem keeps_checkSessionQuota :
    Keeps G (checkSessionQuota sessionId limit) fun usage => usage < limit :=
  .bind (keeps_getUsage hG) fun _ _ => .bind keeps_ensure fun _ h => .pure (of_decide_eq_true h)

theorem keeps_checkRequestsPerMinute :
    Keeps G (checkRequestsPerMinute userId now limit) fun usage => usage < limit :=
  .bind (keeps_getUsage hG) fun _ _ => .bind keeps_ensure fun _ h => .pure (of_decide_eq_true h)

theorem keeps_getQuotaStatus :
    Keeps G (getQuotaStatus userId sessionId now config) fun _ => True :=
  .bind (keeps_getUsage hG) fun _ _ => .bind (keeps_getUsage hG) fun _ _ =>
    .bind (keeps_getUsage hG) fun _ _ => .pure trivial

theorem keeps_enforceQuota :
    Keeps G (enforceQuota userId sessionId defaultConfig) fun x => x.2.Below := by
  refine .bind (keeps_newDate hG) fun now _ => .tryCatch ?_ fun e => ?_
  · refine .bind (keeps_checkMonthlyQuota hG) fun x hmonthly => ?_
    refine .bind (keeps_checkSessionQuota hG) fun session hsession => ?_
    refine .bind (keeps_checkRequestsPerMinute hG) fun minute hminute => ?_
    exact .bind (keeps_getQuotaStatus hG) fun _ _ => .pure ⟨hmonthly, hsession, hminute⟩
  · cases e <;> exact .throw

theorem keeps_recordRequest : Keeps G (recordRequest zone userId sessionId) fun _ => True := by
  have hincr : ∀ key, Keeps G (incr key) fun _ => True := fun key => keeps_ask (hG _ trivial)
  have hexpire : ∀ key seconds newValue,
      Keeps G (expireFirst key seconds newValue) fun _ => True := fun key seconds newValue =>
    keeps_onlyIf fun _ => keeps_ask (hG _ trivial)
  exact .bind (keeps_newDate hG) fun _ _ => .bind (hincr _) fun _ _ => .bind (hincr _) fun _ _ =>
    .bind (hincr _) fun _ _ => .bind (hexpire _ _ _) fun _ _ => .bind (hexpire _ _ _) fun _ _ =>
      hexpire _ _ _

/-! ## AI -/

theorem keeps_assertQuota :
    Keeps G (Ai.assertQuota userId) fun requestCount => requestCount < MAX_REQUESTS := by
  refine .bind (keeps_newDate hG) fun now _ => ?_
  refine .bind (keeps_ask (hG _ trivial)) fun quota _ => ?_
  exact .bind keeps_ensure fun _ h => .pure (of_decide_eq_true h)

/-- A call with a quota is below it. -/
theorem keeps_admission {dto : Ai.AiRequestDto} :
    Keeps G (Ai.admission dto) fun call => ∀ now, ∀ q ∈ call.quotas now, q.usage < q.limit := by
  unfold Ai.admission
  split
  · refine .bind (keeps_assertQuota hG) fun requestCount hlt => .pure fun now q hq => ?_
    rw [List.mem_singleton.mp hq]
    exact hlt
  · exact .pure fun _ => nofun

theorem keeps_record {dto : Ai.AiRequestDto} {tokens : Int} :
    Keeps G (Ai.record dto tokens) fun _ => True := by
  unfold Ai.record
  split
  · exact .bind (keeps_newDate hG) fun _ _ => keeps_ask (hG _ trivial)
  · exact .pure trivial

end Quotas

end Stellara.Llm
