import Stellara.Shared.Guards

/-!
# Counting by the circuit breaker

`trackActivity_ok` says what `track_activity` does when it commits: the counters of the
present period grow, in a new period if the old one is over, and the level goes from
`None` to `Full` when a threshold is reached.  Everything about counting is derived from it.
-/

namespace Stellara.CircuitBreaker

open Outcome

variable {ε : Type} {env : Env} {cb cb' : State} {volume : Int}

/-- The counters in the period that `env` falls in, given when the old period ends. -/
def rolledOver (env : Env) (periodEnd : Nat) (st : CircuitBreakerState) : CircuitBreakerState :=
  if periodEnd ≤ env.timestamp then
    { st with currentPeriodStart := env.timestamp, currentPeriodVolume := 0,
              currentPeriodTxCount := 0 }
  else st

/-- The counters have reached a threshold. -/
def Reaches (config : Config) (st : CircuitBreakerState) : Prop :=
  config.maxVolumePerPeriod ≤ st.currentPeriodVolume ∨
    config.maxTxCountPerPeriod ≤ st.currentPeriodTxCount

instance (config : Config) (st : CircuitBreakerState) : Decidable (Reaches config st) :=
  inferInstanceAs (Decidable (_ ∨ _))

/-- What an activity that is counted does to the breaker. -/
structure Tracked (env : Env) (ε : Type) (cb : State) (volume : Int) (config : Config)
    (periodEnd : Nat) (cb' : State) : Prop where
  configured : cb.config = some config
  configured' : cb'.config = some config
  pausedFuncs : cb'.pausedFuncs = cb.pausedFuncs
  ends : (env.u64 (cb.state.currentPeriodStart + config.periodDuration) :
    Except (Fault ε) Nat) = .ok periodEnd
  start : cb'.state.currentPeriodStart = (rolledOver env periodEnd cb.state).currentPeriodStart
  sum : (env.i128 ((rolledOver env periodEnd cb.state).currentPeriodVolume + volume) :
    Except (Fault ε) Int) = .ok cb'.state.currentPeriodVolume
  count : cb'.state.currentPeriodTxCount =
    (rolledOver env periodEnd cb.state).currentPeriodTxCount + 1
  level : cb'.state.pauseLevel = if Reaches config cb'.state ∧ cb.state.pauseLevel = .none then .full
    else cb.state.pauseLevel

theorem rolledOver_level (periodEnd : Nat) (st : CircuitBreakerState) :
    (rolledOver env periodEnd st).pauseLevel = st.pauseLevel := by
  unfold rolledOver
  split <;> rfl

theorem trackActivity_ok (h : (trackActivity env cb volume : Except (Fault ε) State) = .ok cb') :
    ∃ config periodEnd, Tracked env ε cb volume config periodEnd cb' := by
  simp only [trackActivity, resetPeriod, bind_eq_ok, ofOption_eq_ok] at h
  obtain ⟨config, hconfig, st, ⟨periodEnd, hend, hst⟩, sum, hsum, h⟩ := h
  have hst : rolledOver env periodEnd cb.state = st := by
    unfold rolledOver
    split at hst
    · next hover => rw [if_pos hover]; exact pure_eq_ok.mp hst
    · next hover => rw [if_neg hover]; exact pure_eq_ok.mp hst
  have hlevel : st.pauseLevel = cb.state.pauseLevel := by rw [← hst, rolledOver_level]
  refine ⟨config, periodEnd, ?_⟩
  split at h
  · next htrips =>
    rw [← pure_eq_ok.mp h]
    refine ⟨hconfig, hconfig, rfl, hend, by rw [hst], by rw [hst]; exact hsum, by rw [hst], ?_⟩
    rw [if_pos ⟨htrips.1, hlevel ▸ htrips.2⟩]
  · next htrips =>
    rw [← pure_eq_ok.mp h]
    refine ⟨hconfig, hconfig, rfl, hend, by rw [hst], by rw [hst]; exact hsum, by rw [hst], ?_⟩
    rw [if_neg fun hc => htrips ⟨hc.1, hlevel.trans hc.2⟩]
    exact hlevel

/-- An activity that is counted and trips nothing. -/
theorem trackActivity_below {config : Config} {st : CircuitBreakerState} {v : Int}
    (hconfig : cb.config = some config)
    (hreset : (resetPeriod env config cb.state : Except (Fault ε) _) = .ok st)
    (hsum : (env.i128 (st.currentPeriodVolume + volume) : Except (Fault ε) Int) = .ok v)
    (hbelow : ¬ ((config.maxVolumePerPeriod ≤ v ∨
      config.maxTxCountPerPeriod ≤ st.currentPeriodTxCount + 1) ∧ st.pauseLevel = .none)) :
    (trackActivity env cb volume : Except (Fault ε) State) = .ok { cb with state := { st with
      currentPeriodVolume := v, currentPeriodTxCount := st.currentPeriodTxCount + 1 } } := by
  unfold trackActivity
  rw [hconfig, ofOption, ok_bind, hreset, ok_bind, hsum, ok_bind]
  exact if_neg hbelow

end Stellara.CircuitBreaker
