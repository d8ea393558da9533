import Stellara.Trading.BookSafety
import Stellara.Trading.Offered

/-!
# When the matching completes

    matchLimitOrder env order m = .ok _  ↔  the volume has room for both sides of the fills
                                                                               (match_ok_iff)

The loop can fail only at `stats.total_volume += amount`.  A binary without overflow checks
wraps the sum around and goes on; one with checks traps as soon as the sum leaves `i128`.
What is filled is known beforehand: the smaller of what the taker asks for and what is
offered (`Completing.filled`).
-/

namespace Stellara.Trading

open Outcome

/-- The volume is a value of its type, and has not wrapped around where sums are checked. -/
structure VolumeSane (checks : Bool) (m : Market) : Prop where
  inRange : InI128 m.stats.totalVolume
  nonneg : checks = true → 0 ≤ m.stats.totalVolume

theorem volumeSane_invariant (env : Env) : TradeInvariant env (VolumeSane env.overflowChecks) := by
  refine ⟨?_, ?_⟩
  · rintro m m' hs ⟨hin, h0⟩
    exact ⟨by rw [hs.stats]; exact hin, by rw [hs.stats]; exact h0⟩
  · rintro m m' trader pair amount price isBuy n ha h ⟨hin, h0⟩
    obtain ⟨-, v, hsum, hstats, -, -⟩ := recordTrade_ok h
    have hv : m'.stats.totalVolume = v := by rw [hstats]
    refine ⟨by rw [hv]; exact i128_inI128 hsum, fun hc => ?_⟩
    have hexact := i128_checked hc hsum
    have := h0 hc
    omega

theorem volumeSane_run {d : Deployment} {tr : Trace} {s : State} (h : Run (machine d) tr s) :
    VolumeSane d.overflowChecks s.market := by
  refine market_invariant h ⟨inI128_iff.mpr ⟨by decide, by decide⟩, fun _ => le_rfl⟩ ?_
  rintro env m m' ⟨rfl, -⟩ hm hs
  exact (volumeSane_invariant env).step hs hm

/-- The volume has room for `x` more, or wraps around. -/
def HasRoom (checks : Bool) (m : Market) (x : Int) : Prop :=
  checks = true → m.stats.totalVolume + x ≤ i128Max

instance (checks : Bool) (m : Market) (x : Int) : Decidable (HasRoom checks m x) :=
  inferInstanceAs (Decidable (_ → _))

/-- A sum that has room, or wraps around, is made. -/
theorem i128_of_room (env : Env) {x : Int}
    (h : env.overflowChecks = true → 0 ≤ x ∧ x ≤ i128Max) :
    ∃ y, (env.i128 x : Result Int) = .ok y ∧ (env.overflowChecks = true → y = x) := by
  by_cases hc : env.overflowChecks = true
  · obtain ⟨h0, hx⟩ := h hc
    exact ⟨x, env_i128_of_in env (inI128_iff.mpr ⟨by omega, hx⟩), fun _ => rfl⟩
  · by_cases hin : Checked.InInt 128 x
    · exact ⟨x, env_i128_of_in env hin, fun _ => rfl⟩
    · refine ⟨x.bmod (2 ^ 128), ?_, fun h => absurd h hc⟩
      unfold Env.i128 Deployment.i128 Checked.signed
      rw [if_neg hin, if_neg hc]
      rfl

/-- A fill that the volume has room for is made. -/
theorem fillMaker_of_room {env : Env} {m : Market} {incoming maker : LimitOrder}
    (hsane : VolumeSane env.overflowChecks m) (hx : 0 < fillAmount incoming maker)
    (hroom : HasRoom env.overflowChecks m (2 * fillAmount incoming maker)) :
    ∃ q, fillMaker env incoming maker m = .ok q := by
  refine fillMaker_of_records fun m₁ hstats => ?_
  obtain ⟨v₁, h₁, he₁⟩ := i128_of_room env
    (x := m₁.stats.totalVolume + fillAmount incoming maker) fun hc => by
      have := hroom hc
      have := hsane.nonneg hc
      rw [hstats]
      omega
  obtain ⟨v₂, h₂, -⟩ := i128_of_room env (x := v₁ + fillAmount incoming maker) fun hc => by
    have := hroom hc
    have := hsane.nonneg hc
    have := he₁ hc
    rw [hstats] at this
    omega
  obtain ⟨n₁, m₂, hrec₁, hv₁⟩ := recordTrade_of_sum incoming.owner incoming.pair maker.price
    incoming.side.isBuy h₁
  obtain ⟨n₂, m₃, hrec₂, -⟩ := recordTrade_of_sum maker.owner maker.pair maker.price
    maker.side.isBuy (hv₁.symm ▸ h₂)
  exact ⟨n₁, m₂, n₂, m₃, hrec₁, hrec₂⟩

/-- What the loop keeps: what is filled is missing from the taker, from what is offered and,
twice, from the room that the volume had. -/
structure Completing (checks : Bool) (order : LimitOrder) (m : Market) (p : LimitOrder × Market) :
    Prop where
  matching : Matching order p
  sane : VolumeSane checks p.2
  surplus : offered p.2 p.1 - p.1.remaining = offered m order - order.remaining
  volume : checks = true → p.2.stats.totalVolume =
    m.stats.totalVolume + 2 * (order.remaining - p.1.remaining)

section Completing

variable {env : Env} {order : LimitOrder} {m : Market} {p p' : LimitOrder × Market}

theorem Completing.step (h : Completing env.overflowChecks order m p)
    (hs : matchStep env p = .ok (some p')) : Completing env.overflowChecks order m p' := by
  obtain ⟨incoming, m₀⟩ := p
  obtain ⟨incoming', m'⟩ := p'
  have hmatching := matching_step h.matching hs
  obtain ⟨hpos, id, maker, hid, hr, he, hf⟩ := matchStep_some hs
  have hkey : maker.id = id := (h.matching.book.keyed id maker hr).1
  subst hkey
  obtain ⟨hx0, -, -⟩ := fillAmount_bounds hpos (eligible_iff.mp he).2.1
  have hnodup : (readOrderBook m₀ incoming.pair incoming.oppositeIsBuy).Nodup :=
    h.matching.book.nodup _ _
  have hoffered := fillMaker_offered hnodup hid hr he hpos hf
  have hsurplus : offered m₀ incoming - incoming.remaining = offered m order - order.remaining :=
    h.surplus
  obtain ⟨m₁, m₂, n₁, n₂, hsame, h₁, h₂⟩ := fillMaker_trades hf
  have hsane₁ := (volumeSane_invariant env).same hsame h.sane
  have hsane₂ := (volumeSane_invariant env).record hx0 h₁ hsane₁
  have hsane' := (volumeSane_invariant env).record hx0 h₂ hsane₂
  obtain ⟨-, v₁, hsum₁, hstats₁, -⟩ := recordTrade_ok h₁
  obtain ⟨-, v₂, hsum₂, hstats₂, -⟩ := recordTrade_ok h₂
  obtain ⟨rfl, -⟩ := fillMaker_ok hf
  have hrem : (incoming.fill (fillAmount incoming maker)).remaining =
    incoming.remaining - fillAmount incoming maker := rfl
  refine ⟨hmatching, hsane', ?_, fun hc => ?_⟩
  · show offered m' (incoming.fill (fillAmount incoming maker)) -
      (incoming.fill (fillAmount incoming maker)).remaining = _
    omega
  · have he₁ := i128_checked hc hsum₁
    have he₂ := i128_checked hc hsum₂
    have hvolume : m₀.stats.totalVolume =
      m.stats.totalVolume + 2 * (order.remaining - incoming.remaining) := h.volume hc
    rw [hsame.stats] at he₁
    rw [hstats₁] at he₂
    show m'.stats.totalVolume = _
    rw [hstats₂]
    show v₂ = m.stats.totalVolume +
      2 * (order.remaining - (incoming.fill (fillAmount incoming maker)).remaining)
    have he₂' : v₂ = v₁ + fillAmount incoming maker := he₂
    omega

/-- Where the loop stops, the smaller of what was asked for and offered has been filled. -/
theorem Completing.filled (h : Completing env.overflowChecks order m p)
    (hnone : matchStep env p = .ok none) :
    p.1.remaining = order.remaining - min order.remaining (offered m order) := by
  obtain ⟨incoming, m'⟩ := p
  have h0 : 0 ≤ incoming.remaining := h.matching.taker.remaining_nonneg
  have hsurplus : offered m' incoming - incoming.remaining = offered m order - order.remaining :=
    h.surplus
  have hnonneg := offered_nonneg m' incoming
  show incoming.remaining = _
  rcases matchStep_none hnone with hrem | hall
  · omega
  · have hzero := offered_eq_zero hall
    omega

/-- An iteration with room does not fail. -/
theorem Completing.body (h : Completing env.overflowChecks order m p)
    (hroom : HasRoom env.overflowChecks m (2 * min order.remaining (offered m order))) :
    ∃ o, matchStep env p = .ok o := by
  obtain ⟨incoming, m₀⟩ := p
  unfold matchStep
  dsimp only
  split
  · exact ⟨none, rfl⟩
  next hrem =>
  split
  · exact ⟨none, rfl⟩
  next i hpick =>
  obtain ⟨id, maker, hid, hr, he⟩ := pickBestMatchIndex_some hpick
  have hoffer := remaining_le_offered (List.mem_of_getElem? hid) hr he
  have hpos : 0 < incoming.remaining := by omega
  obtain ⟨hx0, hxi, hxm⟩ := fillAmount_bounds hpos (eligible_iff.mp he).2.1
  have hsurplus : offered m₀ incoming - incoming.remaining = offered m order - order.remaining :=
    h.surplus
  obtain ⟨q, hq⟩ : ∃ q, fillMaker env incoming maker m₀ = .ok q := by
    refine fillMaker_of_room h.sane hx0 fun hc => ?_
    have hvolume : m₀.stats.totalVolume =
      m.stats.totalVolume + 2 * (order.remaining - incoming.remaining) := h.volume hc
    have := hroom hc
    omega
  simp only [hid, ofOption, ok_bind, hr, he, if_true, hq]
  exact ⟨_, rfl⟩

/-- What a matching that completes has done. -/
theorem match_completing {order' : LimitOrder} {m' : Market}
    (hstart : Completing env.overflowChecks order m (order, m))
    (h : matchLimitOrder env order m = .ok (order', m')) :
    Completing env.overflowChecks order m (order', m') ∧
      order'.remaining = order.remaining - min order.remaining (offered m order) := by
  obtain ⟨hend, hnone⟩ := Loop.run_invariant (I := Completing env.overflowChecks order m)
    (fun p p' hp hs => hp.step hs) hstart h
  exact ⟨hend, hend.filled hnone⟩

/-- **The matching completes** exactly if the volume has room for both sides of the fills. -/
theorem match_ok_iff (hstart : Completing env.overflowChecks order m (order, m)) :
    (∃ q, matchLimitOrder env order m = .ok q) ↔
      HasRoom env.overflowChecks m (2 * min order.remaining (offered m order)) := by
  constructor
  · rintro ⟨⟨order', m'⟩, h⟩ hc
    obtain ⟨hend, hfilled⟩ := match_completing hstart h
    have hvolume : m'.stats.totalVolume =
      m.stats.totalVolume + 2 * (order.remaining - order'.remaining) := hend.volume hc
    have hin : m'.stats.totalVolume ≤ i128Max := (inI128_iff.mp hend.sane.inRange).2
    omega
  · intro hroom
    refine Loop.run_ok (I := Completing env.overflowChecks order m) (μ := matchMeasure)
      (fun p hp => hp.body hroom)
      (fun p p' hp hs => ⟨hp.step hs, matchMeasure_step hp.matching hs⟩) hstart ?_
    unfold matchMeasure
    dsimp only
    split <;> omega

end Completing

/-- The order that a call of `create_limit_order` matches, and the market it is matched in. -/
def taking (env : Env) (m : Market) (trader : Address) (pair : Symbol) (isBuy : Bool)
    (price amount : Int) (tif : TimeInForce) : LimitOrder × Market :=
  let order := newOrder env (m.orderCount + 1) trader pair isBuy price amount tif
  (order, writeOrder { m with orderCount := m.orderCount + 1 } order)

/-- Matching starts in order in every reachable state. -/
theorem completing_start {d : Deployment} {tr : Trace} {s : State} (h : Run (machine d) tr s)
    {env : Env} (hd : env.Of d) (trader : Address) (pair : Symbol) (isBuy : Bool) (price : Int)
    {amount : Int} (tif : TimeInForce) (ha : 0 < amount) :
    let (order, m) := taking env s.market trader pair isBuy price amount tif
    Completing env.overflowChecks order m (order, m) := by
  have hbook : BookOk (taking env s.market trader pair isBuy price amount tif).2 _ :=
    (bookOk_run h).create rfl rfl
  have hsane := volumeSane_run h
  rw [← hd.1] at hsane
  refine ⟨⟨newOrder_taker env _ trader pair isBuy price tif ha, rfl, hbook⟩,
    ⟨hsane.inRange, hsane.nonneg⟩, rfl, fun _ => ?_⟩
  show s.market.stats.totalVolume = s.market.stats.totalVolume + 2 * (amount - amount)
  omega

end Stellara.Trading
