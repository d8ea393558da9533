import Stellara.Trading.Completion
import Stellara.Trading.Volume

/-!
# Fill-or-kill orders

    accepted  ↔  amount ≤ offered                        what the order is for
    accepted  ↔  the availability scan reaches amount    what `create_limit_order` does
                 and the volume has room for the fills

The scan adds up what the eligible orders have left and stops as soon as it has enough.  Its
sum is not checked before it is made: with one order of nearly the whole range next to a small
one it leaves `i128` although there is plenty to trade (`Countable` says when it does not
matter).  The matching loop that follows needs room in the volume (`match_ok_iff`).
-/

namespace Stellara.Trading

open Outcome

/-! ## The scan -/

/-- The scan over these offers comes to an amount that they contain: a binary that checks its
sums stays in range up to there, one that does not comes to it, wrapped around or not. -/
def Countable (checks : Bool) (amount : Int) (offers : List Int) : Prop :=
  if checks then
    ∀ k < offers.length, (offers.take k).sum < amount → (offers.take (k + 1)).sum ≤ i128Max
  else ∃ k < offers.length + 1, amount ≤ (offers.take k).sum.bmod (2 ^ 128)

instance (checks : Bool) (amount : Int) (offers : List Int) :
    Decidable (Countable checks amount offers) :=
  inferInstanceAs (Decidable (if checks then _ else _))

/-- What the orders of the opposite book offer, in the order of the list. -/
def offers (m : Market) (incoming : LimitOrder) : List Int :=
  (readOrderBook m incoming.pair incoming.oppositeIsBuy).map (offerOf m incoming)

theorem i128_wraps {env : Env} (hc : env.overflowChecks = false) (x : Int) :
    (env.i128 x : Result Int) = .ok (x.bmod (2 ^ 128)) := by
  unfold Env.i128 Deployment.i128 Checked.signed
  by_cases hin : Checked.InInt 128 x
  · have hx : x.bmod (2 ^ 128) = x := asI128_of_in hin
    rw [if_pos hin, hx]
    rfl
  · rw [if_neg hin, hc]
    rfl

section Scan

variable {env : Env} {m : Market} {incoming : LimitOrder} {ids : List Nat}

/-- An order that is not eligible is passed over. -/
theorem sumAvailable_cons (env : Env) (m : Market) (incoming : LimitOrder) (ids : List Nat)
    (total : Int) (id : Nat) :
    sumAvailable env m incoming total (id :: ids) =
        sumAvailable env m incoming total ids ∧ offerOf m incoming id = 0 ∨
      sumAvailable env m incoming total (id :: ids) = (do
        let total ← env.i128 (total + offerOf m incoming id)
        if incoming.remaining ≤ total then pure total
        else sumAvailable env m incoming total ids) := by
  rw [sumAvailable]
  unfold offerOf
  cases hr : readOrder m id with
  | none => exact .inl ⟨rfl, rfl⟩
  | some order =>
    dsimp only
    by_cases he : eligible incoming order = true
    · rw [if_pos he, if_pos he]
      exact .inr rfl
    · rw [if_neg he, if_neg he]
      exact .inl ⟨rfl, rfl⟩

/-- **Without checks** the scan compares the sums, wrapped around, with the amount. -/
theorem sumAvailable_wrapping (hc : env.overflowChecks = false) : ∀ {total : Int} (exact : Int),
    total = exact.bmod (2 ^ 128) → total < incoming.remaining →
      ((∃ t, sumAvailable env m incoming total ids = .ok t ∧ incoming.remaining ≤ t) ↔
        ∃ k < ids.length + 1, incoming.remaining ≤
          (exact + ((ids.map (offerOf m incoming)).take k).sum).bmod (2 ^ 128)) := by
  induction ids with
  | nil =>
    intro total exact htotal hlt
    constructor
    · rintro ⟨t, ht, hle⟩
      cases ht
      omega
    · rintro ⟨k, -, hle⟩
      rw [List.map_nil, List.take_nil, List.sum_nil, Int.add_zero, ← htotal] at hle
      omega
  | cons id ids ih =>
    intro total exact htotal hlt
    -- the sums of the longer list are those of the shorter one, and the first
    have hsums : (∃ k < (id :: ids).length + 1, incoming.remaining ≤
          (exact + (((id :: ids).map (offerOf m incoming)).take k).sum).bmod (2 ^ 128)) ↔
        ∃ k < ids.length + 1, incoming.remaining ≤ (exact + offerOf m incoming id +
          ((ids.map (offerOf m incoming)).take k).sum).bmod (2 ^ 128) := by
      constructor
      · rintro ⟨k, hk, hle⟩
        cases k with
        | zero =>
          rw [List.take_zero, List.sum_nil, Int.add_zero, ← htotal] at hle
          omega
        | succ k =>
          refine ⟨k, by simpa using hk, ?_⟩
          rw [List.map_cons, List.take_succ_cons, List.sum_cons, ← Int.add_assoc] at hle
          exact hle
      · rintro ⟨k, hk, hle⟩
        refine ⟨k + 1, by simpa using hk, ?_⟩
        rw [List.map_cons, List.take_succ_cons, List.sum_cons, ← Int.add_assoc]
        exact hle
    rw [hsums]
    rcases sumAvailable_cons env m incoming ids total id with ⟨heq, hzero⟩ | heq
    · rw [heq, hzero, Int.add_zero]
      exact ih exact htotal hlt
    · have hnext : (total + offerOf m incoming id).bmod (2 ^ 128) =
          (exact + offerOf m incoming id).bmod (2 ^ 128) := by
        rw [htotal]
        exact Int.bmod_add_bmod
      rw [heq, i128_wraps hc, ok_bind, hnext]
      split
      · next hle =>
        refine ⟨fun _ => ⟨0, Nat.succ_pos _, ?_⟩, fun _ => ⟨_, rfl, hle⟩⟩
        rw [List.take_zero, List.sum_nil, Int.add_zero]
        exact hle
      · next hlt' => exact ih _ rfl (by omega)

/-- **With checks** the scan traps at the first sum out of range. -/
theorem sumAvailable_traps (hc : env.overflowChecks = true) : ∀ {total : Int} {k : Nat},
    total + ((ids.map (offerOf m incoming)).take k).sum < incoming.remaining →
      i128Max < total + ((ids.map (offerOf m incoming)).take (k + 1)).sum → total ≤ i128Max →
      ¬ ∃ t, sumAvailable env m incoming total ids = .ok t ∧ incoming.remaining ≤ t := by
  induction ids with
  | nil =>
    intro total k _ hbig hle
    rw [List.map_nil, List.take_nil, List.sum_nil] at hbig
    omega
  | cons id ids ih =>
    intro total k hlt hbig hle
    rw [List.map_cons, List.take_succ_cons, List.sum_cons] at hbig
    rcases sumAvailable_cons env m incoming ids total id with ⟨heq, hzero⟩ | heq
    · rw [heq]
      cases k with
      | zero =>
        rw [List.take_zero, List.sum_nil] at hbig
        omega
      | succ k =>
        rw [List.map_cons, List.take_succ_cons, List.sum_cons] at hlt
        exact ih (k := k) (by omega) (by omega) hle
    · rw [heq]
      rintro ⟨t, ht, hge⟩
      rw [bind_eq_ok] at ht
      obtain ⟨total', hsum, ht⟩ := ht
      have hin := (inI128_iff.mp (i128_inI128 hsum)).2
      obtain rfl := i128_checked hc hsum
      cases k with
      | zero =>
        rw [List.take_zero, List.sum_nil] at hbig
        omega
      | succ k =>
        rw [List.map_cons, List.take_succ_cons, List.sum_cons] at hlt
        have hrest := offers_nonneg m incoming ids
        have hprefix : 0 ≤ ((ids.map (offerOf m incoming)).take k).sum := by
          refine List.sum_nonneg fun x hx => ?_
          obtain ⟨id', -, rfl⟩ := List.mem_map.mp (List.mem_of_mem_take hx)
          exact offerOf_nonneg m incoming id'
        rw [if_neg (by omega)] at ht
        exact ih (k := k) (by omega) (by omega) hin ⟨t, ht, hge⟩

end Scan

/-! ## Acceptance -/

section Accepted

variable {env : Env} {m : Market} {order : LimitOrder}

theorem length_offers (m : Market) (order : LimitOrder) :
    (offers m order).length = (readOrderBook m order.pair order.oppositeIsBuy).length :=
  List.length_map ..

theorem take_offers_bounds (k : Nat) :
    0 ≤ ((offers m order).take k).sum ∧ ((offers m order).take k).sum ≤ offered m order := by
  have hnonneg : ∀ x ∈ offers m order, 0 ≤ x := by
    intro x hx
    obtain ⟨id, -, rfl⟩ := List.mem_map.mp hx
    exact offerOf_nonneg m order id
  have hsplit := congrArg List.sum (List.take_append_drop k (offers m order))
  rw [List.sum_append] at hsplit
  have htake : 0 ≤ ((offers m order).take k).sum :=
    List.sum_nonneg fun x hx => hnonneg x (List.mem_of_mem_take hx)
  have hdrop : 0 ≤ ((offers m order).drop k).sum :=
    List.sum_nonneg fun x hx => hnonneg x (List.mem_of_mem_drop hx)
  have htotal : offered m order = (offers m order).sum := rfl
  omega

/-- The prefixes of a list, by their lengths or as what stands before an element. -/
theorem prefix_sums_iff {f : Nat → Int} {ids : List Nat} {bound amount : Int} :
    (∀ ids₁ id ids₂, ids = ids₁ ++ id :: ids₂ → (ids₁.map f).sum < amount →
      (ids₁.map f).sum + f id ≤ bound) ↔
    ∀ k < ids.length, ((ids.map f).take k).sum < amount → ((ids.map f).take (k + 1)).sum ≤ bound := by
  constructor
  · intro h k hk hlt
    have hsplit : ids = ids.take k ++ ids[k] :: ids.drop (k + 1) := by
      rw [← List.drop_eq_getElem_cons hk, List.take_append_drop]
    rw [← List.map_take] at hlt ⊢
    rw [List.take_succ_eq_append_getElem hk, List.map_append, List.sum_append]
    simpa using h _ _ _ hsplit hlt
  · intro h ids₁ id ids₂ heq hlt
    have hk := h ids₁.length (by simp [heq])
    have hbefore : (ids₁ ++ id :: ids₂).take ids₁.length = ids₁ := List.take_left' rfl
    have hwith : (ids₁ ++ id :: ids₂).take (ids₁.length + 1) = ids₁ ++ [id] := by
      rw [List.take_length_add_append]
      rfl
    rw [← List.map_take, ← List.map_take, heq, hbefore, hwith] at hk
    simpa using hk hlt

/-- A scan whose sums fit finds what there is. -/
theorem sumAvailable_fits (ha : 0 < order.remaining)
    (hfits : ∀ k < (offers m order).length, ((offers m order).take k).sum < order.remaining →
      ((offers m order).take (k + 1)).sum ≤ i128Max) :
    ∃ t, sumAvailable env m order 0 (readOrderBook m order.pair order.oppositeIsBuy) = .ok t ∧
      (order.remaining ≤ t ↔ order.remaining ≤ offered m order) := by
  have hroom := prefix_sums_iff.mpr (by rw [length_offers] at hfits; exact hfits)
  have hscan := @sumAvailable_of env m order _ 0 le_rfl ha
    fun ids₁ id ids₂ heq hlt => by
      rw [Int.zero_add] at hlt ⊢
      exact hroom ids₁ id ids₂ heq hlt
  rw [Int.zero_add] at hscan
  exact hscan

/-- **The scan finds enough** exactly if there is enough and its sums get that far. -/
theorem available_iff (ha : 0 < order.remaining) (hin : order.remaining ≤ i128Max) :
    (∃ t, availableFillForOrder env m order = .ok t ∧ order.remaining ≤ t) ↔
      order.remaining ≤ offered m order ∧
        Countable env.overflowChecks order.remaining (offers m order) := by
  unfold availableFillForOrder Countable
  rw [length_offers]
  cases hc : env.overflowChecks with
  | false =>
    rw [if_neg Bool.false_ne_true, sumAvailable_wrapping hc 0 (by decide) ha]
    simp only [Int.zero_add]
    refine ⟨fun hscan => ⟨?_, hscan⟩, fun h => h.2⟩
    -- sums below the amount do not wrap around
    obtain ⟨k, -, hk⟩ := hscan
    obtain ⟨h0, hle⟩ := @take_offers_bounds m order k
    by_contra hlt
    have hexact : ((offers m order).take k).sum.bmod (2 ^ 128) = ((offers m order).take k).sum :=
      asI128_of_in (inI128_iff.mpr ⟨by omega, by omega⟩)
    have hk' : order.remaining ≤ ((offers m order).take k).sum.bmod (2 ^ 128) := hk
    omega
  | true =>
    rw [if_pos rfl]
    constructor
    · intro hscan
      have hfits : ∀ k, ((offers m order).take k).sum < order.remaining →
          ((offers m order).take (k + 1)).sum ≤ i128Max := by
        intro k hlt
        by_contra hbig
        refine sumAvailable_traps hc (k := k) ?_ ?_ zero_le_i128Max hscan
        · rw [Int.zero_add]
          exact hlt
        · rw [Int.zero_add]
          exact Int.not_le.mp hbig
      -- in range, the scan finds what there is
      obtain ⟨t, ht, hle⟩ := hscan
      obtain ⟨t', ht', hiff⟩ := sumAvailable_fits ha fun k _ => hfits k
      obtain rfl := Except.ok.inj (ht.symm.trans ht')
      exact ⟨hiff.mp hle, fun k _ => hfits k⟩
    · rintro ⟨hle, hfits⟩
      obtain ⟨t, ht, hiff⟩ := sumAvailable_fits ha (by rwa [length_offers])
      exact ⟨t, ht, hiff.mpr hle⟩

end Accepted

/-! ## The claim -/

/-- The order was filled, and is listed in no book. -/
def FilledUnlisted (m : Market) (orderId : Nat) (amount : Int) : Prop :=
  (∃ order, readOrder m orderId = some order ∧ order.amount = amount ∧ order.remaining = 0 ∧
    order.status = .filled) ∧ ∀ pair isBuy, orderId ∉ readOrderBook m pair isBuy

/-- What a call leaves behind: the host drops what a failed one wrote. -/
def leaves (s : State) : Result (Nat × State) → State
  | .ok (_, s') => s'
  | .error _ => s

/-- **Fill or kill**: the order is accepted exactly if enough is offered, is filled when it is
accepted, and leaves no trace when it is not. -/
structure FillOrKill (env : Env) (s : State) (trader : Address) (pair : Symbol) (isBuy : Bool)
    (price amount : Int) : Prop where
  exact : (∃ r, createLimitOrder env s trader pair isBuy price amount .fok = .ok r) ↔
    amount ≤ offered s.market
      (newOrder env (s.market.orderCount + 1) trader pair isBuy price amount .fok)
  filled : ∀ n s', createLimitOrder env s trader pair isBuy price amount .fok = .ok (n, s') →
    FilledUnlisted s'.market n amount
  killed : (¬ ∃ r, createLimitOrder env s trader pair isBuy price amount .fok = .ok r) →
    (leaves s (createLimitOrder env s trader pair isBuy price amount .fok)).market = s.market

section Claim

variable {d : Deployment} {tr : Trace} {s s₁ : State} {env : Env} {trader : Address} {pair : Symbol}
  {isBuy : Bool} {price amount : Int}

/-- Past its guards `create_limit_order` is `placeOrder`. -/
theorem createLimitOrder_iff (hauth : trader ∈ env.signers) (hinit : s.initialized = true)
    (hrate : checkAndConsumeTradeRateLimit env s trader = .ok s₁)
    (hpause : CircuitBreaker.isPaused s.cb "trade" = false) (ha : 0 < amount) (hp : 0 < price)
    {tif : TimeInForce} :
    (∃ r, createLimitOrder env s trader pair isBuy price amount tif = .ok r) ↔
      ∃ q, placeOrder env s.market trader pair isBuy price amount tif = .ok q := by
  constructor
  · rintro ⟨⟨n, s'⟩, h⟩
    obtain ⟨-, -, -, -, _, _, market, hplace, -⟩ := createLimitOrder_ok h
    exact ⟨_, hplace⟩
  · rintro ⟨⟨n, market⟩, hplace⟩
    obtain ⟨userUsage, globalUsage, rfl⟩ := rateLimit_ok hrate
    refine ⟨(n, { s with userUsage, globalUsage, market }), ?_⟩
    simp only [createLimitOrder, requireInitialized, requireTradeNotPaused, bind_eq_ok,
      require_eq_ok, requireAuth_eq_ok, exists_unit_and, pure_eq_ok]
    exact ⟨hauth, hinit, _, hrate, hpause, ha, hp, _, hplace, rfl⟩

/-- **A fill-or-kill order is placed** exactly if the scan finds enough and the volume has room. -/
theorem place_fok_iff (h : Run (machine d) tr s) (hd : env.Of d) (ha : 0 < amount)
    (hin : amount ≤ i128Max) {order : LimitOrder}
    (horder : newOrder env (s.market.orderCount + 1) trader pair isBuy price amount .fok = order) :
    (∃ q, placeOrder env s.market trader pair isBuy price amount .fok = .ok q) ↔
      (amount ≤ offered s.market order ∧
        Countable env.overflowChecks amount (offers s.market order)) ∧
      HasRoom env.overflowChecks s.market (2 * amount) := by
  have hbook := bookOk_run h
  have hrem : order.remaining = amount := by rw [← horder]; rfl
  have hstart := completing_start h hd trader pair isBuy price .fok ha
  unfold taking at hstart
  dsimp only at hstart
  rw [horder] at hstart
  have hsame : offered (writeOrder { s.market with orderCount := s.market.orderCount + 1 } order)
      order = offered s.market order := offered_create hbook (by rw [← horder]; rfl) rfl
  have hmatch := match_ok_iff hstart
  rw [hsame, hrem] at hmatch
  -- the scan does not look at the counter of orders
  have hscan : (∃ t, availableFillForOrder env
      { s.market with orderCount := s.market.orderCount + 1 } order = .ok t ∧ amount ≤ t) ↔
      amount ≤ offered s.market order ∧
        Countable env.overflowChecks amount (offers s.market order) := by
    have := @available_iff env { s.market with orderCount := s.market.orderCount + 1 } order
      (by omega) (by omega)
    rw [hrem] at this
    exact this
  have hfillable : requireFillable env { s.market with orderCount := s.market.orderCount + 1 }
      order = .ok () ↔ amount ≤ offered s.market order ∧
        Countable env.overflowChecks amount (offers s.market order) := by
    have hfok : order.tif.isFok = true := by rw [← horder]; rfl
    have hamount : order.amount = amount := by rw [← horder]; rfl
    unfold requireFillable
    rw [if_pos hfok, bind_eq_ok, hamount]
    simp only [require_eq_ok]
    exact hscan
  rw [← hfillable]
  simp only [placeOrder, nextOrderId, horder, bind_eq_ok, pure_eq_ok]
  constructor
  · rintro ⟨q, _, hreq, ⟨order', m₁⟩, hrun, -⟩
    have hok := hmatch.mp ⟨_, hrun⟩
    have hle := (hfillable.mp hreq).1
    refine ⟨hreq, fun hc => ?_⟩
    have hroom : s.market.stats.totalVolume + 2 * min amount (offered s.market order) ≤ i128Max :=
      hok hc
    omega
  · rintro ⟨hreq, hroom⟩
    have hle := (hfillable.mp hreq).1
    obtain ⟨⟨order', m₁⟩, hrun⟩ := hmatch.mpr fun hc => by
      have hroom' := hroom hc
      show s.market.stats.totalVolume + 2 * min amount (offered s.market order) ≤ i128Max
      omega
    obtain ⟨hend, hfilled⟩ := match_completing hstart hrun
    rw [hsame, hrem] at hfilled
    have htif : order'.tif = .fok := by
      have := congrArg LimitOrder.tif hend.matching.same
      rw [← horder] at this
      exact this
    obtain ⟨m₂, hsettle⟩ : ∃ m₂, settleOrder (writeOrder m₁ order') order' = .ok m₂ :=
      settleOrder_of fun _ => by omega
    exact ⟨_, (), hreq, _, hrun, m₂, hsettle, rfl⟩

/-- An accepted fill-or-kill order has been filled. -/
theorem place_fok_filled (h : Run (machine d) tr s) (ha : 0 < amount) {n : Nat}
    {m' : Market} (hplace : placeOrder env s.market trader pair isBuy price amount .fok = .ok (n, m')) :
    FilledUnlisted m' n amount := by
  have hbook' := place_bookOk (bookOk_run h) ha hplace
  obtain ⟨rfl, order', m₁, final, hmatch, hset⟩ := placeOrder_ok hplace
  obtain ⟨hmatching, -⟩ := match_spec (newOrder_taker env _ trader pair isBuy price .fok ha)
    ((bookOk_run h).create rfl rfl) hmatch
  have hsame := hmatching.same
  have htif : order'.tif = .fok := congrArg LimitOrder.tif hsame
  have hid : order'.id = s.market.orderCount + 1 := congrArg LimitOrder.id hsame
  have hamount : order'.amount = amount := congrArg LimitOrder.amount hsame
  have hread := hset.market.1
  cases hset with
  | listed ht => rw [htif] at ht; cases ht
  | dropped ht => rw [htif] at ht; cases ht
  | done hr =>
    have hstored : readOrder (writeOrder m₁ order') (s.market.orderCount + 1) = some order' := by
      rw [hread, if_pos hid.symm]
    have htaker : Taker order' := hmatching.taker
    have hzero : order'.remaining = 0 := le_antisymm hr htaker.remaining_nonneg
    have hstatus : order'.status = .filled := by
      have hpos := htaker.amount_pos
      rcases htaker.status with ⟨-, h⟩ | ⟨-, h, -⟩ | ⟨h, -⟩
      · omega
      · omega
      · exact h
    refine ⟨⟨order', hstored, hamount, hzero, hstatus⟩, fun pair isBuy hlisted => ?_⟩
    obtain ⟨-, o, ho, -, -, hrests⟩ := (hbook'.listed pair isBuy _).mp hlisted
    obtain rfl := Option.some.inj (hstored.symm.trans ho)
    have := hrests.2.2
    omega

/-- **Fill-or-kill exactness.**  A fill-or-kill order that passes the checks of `create_limit_order`
is accepted exactly if enough is offered, and is filled or leaves no trace, exactly if too little
is offered, or both sums that the call makes come out: that of the offers gets to the amount, and
the volume has room for both sides of the fills. -/
theorem fill_or_kill_iff (h : Run (machine d) tr s) (hd : env.Of d) (hauth : trader ∈ env.signers)
    (hinit : s.initialized = true) (hrate : checkAndConsumeTradeRateLimit env s trader = .ok s₁)
    (hpause : CircuitBreaker.isPaused s.cb "trade" = false) (ha : 0 < amount)
    (hin : InI128 amount) (hp : 0 < price) {order : LimitOrder}
    (horder : newOrder env (s.market.orderCount + 1) trader pair isBuy price amount .fok = order) :
    FillOrKill env s trader pair isBuy price amount ↔ offered s.market order < amount ∨
      Countable d.overflowChecks amount (offers s.market order) ∧
        (d.overflowChecks = true → s.market.stats.totalVolume + 2 * amount ≤ i128Max) := by
  have haccept : (∃ r, createLimitOrder env s trader pair isBuy price amount .fok = .ok r) ↔
      ∃ q, placeOrder env s.market trader pair isBuy price amount .fok = .ok q :=
    createLimitOrder_iff hauth hinit hrate hpause ha hp
  rw [place_fok_iff h hd ha (inI128_iff.mp hin).2 horder] at haccept
  have hchecks : env.overflowChecks = d.overflowChecks := congrArg Deployment.overflowChecks hd.1
  unfold HasRoom at haccept
  rw [hchecks] at haccept
  constructor
  · rintro ⟨hexact, -, -⟩
    rw [horder, haccept] at hexact
    by_cases hlt : offered s.market order < amount
    · exact .inl hlt
    · exact .inr ⟨(hexact.mpr (by omega)).1.2, (hexact.mpr (by omega)).2⟩
  · intro hcond
    refine ⟨?_, ?_, ?_⟩
    · rw [horder, haccept]
      refine ⟨fun hall => hall.1.1, fun hle => ?_⟩
      rcases hcond with hlt | ⟨hcount, hroom⟩
      · omega
      · exact ⟨⟨hle, hcount⟩, hroom⟩
    · intro n s' hx
      obtain ⟨-, -, -, -, _, _, market, hplace, rfl⟩ := createLimitOrder_ok hx
      exact place_fok_filled h ha hplace
    · intro hrejected
      cases hx : createLimitOrder env s trader pair isBuy price amount .fok with
      | error e => rfl
      | ok r => exact absurd ⟨r, hx⟩ hrejected

end Claim

/-- Orders of 3 and of 4 are offered, and an order for 5 takes what it needs. -/
theorem fill_or_kill_five : ∃ tr s, Run (machine ⟨0, true⟩) tr s ∧
    FillOrKill (callAt 5000 [3]) s 3 "XLM" true 1 5 ∧
    ∃ r, createLimitOrder (callAt 5000 [3]) s 3 "XLM" true 1 5 .fok = .ok r := by
  obtain ⟨tr, s, hrun, hok⟩ := @Machine.exists_run_of_replay _ _ _ _ _ (machine ⟨0, true⟩)
    { tokens := .empty } ⟨rfl, rfl⟩
    [unlimitedStart, (callAt 1 [1], .createLimitOrder 1 "XLM" false 1 3 .gtc),
      (callAt 2 [1], .createLimitOrder 1 "XLM" false 1 4 .gtc)]
    (fun _ s => s.initialized = true ∧ CircuitBreaker.isPaused s.cb "trade" = false ∧
      (checkAndConsumeTradeRateLimit (callAt 5000 [3]) s 3).toBool = true ∧
      offers s.market (newOrder (callAt 5000 [3]) (s.market.orderCount + 1) 3 "XLM" true 1 5 .fok) =
        [3, 4] ∧ s.market.stats.totalVolume = 0 ∧
      (createLimitOrder (callAt 5000 [3]) s 3 "XLM" true 1 5 .fok).toBool = true)
    (by decide) (by decide) (by decide)
  obtain ⟨hinit, hpause, hrate, hoffers, hvolume, haccepted⟩ := of_decide_eq_true hok
  obtain ⟨s₁, hrate⟩ := exists_of_toBool hrate
  refine ⟨tr, s, hrun, ?_, exists_of_toBool haccepted⟩
  refine (fill_or_kill_iff hrun (by decide) (by decide) hinit hrate hpause (by decide) (by decide)
    (by decide) rfl).mpr (.inr ⟨?_, fun _ => ?_⟩)
  · rw [hoffers]
    decide
  · rw [hvolume]
    decide

/-- Next to an offer of 1, one of the whole range is not seen by an order for 5: the sum of the
two wraps around below zero, or traps where sums are checked. -/
theorem fill_or_kill_overlooks :
    (∃ tr s, Run (machine ⟨0, false⟩) tr s ∧
      ¬ FillOrKill ⟨⟨0, false⟩, 5000, 0, [3]⟩ s 3 "XLM" true 1 5) ∧
    ∃ tr s, Run (machine ⟨0, true⟩) tr s ∧ ¬ FillOrKill (callAt 5000 [3]) s 3 "XLM" true 1 5 := by
  constructor
  · obtain ⟨tr, s, hrun, hok⟩ := @Machine.exists_run_of_replay _ _ _ _ _ (machine ⟨0, false⟩)
      { tokens := .empty } ⟨rfl, rfl⟩
      [(⟨⟨0, false⟩, 0, 0, []⟩, .init 9 [] 9 ⟨i128Max, 1000, 3600⟩),
        (⟨⟨0, false⟩, 1, 0, [1]⟩, .createLimitOrder 1 "XLM" false 1 1 .gtc),
        (⟨⟨0, false⟩, 2, 0, [1]⟩, .createLimitOrder 1 "XLM" false 1 i128Max .gtc)]
      (fun _ s => failsWith (createLimitOrder ⟨⟨0, false⟩, 5000, 0, [3]⟩ s 3 "XLM" true 1 5 .fok)
          (.err .orderWouldNotFullyFill) = true ∧
        5 ≤ offered s.market (newOrder ⟨⟨0, false⟩, 5000, 0, [3]⟩ (s.market.orderCount + 1) 3 "XLM"
          true 1 5 .fok)) (by decide) (by decide) (by decide)
    obtain ⟨hfails, hoffered⟩ := of_decide_eq_true hok
    refine ⟨tr, s, hrun, fun hfok => ?_⟩
    obtain ⟨r, hr⟩ := hfok.exact.mpr hoffered
    exact nomatch (eq_of_failsWith hfails).symm.trans hr
  · obtain ⟨tr, s, hrun, hok⟩ := @Machine.exists_run_of_replay _ _ _ _ _ (machine ⟨0, true⟩)
      { tokens := .empty } ⟨rfl, rfl⟩
      [unlimitedStart, (callAt 1 [1], .createLimitOrder 1 "XLM" false 1 1 .gtc),
        (callAt 2 [1], .createLimitOrder 1 "XLM" false 1 i128Max .gtc)]
      (fun _ s => failsWith (createLimitOrder (callAt 5000 [3]) s 3 "XLM" true 1 5 .fok)
          (.panic "i128 overflow") = true ∧
        5 ≤ offered s.market (newOrder (callAt 5000 [3]) (s.market.orderCount + 1) 3 "XLM" true 1 5
          .fok)) (by decide) (by decide) (by decide)
    obtain ⟨hfails, hoffered⟩ := of_decide_eq_true hok
    refine ⟨tr, s, hrun, fun hfok => ?_⟩
    obtain ⟨r, hr⟩ := hfok.exact.mpr hoffered
    exact nomatch (eq_of_failsWith hfails).symm.trans hr

end Stellara.Trading
