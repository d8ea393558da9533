import Stellara.Trading.Book

/-!
# Placing and cancelling orders

Around the matching loop: an order is stored under a fresh id before it is matched
(`BookOk.create`), and written back, listed or dropped afterwards (`Settled`).  With what
the loop guarantees at its end this restores `BookOk _ none`:

* `place_bookOk` for `create_limit_order`,
* `withdraw_bookOk` for `cancel_order`.
-/

namespace Stellara.Trading

open Outcome Quote

/-! ## Placing -/

theorem newOrder_taker (env : Env) (orderId : Nat) (trader : Address) (pair : Symbol)
    (isBuy : Bool) (price : Int) {amount : Int} (tif : TimeInForce) (ha : 0 < amount) :
    Taker (newOrder env orderId trader pair isBuy price amount tif) :=
  ⟨ha.le, le_refl _, ha, .inl ⟨rfl, rfl⟩⟩

/-- Storing an order under the next id and exempting it. -/
theorem BookOk.create {m m' : Market} {order : LimitOrder} (h : BookOk m none)
    (hid : order.id = m.orderCount + 1)
    (hm : m' = writeOrder { m with orderCount := m.orderCount + 1 } order) :
    BookOk m' (some order.id) := by
  have hread : ∀ id, readOrder m' id = if id = order.id then some order else readOrder m id := by
    intro id; rw [hm, readOrder_writeOrder]; rfl
  have hbook : ∀ pair isBuy, readOrderBook m' pair isBuy = readOrderBook m pair isBuy := by
    intro pair isBuy; rw [hm, readOrderBook_writeOrder]; rfl
  have hcount : m'.orderCount = m.orderCount + 1 := by rw [hm]; rfl
  have hfresh : readOrder m order.id = none := by
    cases hr : readOrder m order.id with
    | none => rfl
    | some o => have := (h.keyed _ o hr).2; omega
  have hother : ∀ id, some id ≠ some order.id → readOrder m' id = readOrder m id := by
    intro id hne; rw [hread, if_neg fun heq => hne (by rw [heq])]
  refine ⟨?_, ?_, ?_, ?_, ?_⟩
  · intro id o hr
    rw [hread] at hr
    rw [hcount]
    split at hr
    · next heq => cases hr; exact ⟨heq.symm, by omega⟩
    · obtain ⟨h1, h2⟩ := h.keyed id o hr
      exact ⟨h1, by omega⟩
  · intro id o hx hr
    rw [hother id hx] at hr
    exact h.ok id o (by simp) hr
  · intro pair isBuy id
    rw [hbook, h.listed]
    constructor
    · rintro ⟨-, o, hr, hrest⟩
      have hne : some id ≠ some order.id := by
        intro heq
        rw [Option.some.inj heq, hfresh] at hr
        cases hr
      exact ⟨hne, o, by rw [hother id hne]; exact hr, hrest⟩
    · rintro ⟨hne, o, hr, hrest⟩
      rw [hother id hne] at hr
      exact ⟨by simp, o, hr, hrest⟩
  · intro pair isBuy
    rw [hbook]
    exact h.nodup pair isBuy
  · refine h.uncrossed.mono ?_
    rintro q ⟨id, o, hne, hr, hrest, rfl⟩
    rw [hother id hne] at hr
    exact ⟨id, o, by simp, hr, hrest, rfl⟩

/-- Writing back the order that was exempted, and listing it when it rests. -/
theorem BookOk.settle {m m' : Market} {final : LimitOrder} (h : BookOk m (some final.id))
    (hread : ∀ id, readOrder m' id = if id = final.id then some final else readOrder m id)
    (hbook : ∀ pair isBuy id, id ∈ readOrderBook m' pair isBuy ↔
      id ∈ readOrderBook m pair isBuy ∨
        id = final.id ∧ final.Rests ∧ final.pair = pair ∧ final.side.isBuy = isBuy)
    (hnodup : ∀ pair isBuy, (readOrderBook m' pair isBuy).Nodup)
    (hcount : m'.orderCount = m.orderCount) (hle : final.id ≤ m.orderCount) (hok : OrderOk final)
    (hfree : final.Rests → ∀ id o, some id ≠ some final.id → readOrder m id = some o → o.Rests →
      ¬ Crosses final.quote o.quote) : BookOk m' none := by
  have hother : ∀ id, id ≠ final.id → readOrder m' id = readOrder m id := by
    intro id hne; rw [hread, if_neg hne]
  refine ⟨?_, ?_, ?_, hnodup, ?_⟩
  · intro id o hr
    rw [hread] at hr
    rw [hcount]
    split at hr
    · next heq => cases hr; exact ⟨heq.symm, by rw [heq]; exact hle⟩
    · exact h.keyed id o hr
  · intro id o _ hr
    rw [hread] at hr
    split at hr
    · cases hr; exact hok
    · next hne => exact h.ok id o (by simpa using hne) hr
  · intro pair isBuy id
    rw [hbook, h.listed]
    by_cases heq : id = final.id
    · subst heq
      rw [hread, if_pos rfl]
      constructor
      · rintro (⟨hx, -⟩ | ⟨-, hrest, hp, hs⟩)
        · exact absurd rfl hx
        · exact ⟨by simp, final, rfl, hp, hs, hrest⟩
      · rintro ⟨-, o, ho, hp, hs, hrest⟩
        cases ho
        exact .inr ⟨rfl, hrest, hp, hs⟩
    · rw [hother id heq]
      constructor
      · rintro (⟨-, o, hr, hrest⟩ | ⟨hc, -⟩)
        · exact ⟨by simp, o, hr, hrest⟩
        · exact absurd hc heq
      · rintro ⟨-, o, hr, hrest⟩
        exact .inl ⟨by simpa using heq, o, hr, hrest⟩
  · by_cases hrests : final.Rests
    · refine (h.uncrossed.insert (q := final.quote) ?_).mono ?_
      · rintro q ⟨id, o, hne, hr, hrest, rfl⟩
        exact hfree hrests id o hne hr hrest
      · rintro q ⟨id, o, -, hr, hrest, rfl⟩
        rw [hread] at hr
        split at hr
        · cases hr; exact Set.mem_insert _ _
        · next hne => exact Set.mem_insert_of_mem _ ⟨id, o, by simpa using hne, hr, hrest, rfl⟩
    · refine h.uncrossed.mono ?_
      rintro q ⟨id, o, -, hr, hrest, rfl⟩
      rw [hread] at hr
      split at hr
      · cases hr; exact absurd hrest hrests
      · next hne => exact ⟨id, o, by simpa using hne, hr, hrest, rfl⟩

/-- What the time in force makes of a matched order that is written back to `m`. -/
inductive Settled (m : Market) (order : LimitOrder) : LimitOrder → Market → Prop
  | listed (ht : order.tif = .gtc) (hr : 0 < order.remaining) :
    Settled m order order
      (pushOrderToBook (writeOrder m order) order.pair order.side.isBuy order.id)
  | dropped (ht : order.tif = .ioc) (hr : 0 < order.remaining) :
    Settled m order { order with status := .cancelled }
      (writeOrder (writeOrder m order) { order with status := .cancelled })
  | done (hr : order.remaining ≤ 0) : Settled m order order (writeOrder m order)

theorem settleOrder_ok {m m' : Market} {order : LimitOrder}
    (h : settleOrder (writeOrder m order) order = .ok m') : ∃ final, Settled m order final m' := by
  unfold settleOrder at h
  split at h
  · next htif =>
    split at h <;> cases h
    · next hr => exact ⟨_, .listed htif hr⟩
    · next hr => exact ⟨_, .done (by omega)⟩
  · next htif =>
    split at h <;> cases h
    · next hr => exact ⟨_, .dropped htif hr⟩
    · next hr => exact ⟨_, .done (by omega)⟩
  · simp only [bind_eq_ok, require_eq_ok, exists_unit_and, pure_eq_ok] at h
    obtain ⟨hr, rfl⟩ := h
    exact ⟨_, .done hr⟩

/-- The parts of an accepted `create_limit_order`. -/
theorem placeOrder_ok {env : Env} {m m' : Market} {trader : Address} {pair : Symbol}
    {isBuy : Bool} {price amount : Int} {tif : TimeInForce} {n : Nat}
    (h : placeOrder env m trader pair isBuy price amount tif = .ok (n, m')) :
    n = m.orderCount + 1 ∧ ∃ order' m₁ final,
      matchLimitOrder env (newOrder env n trader pair isBuy price amount tif)
        (writeOrder { m with orderCount := m.orderCount + 1 }
          (newOrder env n trader pair isBuy price amount tif)) = .ok (order', m₁) ∧
      Settled m₁ order' final m' := by
  simp only [placeOrder, nextOrderId, bind_eq_ok, pure_eq_ok, Prod.mk.injEq] at h
  obtain ⟨-, -, ⟨order', m₁⟩, hm, m₂, hset, rfl, rfl⟩ := h
  refine ⟨rfl, order', m₁, ?_⟩
  obtain ⟨final, hfinal⟩ := settleOrder_ok hset
  exact ⟨final, hm, hfinal⟩

/-- What the matched order looks like once the time in force has been applied. -/
theorem Settled.final {m m' : Market} {order final : LimitOrder} (h : Settled m order final m')
    (ht : Taker order) :
    OrderOk final ∧ final.id = order.id ∧ final.quote = order.quote ∧
      (final.Rests ↔ order.tif = .gtc ∧ 0 < order.remaining) := by
  obtain ⟨h0, hle, hpos, hst⟩ := ht
  have hopen : 0 < order.remaining → order.isOpen = true := by
    intro hr
    unfold LimitOrder.isOpen
    rcases hst with ⟨hs, -⟩ | ⟨hs, -⟩ | ⟨-, hz⟩
    · rw [hs]; rfl
    · rw [hs]; rfl
    · omega
  cases h with
  | listed htif hr =>
    refine ⟨⟨h0, hle, hpos, ?_, ?_, ?_, fun _ => htif⟩, rfl, rfl, ?_⟩
    · intro hs; rcases hst with ⟨-, h⟩ | ⟨h, -⟩ | ⟨h, -⟩
      · exact h
      · rw [hs] at h; cases h
      · rw [hs] at h; cases h
    · intro hs; rcases hst with ⟨h, -⟩ | ⟨-, h⟩ | ⟨h, -⟩
      · rw [hs] at h; cases h
      · exact h
      · rw [hs] at h; cases h
    · intro hs; rcases hst with ⟨h, -⟩ | ⟨h, -⟩ | ⟨-, h⟩
      · rw [hs] at h; cases h
      · rw [hs] at h; cases h
      · exact h
    · exact ⟨fun _ => ⟨htif, hr⟩, fun _ => ⟨htif, hopen hr, hr⟩⟩
  | dropped htif hr =>
    refine ⟨⟨h0, hle, hpos, ?_, ?_, ?_, ?_⟩, rfl, rfl, ?_⟩
    · intro hs; cases hs
    · intro hs; cases hs
    · intro hs; cases hs
    · intro ho; cases ho
    · constructor
      · rintro ⟨hgtc, -⟩; exact ⟨hgtc, hr⟩
      · rintro ⟨hgtc, -⟩; rw [htif] at hgtc; cases hgtc
  | done hr =>
    -- nothing is left, so the order is filled
    have hfilled : order.status = .filled := by
      rcases hst with ⟨-, h⟩ | ⟨-, h, -⟩ | ⟨h, -⟩
      · omega
      · omega
      · exact h
    refine ⟨⟨h0, hle, hpos, ?_, ?_, ?_, ?_⟩, rfl, rfl, ?_⟩
    · intro hs; rw [hfilled] at hs; cases hs
    · intro hs; rw [hfilled] at hs; cases hs
    · intro _; omega
    · intro ho; unfold LimitOrder.isOpen at ho; rw [hfilled] at ho; cases ho
    · constructor
      · rintro ⟨-, -, h⟩; omega
      · rintro ⟨-, h⟩; omega

/-- What it leaves in storage. -/
theorem Settled.market {m m' : Market} {order final : LimitOrder} (h : Settled m order final m') :
    (∀ id, readOrder m' id = if id = final.id then some final else readOrder m id) ∧
    (∀ pair isBuy, readOrderBook m' pair isBuy = readOrderBook m pair isBuy ++
      if order.tif = .gtc ∧ 0 < order.remaining ∧ final.pair = pair ∧ final.side.isBuy = isBuy then
        [final.id] else []) ∧
    m'.orderCount = m.orderCount := by
  cases h with
  | listed htif hr =>
    refine ⟨fun id => ?_, fun pair isBuy => ?_, rfl⟩
    · rw [readOrder_pushOrderToBook, readOrder_writeOrder]
    · rw [readOrderBook_pushOrderToBook, readOrderBook_writeOrder, readOrderBook_writeOrder]
      by_cases hk : pair = order.pair ∧ isBuy = order.side.isBuy
      · obtain ⟨rfl, rfl⟩ := hk; simp [htif, hr]
      · rw [if_neg hk, if_neg, List.append_nil]
        rintro ⟨-, -, hp, hs⟩
        exact hk ⟨hp.symm, hs.symm⟩
  | dropped htif hr =>
    refine ⟨fun id => ?_, fun pair isBuy => ?_, rfl⟩
    · rw [readOrder_writeOrder, readOrder_writeOrder]
      split <;> rfl
    · rw [if_neg, List.append_nil]
      · rfl
      · rintro ⟨hgtc, -⟩; rw [htif] at hgtc; cases hgtc
  | done hr =>
    refine ⟨fun id => readOrder_writeOrder _ _ _, fun pair isBuy => ?_, rfl⟩
    rw [if_neg, List.append_nil]
    · rfl
    · rintro ⟨-, h, -⟩; omega

/-- **Placing an order** keeps the book. -/
theorem place_bookOk {env : Env} {m m' : Market} {trader : Address} {pair : Symbol}
    {isBuy : Bool} {price amount : Int} {tif : TimeInForce} {n : Nat} (hb : BookOk m none)
    (ha : 0 < amount) (h : placeOrder env m trader pair isBuy price amount tif = .ok (n, m')) :
    BookOk m' none := by
  obtain ⟨hn, order', m₁, final, hmatch, hset⟩ := placeOrder_ok h
  have hid0 : (newOrder env n trader pair isBuy price amount tif).id = m.orderCount + 1 := hn
  have hcreate := hb.create hid0 rfl
  obtain ⟨hm, hend⟩ := match_spec (newOrder_taker env n trader pair isBuy price tif ha) hcreate hmatch
  have hsame := hm.same
  have hid : order'.id = n := congrArg LimitOrder.id hsame
  obtain ⟨hok, hfid, hquote, hrests⟩ := hset.final hm.taker
  obtain ⟨hread, hbook, hcount⟩ := hset.market
  have hbm : BookOk m₁ (some final.id) := by rw [hfid, hid]; exact hm.book
  have hnew : ∀ pair isBuy, final.id ∉ readOrderBook m₁ pair isBuy := by
    intro pair isBuy hmem
    exact ((hbm.listed _ _ _).mp hmem).1 rfl
  refine hbm.settle hread ?_ ?_ hcount ?_ hok ?_
  · intro pair isBuy id
    rw [hbook, List.mem_append, hrests]
    by_cases hc : order'.tif = .gtc ∧ 0 < order'.remaining ∧ final.pair = pair ∧
        final.side.isBuy = isBuy
    · rw [if_pos hc, List.mem_singleton]
      obtain ⟨h1, h2, h3, h4⟩ := hc
      simp [h1, h2, h3, h4]
    · rw [if_neg hc]
      constructor
      · rintro (hmem | hmem)
        · exact .inl hmem
        · cases hmem
      · rintro (hmem | ⟨-, ⟨h1, h2⟩, h3, h4⟩)
        · exact .inl hmem
        · exact absurd ⟨h1, h2, h3, h4⟩ hc
  · intro pair isBuy
    rw [hbook]
    split
    · rw [List.nodup_append]
      refine ⟨hbm.nodup pair isBuy, List.nodup_singleton _, ?_⟩
      intro a ha b hb' heq
      rw [List.mem_singleton.mp hb'] at heq
      exact hnew pair isBuy (heq ▸ ha)
    · rw [List.append_nil]; exact hbm.nodup pair isBuy
  · -- the order is still stored under its id, so the id has been handed out
    have hmono := matching_orderCount hmatch
    rw [hfid, hid, hmono, hn]
    exact le_refl _
  · intro hr id o hne ho hor
    rcases hend with hle | hfree
    · have := (hrests.mp hr).2; omega
    · rw [hquote]
      exact hfree id o (by rw [hfid, hid] at hne; exact hne) ho hor

/-! ## Cancelling -/

theorem withdrawOrder_ok {m m' : Market} {trader : Address} {orderId : Nat}
    (h : withdrawOrder m trader orderId = .ok m') :
    ∃ order, readOrder m orderId = some order ∧ order.owner = trader ∧ order.isOpen = true ∧
      m' = removeOrderFromBook (writeOrder m { order with status := .cancelled }) order.pair
        order.side.isBuy order.id := by
  simp only [withdrawOrder, bind_eq_ok, require_eq_ok, exists_unit_and, ofOption_eq_ok,
    pure_eq_ok] at h
  obtain ⟨order, hr, ho, hopen, rfl⟩ := h
  exact ⟨order, hr, ho, hopen, rfl⟩

/-- **Cancelling an order** keeps the book: the order leaves the list it is in. -/
theorem withdraw_bookOk {m m' : Market} {trader : Address} {orderId : Nat} (hb : BookOk m none)
    (h : withdrawOrder m trader orderId = .ok m') : BookOk m' none := by
  obtain ⟨order, hr, -, hopen, hm'⟩ := withdrawOrder_ok h
  obtain ⟨hkey, hle⟩ := hb.keyed orderId order hr
  have hok := hb.ok orderId order (by simp) hr
  have hread : ∀ id, readOrder m' id =
      if id = orderId then some { order with status := .cancelled } else readOrder m id := by
    intro id
    rw [hm', readOrder_removeOrderFromBook, readOrder_writeOrder, ← hkey]
  have hbook : ∀ pair isBuy id, id ∈ readOrderBook m' pair isBuy ↔
      id ∈ readOrderBook m pair isBuy ∧
        ¬ (pair = order.pair ∧ isBuy = order.side.isBuy ∧ id = orderId) := by
    intro pair isBuy id
    rw [hm', mem_removeOrderFromBook, readOrderBook_writeOrder, hkey]
  refine ⟨?_, ?_, ?_, ?_, ?_⟩
  · intro id o ho
    have hcount : m'.orderCount = m.orderCount := by rw [hm']; rfl
    rw [hread] at ho
    rw [hcount]
    split at ho
    · next heq => cases ho; rw [heq]; exact ⟨hkey, hle⟩
    · exact hb.keyed id o ho
  · intro id o hx ho
    rw [hread] at ho
    split at ho
    · cases ho
      exact ⟨hok.remaining_nonneg, hok.remaining_le, hok.amount_pos, fun h => (by cases h),
        fun h => (by cases h), fun h => (by cases h), fun h => (by cases h)⟩
    · exact hb.ok id o hx ho
  · intro pair isBuy id
    rw [hbook, hb.listed]
    by_cases heq : id = orderId
    · subst heq
      rw [hread, if_pos rfl]
      constructor
      · rintro ⟨⟨-, o, ho, hp, hs, -⟩, hne⟩
        rw [hr] at ho
        cases ho
        exact absurd ⟨hp.symm, hs.symm, rfl⟩ hne
      · rintro ⟨-, o, ho, -, -, -, hopen', -⟩
        cases ho
        cases hopen'
    · rw [hread, if_neg heq]
      exact ⟨fun hc => hc.1, fun hc => ⟨hc, fun hbad => heq hbad.2.2⟩⟩
  · intro pair isBuy
    rw [hm']
    exact nodup_removeOrderFromBook _ _ _ _ _ _ (hb.nodup pair isBuy)
  · refine hb.uncrossed.mono ?_
    rintro q ⟨id, o, hx, ho, hrest, rfl⟩
    rw [hread] at ho
    split at ho
    · cases ho
      obtain ⟨-, hopen', -⟩ := hrest
      cases hopen'
    · exact ⟨id, o, hx, ho, hrest, rfl⟩

end Stellara.Trading
