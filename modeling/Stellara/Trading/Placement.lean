import Stellara.Trading.BookSafety

/-!
# Books in the order of placement

An order gets the next id and the ledger's time when it is placed, and its id is appended to
the list of its book.  So the list of every book is sorted by id, and the times of its orders
do not decrease along it (`placed_run`): of two listed orders the one with the smaller id was
placed first, whether their times differ or not.
-/

namespace Stellara.Trading

open Outcome

/-- The listed orders are in the order of their placement. -/
structure Placed (m : Market) : Prop where
  sorted : ∀ pair isBuy, (readOrderBook m pair isBuy).Pairwise (· < ·)
  timely : ∀ pair isBuy, (readOrderBook m pair isBuy).Pairwise fun id id' => ∀ o o',
    readOrder m id = some o → readOrder m id' = some o' → o.timestamp ≤ o'.timestamp

/-- Lists only lose ids, and what is stored under the listed ones keeps its time. -/
theorem Placed.shrink {m m' : Market} (h : Placed m)
    (hbooks : ∀ pair isBuy, (readOrderBook m' pair isBuy).Sublist (readOrderBook m pair isBuy))
    (htimes : ∀ pair isBuy, ∀ id ∈ readOrderBook m' pair isBuy, ∀ o', readOrder m' id = some o' →
      ∃ o, readOrder m id = some o ∧ o.timestamp = o'.timestamp) : Placed m' := by
  refine ⟨fun pair isBuy => (h.sorted pair isBuy).sublist (hbooks pair isBuy),
    fun pair isBuy => ?_⟩
  refine ((h.timely pair isBuy).sublist (hbooks pair isBuy)).imp_of_mem ?_
  intro id id' hid hid' hle o₁ o₁' hr hr'
  obtain ⟨o, ho, ht⟩ := htimes pair isBuy id hid o₁ hr
  obtain ⟨o', ho', ht'⟩ := htimes pair isBuy id' hid' o₁' hr'
  rw [← ht, ← ht']
  exact hle o o' ho ho'

theorem SameBook.placed {m m' : Market} (hs : SameBook m m') (h : Placed m) : Placed m' := by
  refine h.shrink (fun pair isBuy => ?_) fun pair isBuy id _ o' hr => ⟨o', ?_, rfl⟩
  · rw [hs.readOrderBook]
  · rw [← hs.readOrder]
    exact hr

theorem removeOrderFromBook_sublist (m : Market) (pair : Symbol) (isBuy : Bool) (orderId : Nat)
    (pair' : Symbol) (isBuy' : Bool) :
    (readOrderBook (removeOrderFromBook m pair isBuy orderId) pair' isBuy').Sublist
      (readOrderBook m pair' isBuy') := by
  unfold removeOrderFromBook
  rw [readOrderBook_writeOrderBook]
  split
  · next heq =>
    obtain ⟨rfl, rfl⟩ := heq
    exact List.filter_sublist
  · exact List.Sublist.refl _

/-! ## Matching -/

section Fill

variable {env : Env} {incoming incoming' maker : LimitOrder} {m m' : Market}

theorem fillMaker_sublist (h : fillMaker env incoming maker m = .ok (incoming', m'))
    (pair : Symbol) (isBuy : Bool) :
    (readOrderBook m' pair isBuy).Sublist (readOrderBook m pair isBuy) := by
  obtain ⟨-, m₁, m₂, n₁, n₂, hm₁, h₁, h₂⟩ := fillMaker_ok h
  have hs : SameBook m₁ m' := (recordTrade_sameBook h₁).trans (recordTrade_sameBook h₂)
  rw [hs.readOrderBook, hm₁]
  split
  · exact removeOrderFromBook_sublist ..
  · exact List.Sublist.refl _

theorem fillMaker_placed (h : fillMaker env incoming maker m = .ok (incoming', m'))
    (hr : readOrder m maker.id = some maker) (hm : Placed m) : Placed m' := by
  refine hm.shrink (fillMaker_sublist h) fun pair isBuy id _ o' ho' => ?_
  rw [(fillMaker_market h).1] at ho'
  split at ho'
  · next heq =>
    obtain rfl := Option.some.inj ho'
    exact ⟨maker, by rw [heq]; exact hr, rfl⟩
  · exact ⟨o', ho', rfl⟩

end Fill

/-- The times of stored orders are past. -/
def Past (t : Nat) (m : Market) : Prop := ∀ id o, readOrder m id = some o → o.timestamp ≤ t

/-- What the loop keeps of the placement. -/
structure Placing (t : Nat) (order : LimitOrder) (p : LimitOrder × Market) : Prop where
  matching : Matching order p
  placed : Placed p.2
  past : Past t p.2

theorem placing_step {env : Env} {t : Nat} {order : LimitOrder} {p p' : LimitOrder × Market}
    (h : Placing t order p) (hs : matchStep env p = .ok (some p')) : Placing t order p' := by
  have hmatching := matching_step h.matching hs
  obtain ⟨incoming, m⟩ := p
  obtain ⟨incoming', m'⟩ := p'
  obtain ⟨-, id, maker, -, hr, -, hf⟩ := matchStep_some hs
  have hkey : maker.id = id := (h.matching.book.keyed id maker hr).1
  subst hkey
  refine ⟨hmatching, fillMaker_placed hf hr h.placed, fun id o ho => ?_⟩
  rw [(fillMaker_market hf).1] at ho
  split at ho
  · obtain rfl := Option.some.inj ho
    exact h.past maker.id maker hr
  · exact h.past id o ho

/-! ## Placing and cancelling -/

/-- Before it is matched the new order is stored, and listed nowhere. -/
theorem Placed.create {m m' : Market} {order : LimitOrder} (h : Placed m) (hb : BookOk m none)
    (hid : order.id = m.orderCount + 1)
    (hm : m' = writeOrder { m with orderCount := m.orderCount + 1 } order) : Placed m' := by
  have hbook : ∀ pair isBuy, readOrderBook m' pair isBuy = readOrderBook m pair isBuy := by
    intro pair isBuy
    rw [hm]
    rfl
  refine h.shrink (fun pair isBuy => by rw [hbook]) fun pair isBuy id hmem o' ho' => ?_
  rw [hbook] at hmem
  obtain ⟨-, o, ho, -⟩ := (hb.listed pair isBuy id).mp hmem
  have hle := (hb.keyed id o ho).2
  rw [hm, readOrder_writeOrder, if_neg (by omega)] at ho'
  exact ⟨o', ho', rfl⟩

theorem place_placed {env : Env} {m m' : Market} {trader : Address} {pair : Symbol} {isBuy : Bool}
    {price amount : Int} {tif : TimeInForce} {n : Nat} (hb : BookOk m none) (hm : Placed m)
    (hpast : Past env.timestamp m) (ha : 0 < amount)
    (h : placeOrder env m trader pair isBuy price amount tif = .ok (n, m')) :
    Placed m' ∧ Past env.timestamp m' := by
  obtain ⟨hn, order', m₁, final, hmatch, hset⟩ := placeOrder_ok h
  have hid : (newOrder env n trader pair isBuy price amount tif).id = m.orderCount + 1 := hn
  have hstart : Placing env.timestamp (newOrder env n trader pair isBuy price amount tif)
      (newOrder env n trader pair isBuy price amount tif,
        writeOrder { m with orderCount := m.orderCount + 1 }
          (newOrder env n trader pair isBuy price amount tif)) := by
    refine ⟨⟨newOrder_taker env n trader pair isBuy price tif ha, rfl, hb.create hid rfl⟩,
      hm.create hb hid rfl, fun id o ho => ?_⟩
    rw [readOrder_writeOrder] at ho
    split at ho
    · obtain rfl := Option.some.inj ho
      exact le_rfl
    · exact hpast id o ho
  obtain ⟨hend, -⟩ := Loop.run_invariant (I := Placing env.timestamp _)
    (fun p p' => placing_step) hstart hmatch
  have hsame := hend.matching.same
  have hid' : order'.id = n := congrArg LimitOrder.id hsame
  have htime : order'.timestamp = env.timestamp := congrArg LimitOrder.timestamp hsame
  obtain ⟨hread, hbook, -⟩ := hset.market
  obtain ⟨hfid, hftime⟩ : final.id = order'.id ∧ final.timestamp = order'.timestamp := by
    cases hset <;> exact ⟨rfl, rfl⟩
  -- the orders listed when the loop ends came before this one
  have hbefore : ∀ pair isBuy, ∀ id ∈ readOrderBook m₁ pair isBuy, id < n := by
    intro pair isBuy id hmem
    obtain ⟨hne, o, ho, -⟩ := (hend.matching.book.listed pair isBuy id).mp hmem
    have hle := (hend.matching.book.keyed id o ho).2
    have hcount := matching_orderCount hmatch
    have hne' : id ≠ n := fun heq => hne (congrArg some heq)
    have hcount' : m₁.orderCount = n := hcount.trans hid.symm
    have hle' : id ≤ m₁.orderCount := hle
    omega
  have hread' : ∀ id, id ≠ n → readOrder m' id = readOrder m₁ id := by
    intro id hne
    rw [hread, if_neg (by rw [hfid, hid']; exact hne)]
  constructor
  · refine ⟨fun pair isBuy => ?_, fun pair isBuy => ?_⟩
    · rw [hbook, List.pairwise_append]
      refine ⟨hend.placed.sorted pair isBuy, by split <;> simp, fun id hmem id' hmem' => ?_⟩
      split at hmem'
      · rw [List.mem_singleton.mp hmem', hfid, hid']
        exact hbefore pair isBuy id hmem
      · cases hmem'
    · rw [hbook, List.pairwise_append]
      refine ⟨?_, by split <;> simp, fun id hmem id' hmem' o o' ho ho' => ?_⟩
      · refine (hend.placed.timely pair isBuy).imp_of_mem fun {id id'} hmem hmem' hle o o' ho ho' => ?_
        rw [hread' id (hbefore pair isBuy id hmem).ne] at ho
        rw [hread' id' (hbefore pair isBuy id' hmem').ne] at ho'
        exact hle o o' ho ho'
      · split at hmem'
        · rw [List.mem_singleton.mp hmem', hread, if_pos rfl] at ho'
          obtain rfl := Option.some.inj ho'
          rw [hread' id (hbefore pair isBuy id hmem).ne] at ho
          rw [hftime, htime]
          exact hend.past id o ho
        · cases hmem'
  · intro id o ho
    rw [hread] at ho
    split at ho
    · obtain rfl := Option.some.inj ho
      rw [hftime, htime]
    · exact hend.past id o ho

theorem withdraw_placed {m m' : Market} {trader : Address} {orderId t : Nat} (hb : BookOk m none)
    (hm : Placed m) (hpast : Past t m) (h : withdrawOrder m trader orderId = .ok m') :
    Placed m' ∧ Past t m' := by
  obtain ⟨order, hr, -, -, rfl⟩ := withdrawOrder_ok h
  have hkey : order.id = orderId := (hb.keyed _ _ hr).1
  have hkept : ∀ id o', readOrder (removeOrderFromBook
      (writeOrder m { order with status := .cancelled }) order.pair order.side.isBuy order.id) id =
        some o' → ∃ o, readOrder m id = some o ∧ o.timestamp = o'.timestamp := by
    intro id o' ho'
    rw [readOrder_removeOrderFromBook, readOrder_writeOrder] at ho'
    split at ho'
    · next heq =>
      obtain rfl := Option.some.inj ho'
      refine ⟨order, ?_, rfl⟩
      rw [heq]
      show readOrder m order.id = some order
      rw [hkey]
      exact hr
    · exact ⟨o', ho', rfl⟩
  refine ⟨hm.shrink (fun pair isBuy => removeOrderFromBook_sublist ..)
    fun _ _ id _ o' ho' => hkept id o' ho', fun id o' ho' => ?_⟩
  obtain ⟨o, ho, htime⟩ := hkept id o' ho'
  rw [← htime]
  exact hpast id o ho

/-! ## Every run -/

theorem placed_step {env : Env} {m m' : Market} (hb : BookOk m none) (hm : Placed m)
    (hpast : Past env.timestamp m) (h : MarketStep env m m') :
    Placed m' ∧ Past env.timestamp m' := by
  have hsame : SameBook m m' → Placed m' ∧ Past env.timestamp m' := fun hs =>
    ⟨hs.placed hm, fun id o ho => hpast id o (by rw [← hs.readOrder]; exact ho)⟩
  cases h with
  | same => exact ⟨hm, hpast⟩
  | trade _ h => exact hsame (recordTrade_sameBook h)
  | batch _ h => exact hsame (recordTrades_sameBook h)
  | place ha _ h => exact place_placed hb hm hpast ha h
  | withdraw h => exact withdraw_placed hb hm hpast h

/-- **Books are in the order of placement** in every reachable state. -/
theorem placed_run {d : Deployment} {tr : Trace} {s : State} (h : Run (machine d) tr s) :
    Placed s.market := by
  have key : (Fresh s ∧ BookOk s.market none) ∧ Placed s.market ∧
      ∀ t, (∀ e ∈ tr, e.env.timestamp ≤ t) → Past t s.market := by
    refine h.invariant_trace (I := fun tr s => (Fresh s ∧ BookOk s.market none) ∧
      Placed s.market ∧ ∀ t, (∀ e ∈ tr, e.env.timestamp ≤ t) → Past t s.market) ?_ ?_
    · rintro s ⟨-, hm⟩
      have hnone : ∀ id o, readOrder s.market id ≠ some o := by
        intro id o ho
        rw [hm] at ho
        exact Store.lookup_empty_ne ho
      refine ⟨⟨fun _ => hm, by rw [hm]; exact bookOk_empty⟩, ⟨fun pair isBuy => ?_,
        fun pair isBuy => ?_⟩, fun t _ id o ho => absurd ho (hnone id o)⟩
      · rw [hm]
        exact .nil
      · rw [hm]
        exact .nil
    · rintro tr env call r s s' - hclock ⟨⟨hf, hb⟩, hplaced, hpast⟩ hx
      obtain ⟨hstep, hf'⟩ := exec_market hf hx
      have hnow := placed_step hb hplaced (hpast env.timestamp hclock) hstep
      refine ⟨⟨hf', bookOk_step hb hstep⟩, hnow.1, fun t ht id o ho => ?_⟩
      exact (hnow.2 id o ho).trans (ht _ List.mem_cons_self)
  exact key.2.1

end Stellara.Trading
