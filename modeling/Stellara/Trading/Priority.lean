import Stellara.Lib.Greedy
import Stellara.Trading.Completion
import Stellara.Trading.Placement
import Stellara.Trading.Volume

/-!
# Price-time priority

The reference sorts the compatible resting orders of the opposite book, best price first and
among equal prices in the order of placement, and serves the taker from the front of that list:

    referenceFills = allocate remaining amount (insertionSort Precedes candidates)

The contract looks through the unsorted list of the book in every iteration, keeps the best
price and among equal prices the earliest time, and among equal times the first in the list.
Since a book lists its orders in the order of placement the two agree (`price_time_iff`),
whenever the matching completes at all.
-/

namespace Stellara.Trading

open Outcome

/-! ## The reference -/

/-- What the incoming side pays at a price; less is better. -/
def OrderSide.cost : OrderSide → Int → Int
  | .buy, price => price
  | .sell, price => -price

/-- `a` is served before `b`, if they are two orders: at a better price, or placed earlier. -/
def Precedes (side : OrderSide) (a b : LimitOrder) : Prop :=
  side.cost a.price < side.cost b.price ∨ side.cost a.price = side.cost b.price ∧ a.id ≤ b.id

instance (side : OrderSide) : DecidableRel (Precedes side) := fun _ _ =>
  inferInstanceAs (Decidable (_ ∨ _))

instance (side : OrderSide) : Std.Total (Precedes side) :=
  ⟨fun a b => by unfold Precedes; omega⟩

instance (side : OrderSide) : IsTrans LimitOrder (Precedes side) :=
  ⟨fun a b c => by unfold Precedes; omega⟩

/-- The resting orders of the opposite book at a price that the incoming order accepts. -/
def candidates (m : Market) (incoming : LimitOrder) : List LimitOrder :=
  (getOpenOrders m incoming.pair incoming.oppositeIsBuy).filter fun order =>
    orderMatches incoming order

/-- The event `match` that a fill publishes. -/
structure OrderMatched where
  makerOrderId : Nat
  takerOrderId : Nat
  pair : Symbol
  amount : Int
  price : Int
  timestamp : Nat
deriving DecidableEq, Repr

/-- A fill of `amount` with a resting order, at the price of that order. -/
def orderMatched (env : Env) (incoming maker : LimitOrder) (amount : Int) : OrderMatched :=
  ⟨maker.id, incoming.id, incoming.pair, amount, maker.price, env.timestamp⟩

/-- **The reference matcher.** -/
def referenceFills (env : Env) (m : Market) (order : LimitOrder) : List OrderMatched :=
  (Greedy.allocate LimitOrder.remaining order.remaining
    ((candidates m order).insertionSort (Precedes order.side))).map
      fun fill => orderMatched env order fill.1 fill.2

/-! ## What the loop publishes -/

/-- The event of one iteration, if it fills anything. -/
def published (env : Env) : LimitOrder × Market → List OrderMatched
  | (incoming, m) =>
    let oppositeIds := readOrderBook m incoming.pair incoming.oppositeIsBuy
    match pickBestMatchIndex m incoming oppositeIds with
    | none => []
    | some bestIdx =>
      match oppositeIds[bestIdx]?.bind (readOrder m) with
      | none => []
      | some maker =>
        if eligible incoming maker then
          [orderMatched env incoming maker (fillAmount incoming maker)]
        else []

/-- The events of `n` iterations of the loop of `match_limit_order`. -/
def publishedBy (env : Env) : Nat → LimitOrder × Market → List OrderMatched
  | 0, _ => []
  | n + 1, p =>
    match matchStep env p with
    | .ok (some p') => published env p ++ publishedBy env n p'
    | _ => []

/-- The fills of `match_limit_order`. -/
def matchFills (env : Env) (order : LimitOrder) (m : Market) : List OrderMatched :=
  publishedBy env ((readOrderBook m order.pair order.oppositeIsBuy).length + 2) (order, m)

/-! ## The best index -/

/-- The order of the search: price, time, place in the list. -/
def Best.NotAfter (side : OrderSide) (a b : Best) : Prop :=
  side.cost a.price < side.cost b.price ∨ side.cost a.price = side.cost b.price ∧
    (a.timestamp < b.timestamp ∨ a.timestamp = b.timestamp ∧ a.index ≤ b.index)

theorem Best.NotAfter.trans {side : OrderSide} {a b c : Best} (h : a.NotAfter side b)
    (h' : b.NotAfter side c) : a.NotAfter side c := by
  unfold Best.NotAfter at *
  omega

theorem Best.NotAfter.refl (side : OrderSide) (a : Best) : a.NotAfter side a :=
  .inr ⟨rfl, .inr ⟨rfl, le_rfl⟩⟩

theorem improves_some {side : OrderSide} {order : LimitOrder} {best : Best} :
    improves side order (some best) = true ↔ side.cost order.price < side.cost best.price ∨
      side.cost order.price = side.cost best.price ∧ order.timestamp < best.timestamp := by
  unfold improves
  cases side <;> simp [OrderSide.cost]

/-- **The search** finds the first one in its own order. -/
theorem pickBest_least {m : Market} {incoming : LimitOrder} {ids : List Nat} :
    ∀ {i : Nat} {best : Option Best} {b : Best}, (∀ b₀, best = some b₀ → b₀.index < i) →
      pickBest m incoming i best ids = some b →
      (best = some b ∨ ∃ j id order, ids[j]? = some id ∧ readOrder m id = some order ∧
        eligible incoming order = true ∧ b = ⟨i + j, order.price, order.timestamp⟩) ∧
      (∀ b₀, best = some b₀ → b.NotAfter incoming.side b₀) ∧
      ∀ j id order, ids[j]? = some id → readOrder m id = some order →
        eligible incoming order = true →
        b.NotAfter incoming.side ⟨i + j, order.price, order.timestamp⟩ := by
  induction ids with
  | nil =>
    intro i best b _ h
    refine ⟨.inl h, fun b₀ h₀ => ?_, fun j id order hj => nomatch hj⟩
    obtain rfl := Option.some.inj (h₀.symm.trans h)
    exact .refl _ _
  | cons id ids ih =>
    intro i best b hbest h
    -- it is enough to know how the best one compares after the head has been looked at
    have hlift : ∀ {best' : Option Best}, pickBest m incoming (i + 1) best' ids = some b →
        (∀ b₀, best' = some b₀ → b₀.index < i + 1) →
        (∀ b', best' = some b' → best = some b' ∨ ∃ order, readOrder m id = some order ∧
          eligible incoming order = true ∧ b' = ⟨i, order.price, order.timestamp⟩) →
        (∀ b₀, best = some b₀ → ∃ b', best' = some b' ∧ b'.NotAfter incoming.side b₀) →
        (∀ order, readOrder m id = some order → eligible incoming order = true →
          ∃ b', best' = some b' ∧ b'.NotAfter incoming.side ⟨i, order.price, order.timestamp⟩) →
        (best = some b ∨ ∃ j id' order, (id :: ids)[j]? = some id' ∧ readOrder m id' = some order ∧
          eligible incoming order = true ∧ b = ⟨i + j, order.price, order.timestamp⟩) ∧
        (∀ b₀, best = some b₀ → b.NotAfter incoming.side b₀) ∧
        ∀ j id' order, (id :: ids)[j]? = some id' → readOrder m id' = some order →
          eligible incoming order = true →
          b.NotAfter incoming.side ⟨i + j, order.price, order.timestamp⟩ := by
      intro best' h' hindex hfrom hold hhead
      obtain ⟨hfound, hfirst, hrest⟩ := ih hindex h'
      refine ⟨?_, fun b₀ h₀ => ?_, fun j id' order hj hr he => ?_⟩
      · rcases hfound with hb | ⟨j, id', order, hj, hr, he, hb⟩
        · rcases hfrom b hb with hb | ⟨order, hr, he, hb⟩
          · exact .inl hb
          · exact .inr ⟨0, id, order, rfl, hr, he, hb⟩
        · refine .inr ⟨j + 1, id', order, hj, hr, he, hb.trans ?_⟩
          rw [Nat.add_right_comm, Nat.add_assoc]
      · obtain ⟨b', hb', hle⟩ := hold b₀ h₀
        exact (hfirst b' hb').trans hle
      · cases j with
        | zero =>
          obtain rfl := Option.some.inj hj
          obtain ⟨b', hb', hle⟩ := hhead order hr he
          exact (hfirst b' hb').trans hle
        | succ j =>
          have := hrest j id' order hj hr he
          rw [Nat.add_right_comm, Nat.add_assoc] at this
          exact this
    unfold pickBest at h
    split at h
    · next hnone =>
      refine hlift h (fun b₀ h₀ => (hbest b₀ h₀).trans (Nat.lt_succ_self i)) (fun b' => .inl)
        (fun b₀ h₀ => ⟨b₀, h₀, .refl _ _⟩) fun order hr => ?_
      rw [hnone] at hr
      cases hr
    · next order hr =>
      split at h
      · next hcond =>
        rw [Bool.and_eq_true] at hcond
        refine hlift h ?_ ?_ ?_ ?_
        · rintro b₀ ⟨⟩
          exact Nat.lt_succ_self i
        · rintro b' ⟨⟩
          exact .inr ⟨order, hr, hcond.1, rfl⟩
        · rintro b₀ rfl
          have hbetter := improves_some.mp hcond.2
          refine ⟨_, rfl, ?_⟩
          unfold Best.NotAfter
          dsimp only
          omega
        · intro order' hr' _
          obtain rfl := Option.some.inj (hr.symm.trans hr')
          exact ⟨_, rfl, .refl _ _⟩
      · next hcond =>
        refine hlift h (fun b₀ h₀ => (hbest b₀ h₀).trans (Nat.lt_succ_self i)) (fun b' => .inl)
          (fun b₀ h₀ => ⟨b₀, h₀, .refl _ _⟩) fun order' hr' he => ?_
        obtain rfl := Option.some.inj (hr.symm.trans hr')
        cases hb : best with
        | none =>
          rw [he, hb] at hcond
          exact absurd rfl hcond
        | some b₀ =>
          have hworse : ¬ improves incoming.side order (some b₀) = true := by
            rw [he, hb, Bool.true_and] at hcond
            exact hcond
          rw [improves_some] at hworse
          have hlt := hbest b₀ hb
          refine ⟨b₀, rfl, ?_⟩
          unfold Best.NotAfter
          dsimp only
          omega

/-! ## Candidates -/

section Candidates

variable {m : Market} {incoming order : LimitOrder} {x : Option Nat}

theorem mem_candidates (hb : BookOk m x) : order ∈ candidates m incoming ↔
    order.id ∈ readOrderBook m incoming.pair incoming.oppositeIsBuy ∧
      readOrder m order.id = some order ∧ eligible incoming order = true := by
  unfold candidates getOpenOrders
  rw [List.mem_filter, List.mem_filter, List.mem_filterMap]
  constructor
  · rintro ⟨⟨⟨id, hid, hr⟩, hopen⟩, hmatch⟩
    have hkey : order.id = id := (hb.keyed id order hr).1
    subst hkey
    obtain ⟨-, o, hr', -, -, hrests⟩ := (hb.listed _ _ _).mp hid
    obtain rfl := Option.some.inj (hr.symm.trans hr')
    refine ⟨hid, hr, ?_⟩
    unfold eligible
    rw [hopen, hmatch, decide_eq_true hrests.2.2]
    rfl
  · rintro ⟨hid, hr, he⟩
    unfold eligible at he
    rw [Bool.and_eq_true, Bool.and_eq_true] at he
    exact ⟨⟨⟨order.id, hid, hr⟩, he.1.1⟩, he.2⟩

theorem nodup_candidates (hb : BookOk m x) : (candidates m incoming).Nodup := by
  unfold candidates getOpenOrders
  refine (List.Nodup.filterMap ?_ (hb.nodup _ _)).filter _ |>.filter _
  intro id id' o ho ho'
  exact (hb.keyed id o ho).1.symm.trans (hb.keyed id' o ho').1

end Candidates

/-! ## One iteration -/

/-- The loop's invariant: the book without the taker is in order, and so are its lists. -/
structure Ranked (order : LimitOrder) (p : LimitOrder × Market) : Prop where
  matching : Matching order p
  placed : Placed p.2

section Iteration

variable {env : Env} {order incoming incoming' maker : LimitOrder} {m m' : Market}

/-- In the order of placement, an earlier place in the list and an earlier time is a smaller id. -/
theorem Ranked.precedes (h : Ranked order (incoming, m)) {j k : Nat} {a b : LimitOrder}
    (hj : (readOrderBook m incoming.pair incoming.oppositeIsBuy)[j]? = some a.id)
    (hk : (readOrderBook m incoming.pair incoming.oppositeIsBuy)[k]? = some b.id)
    (ha : readOrder m a.id = some a) (hb : readOrder m b.id = some b)
    (hle : (⟨j, a.price, a.timestamp⟩ : Best).NotAfter incoming.side ⟨k, b.price, b.timestamp⟩) :
    Precedes incoming.side a b := by
  rcases hle with hprice | ⟨hprice, htime⟩
  · exact .inl hprice
  refine .inr ⟨hprice, ?_⟩
  obtain ⟨hjlt, hj⟩ := List.getElem?_eq_some_iff.mp hj
  obtain ⟨hklt, hk⟩ := List.getElem?_eq_some_iff.mp hk
  rcases Nat.lt_trichotomy j k with hlt | rfl | hgt
  · have hids : (readOrderBook m incoming.pair incoming.oppositeIsBuy)[j] <
        (readOrderBook m incoming.pair incoming.oppositeIsBuy)[k] :=
      List.pairwise_iff_getElem.mp (h.placed.sorted _ _) j k hjlt hklt hlt
    omega
  · omega
  · -- listed later, so not placed earlier
    have hlater := List.pairwise_iff_getElem.mp
      (h.placed.timely incoming.pair incoming.oppositeIsBuy) k j hklt hjlt hgt b a
      (by rw [hk]; exact hb) (by rw [hj]; exact ha)
    rcases htime with htime | ⟨-, hindex⟩
    · exact absurd hlater (Nat.not_le.mpr htime)
    · exact absurd hindex (Nat.not_le.mpr hgt)

/-- **An iteration that goes on** fills the candidate that precedes the others. -/
theorem Ranked.best (h : Ranked order (incoming, m))
    (hs : matchStep env (incoming, m) = .ok (some (incoming', m'))) :
    0 < incoming.remaining ∧ ∃ maker ∈ candidates m incoming,
      (∀ other ∈ candidates m incoming, Precedes incoming.side maker other) ∧
      published env (incoming, m) =
        [orderMatched env incoming maker (fillAmount incoming maker)] ∧
      fillMaker env incoming maker m = .ok (incoming', m') := by
  have hb := h.matching.book
  obtain ⟨hpos, -⟩ := matchStep_some hs
  refine ⟨hpos, ?_⟩
  unfold matchStep at hs
  dsimp only at hs
  rw [if_neg (by omega)] at hs
  split at hs
  · cases hs
  next i hpick =>
  obtain ⟨b, hbest, rfl⟩ := Option.map_eq_some_iff.mp hpick
  obtain ⟨hfound, -, hleast⟩ := pickBest_least (fun b₀ (h₀ : none = some b₀) => nomatch h₀) hbest
  rcases hfound with hnone | ⟨j, id, maker, hj, hr, he, rfl⟩
  · cases hnone
  have hkey : maker.id = id := (hb.keyed id maker hr).1
  subst hkey
  have hidx : (readOrderBook m incoming.pair incoming.oppositeIsBuy)[0 + j]? = some maker.id := by
    rw [Nat.zero_add]
    exact hj
  refine ⟨maker, (mem_candidates hb).mpr ⟨List.mem_of_getElem? hj, hr, he⟩, fun other hother => ?_,
    ?_, ?_⟩
  · obtain ⟨hmem, hr', he'⟩ := (mem_candidates hb).mp hother
    obtain ⟨k, hk⟩ := List.mem_iff_getElem?.mp hmem
    have hidx' : (readOrderBook m incoming.pair incoming.oppositeIsBuy)[0 + k]? = some other.id := by
      rw [Nat.zero_add]
      exact hk
    exact h.precedes hidx hidx' hr hr' (hleast k other.id other hk hr' he')
  · simp only [published, hpick, hidx, Option.bind_some, hr, he, if_true]
  · simp only [hidx, ofOption, ok_bind, hr, he, if_true, bind_eq_ok, pure_eq_ok,
      Option.some.injEq] at hs
    obtain ⟨q, hq, rfl⟩ := hs
    exact hq

theorem Ranked.step {p p' : LimitOrder × Market} (h : Ranked order p)
    (hs : matchStep env p = .ok (some p')) : Ranked order p' := by
  obtain ⟨incoming, m⟩ := p
  obtain ⟨incoming', m'⟩ := p'
  obtain ⟨-, maker, hmem, -, -, hf⟩ := h.best hs
  exact ⟨matching_step h.matching hs,
    fillMaker_placed hf ((mem_candidates h.matching.book).mp hmem).2.1 h.placed⟩

/-- What is left of the candidates when the maker is used up. -/
theorem mem_candidates_fill (h : Ranked order (incoming, m)) (h' : Ranked order (incoming', m'))
    (hf : fillMaker env incoming maker m = .ok (incoming', m'))
    (hused : maker.remaining - fillAmount incoming maker = 0)
    (hmem : maker ∈ candidates m incoming) (other : LimitOrder) :
    other ∈ candidates m' incoming' ↔ other ∈ candidates m incoming ∧ other ≠ maker := by
  obtain ⟨hlisted, hr, he⟩ := (mem_candidates h.matching.book).mp hmem
  obtain ⟨hread, hbook, -, -⟩ := fillMaker_market hf
  obtain ⟨rfl, -⟩ := fillMaker_ok hf
  rw [mem_candidates h'.matching.book, mem_candidates h.matching.book]
  have hsame : ∀ other : LimitOrder, eligible (incoming.fill (fillAmount incoming maker)) other =
    eligible incoming other := fun _ => rfl
  show other.id ∈ readOrderBook m' incoming.pair incoming.oppositeIsBuy ∧ _ ↔ _
  rw [hbook, hread, hsame]
  by_cases hid : other.id = maker.id
  · constructor
    · rintro ⟨⟨-, hgone⟩, -⟩
      exact absurd ⟨hused, rfl, rfl, hid⟩ hgone
    · rintro ⟨⟨-, hr', -⟩, hne⟩
      rw [hid, hr] at hr'
      exact absurd (Option.some.inj hr').symm hne
  · rw [if_neg hid]
    constructor
    · rintro ⟨⟨hin, -⟩, hr', he'⟩
      exact ⟨⟨hin, hr', he'⟩, fun heq => hid (congrArg LimitOrder.id heq)⟩
    · rintro ⟨⟨hin, hr', he'⟩, -⟩
      exact ⟨⟨hin, fun hgone => hid hgone.2.2.2⟩, hr', he'⟩

/-- A fill uses up the taker or the maker. -/
theorem fillAmount_eq_min (incoming maker : LimitOrder) :
    fillAmount incoming maker = min incoming.remaining maker.remaining := by
  unfold fillAmount
  split <;> omega

/-- **One iteration of the reference**: the first candidate is served, then the others. -/
theorem referenceFills_step (h : Ranked order (incoming, m)) (h' : Ranked order (incoming', m'))
    (hpos : 0 < incoming.remaining) (hmem : maker ∈ candidates m incoming)
    (hleast : ∀ other ∈ candidates m incoming, Precedes incoming.side maker other)
    (hf : fillMaker env incoming maker m = .ok (incoming', m')) :
    referenceFills env m incoming =
      orderMatched env incoming maker (fillAmount incoming maker) ::
        referenceFills env m' incoming' := by
  have hb := h.matching.book
  have hmin := fillAmount_eq_min incoming maker
  have hkept : ∀ fill : LimitOrder × Int, orderMatched env incoming fill.1 fill.2 =
      orderMatched env incoming' fill.1 fill.2 := by
    obtain ⟨rfl, -⟩ := fillMaker_ok hf
    exact fun _ => rfl
  have hleft : incoming'.remaining = incoming.remaining - fillAmount incoming maker := by
    obtain ⟨rfl, -⟩ := fillMaker_ok hf
    rfl
  have hside : incoming'.side = incoming.side := by
    obtain ⟨rfl, -⟩ := fillMaker_ok hf
    rfl
  have hsorted : ∃ rest, (candidates m incoming).insertionSort (Precedes incoming.side) =
      maker :: rest ∧ (0 < incoming'.remaining →
        rest = (candidates m' incoming').insertionSort (Precedes incoming.side)) := by
    have hanti : ∀ a ∈ candidates m incoming, ∀ b ∈ candidates m incoming,
        Precedes incoming.side a b → Precedes incoming.side b a → a = b := by
      intro a ha b hb' hab hba
      have hid : a.id = b.id := by
        unfold Precedes at hab hba
        omega
      have hra := ((mem_candidates hb).mp ha).2.1
      have hrb := ((mem_candidates hb).mp hb').2.1
      rw [hid, hrb] at hra
      exact (Option.some.inj hra).symm
    by_cases hused : maker.remaining - fillAmount incoming maker = 0
    · refine ⟨_, Greedy.insertionSort_eq_cons hanti (nodup_candidates hb)
        (nodup_candidates h'.matching.book) hmem hleast
        (mem_candidates_fill h h' hf hused hmem), fun _ => rfl⟩
    · -- the taker is used up, and nobody else is served
      refine ⟨_, Greedy.insertionSort_eq_cons (k := (candidates m incoming).erase maker) hanti
        (nodup_candidates hb) ((nodup_candidates hb).erase maker) hmem hleast ?_, fun hmore => ?_⟩
      · intro other
        rw [(nodup_candidates hb).mem_erase_iff]
        exact and_comm
      · omega
  obtain ⟨rest, hcons, hrest⟩ := hsorted
  unfold referenceFills
  rw [hcons, Greedy.allocate_cons hpos, ← hmin, List.map_cons, hside, ← hleft]
  refine congrArg _ ?_
  by_cases hmore : 0 < incoming'.remaining
  · rw [hrest hmore]
    exact List.map_congr_left fun fill _ => hkept fill
  · rw [Greedy.allocate_of_met (by omega), Greedy.allocate_of_met (by omega)]
    rfl

/-- Where the loop stops the reference has nobody left to serve. -/
theorem referenceFills_none (h : Ranked order (incoming, m))
    (hnone : matchStep env (incoming, m) = .ok none) : referenceFills env m incoming = [] := by
  unfold referenceFills
  rcases matchStep_none hnone with hrem | hall
  · rw [Greedy.allocate_of_met hrem]
    rfl
  · have hempty : candidates m incoming = [] := by
      refine List.eq_nil_iff_forall_not_mem.mpr fun other hother => ?_
      obtain ⟨hid, hr, he⟩ := (mem_candidates h.matching.book).mp hother
      rw [hall other.id hid other hr] at he
      cases he
    rw [hempty]
    rfl

end Iteration

/-! ## The whole loop -/

section Whole

variable {env : Env} {order : LimitOrder} {stuck : Fault TradeError}

/-- A closed order is not touched again. -/
theorem closed_run {p q : LimitOrder × Market} {n : Nat} {o : LimitOrder} (h : Ranked order p)
    (hrun : Loop.run stuck (matchStep env) n p = .ok q) (hclosed : o.isOpen = false)
    (hr : readOrder p.2 o.id = some o) : readOrder q.2 o.id = some o := by
  refine (Loop.run_invariant (I := fun p => Ranked order p ∧ readOrder p.2 o.id = some o) ?_
    ⟨h, hr⟩ hrun).1.2
  rintro ⟨incoming, m⟩ ⟨incoming', m'⟩ ⟨h, hr⟩ hs
  refine ⟨h.step hs, ?_⟩
  obtain ⟨-, maker, hmem, -, -, hf⟩ := h.best hs
  obtain ⟨-, hr', he⟩ := (mem_candidates h.matching.book).mp hmem
  show readOrder m' o.id = some o
  rw [(fillMaker_market hf).1]
  split
  · next heq =>
    have hopen := (eligible_iff.mp he).1
    rw [← heq] at hr'
    rw [Option.some.inj (hr.symm.trans hr'), hopen] at hclosed
    cases hclosed
  · exact hr

/-- The loop stops once the taker has nothing left. -/
theorem run_of_met {p q : LimitOrder × Market} {n : Nat} (hmet : p.1.remaining ≤ 0)
    (hrun : Loop.run stuck (matchStep env) n p = .ok q) : q = p := by
  have hnone : matchStep env p = .ok none := if_pos hmet
  cases n with
  | zero => cases hrun
  | succ n =>
    rcases Loop.run_succ_ok.mp hrun with ⟨-, heq⟩ | ⟨t, ht, -⟩
    · exact heq.symm
    · rw [hnone] at ht
      cases ht

/-- A fill, with the candidate it was made with and what that one has left at the end. -/
def Served (p q : LimitOrder × Market) (fill : OrderMatched) : Prop :=
  ∃ maker ∈ candidates p.2 p.1, maker.id = fill.makerOrderId ∧ ∃ o,
    readOrder q.2 maker.id = some o ∧ o.remaining = maker.remaining - fill.amount

/-- **A loop that completes** makes the fills of the reference, and stores what they leave. -/
theorem publishedBy_eq {n : Nat} : ∀ {p q : LimitOrder × Market}, Ranked order p →
    Loop.run stuck (matchStep env) n p = .ok q →
    publishedBy env n p = referenceFills env p.2 p.1 ∧ ∀ fill ∈ publishedBy env n p, Served p q fill := by
  induction n with
  | zero => intro p q _ hrun; cases hrun
  | succ n ih =>
    intro p q h hrun
    unfold publishedBy
    rcases Loop.run_succ_ok.mp hrun with ⟨hnone, rfl⟩ | ⟨p', hs, hrun'⟩
    · rw [hnone]
      exact ⟨(referenceFills_none h hnone).symm, fun fill hfill => nomatch hfill⟩
    · obtain ⟨incoming, m⟩ := p
      obtain ⟨incoming', m'⟩ := p'
      have h' := h.step hs
      obtain ⟨hpos, maker, hmem, hleast, hpublished, hf⟩ := h.best hs
      obtain ⟨heq, hserved⟩ := ih h' hrun'
      have hleft : incoming'.remaining = incoming.remaining - fillAmount incoming maker := by
        obtain ⟨rfl, -⟩ := fillMaker_ok hf
        rfl
      have hmin := fillAmount_eq_min incoming maker
      -- after an iteration the loop is over, or the maker is closed
      have hover : incoming'.remaining ≤ 0 ∨ maker.remaining - fillAmount incoming maker = 0 := by
        omega
      rw [hs]
      show published env (incoming, m) ++ publishedBy env n (incoming', m') = _ ∧ _
      rw [hpublished, List.singleton_append]
      refine ⟨?_, fun fill hfill => ?_⟩
      · rw [heq]
        exact (referenceFills_step h h' hpos hmem hleast hf).symm
      · rcases List.mem_cons.mp hfill with rfl | hfill
        · refine ⟨maker, hmem, rfl, maker.fill (fillAmount incoming maker), ?_, rfl⟩
          have hnow : readOrder m' maker.id = some (maker.fill (fillAmount incoming maker)) := by
            rw [(fillMaker_market hf).1, if_pos rfl]
          rcases hover with hmet | hused
          · rw [run_of_met hmet hrun']
            exact hnow
          · refine closed_run (o := maker.fill (fillAmount incoming maker)) h' hrun' ?_ hnow
            unfold LimitOrder.isOpen
            rw [fill_status, if_pos hused]
            rfl
        · obtain ⟨other, hother, hid, ho⟩ := hserved fill hfill
          rcases hover with hmet | hused
          · rw [heq] at hfill
            unfold referenceFills at hfill
            rw [Greedy.allocate_of_met hmet] at hfill
            cases hfill
          · exact ⟨other, ((mem_candidates_fill h h' hf hused hmem other).mp hother).1, hid, ho⟩

end Whole

/-! ## The claim -/

/-- **Price-time priority** of the matching of `order` in the market `m`: it completes, its fills
are those of the reference, none is at a price worse than the limit, and a maker is filled only
when every candidate that comes before it has nothing left. -/
def Prioritised (env : Env) (order : LimitOrder) (m : Market) : Prop :=
  ∃ order' m', matchLimitOrder env order m = .ok (order', m') ∧
    matchFills env order m = referenceFills env m order ∧
    (∀ fill ∈ matchFills env order m, order.side.cost fill.price ≤ order.side.cost order.price) ∧
    ∀ fill ∈ matchFills env order m, ∀ maker ∈ candidates m order, fill.makerOrderId = maker.id →
      ∀ other ∈ candidates m order, other ≠ maker → Precedes order.side other maker →
        ∃ o, readOrder m' other.id = some o ∧ o.remaining = 0

section Claim

variable {env : Env} {order : LimitOrder} {m : Market}

/-- A fill of the reference, taken apart. -/
theorem mem_referenceFills {fill : OrderMatched} (h : fill ∈ referenceFills env m order) :
    ∃ maker amount, (maker, amount) ∈ Greedy.allocate LimitOrder.remaining order.remaining
        ((candidates m order).insertionSort (Precedes order.side)) ∧
      maker ∈ candidates m order ∧ fill = orderMatched env order maker amount := by
  obtain ⟨⟨maker, amount⟩, hin, rfl⟩ := List.mem_map.mp h
  exact ⟨maker, amount, hin, (List.mem_insertionSort _).mp (Greedy.mem_of_allocate hin), rfl⟩

theorem cost_le_of_eligible {maker : LimitOrder} (h : eligible order maker = true) :
    order.side.cost maker.price ≤ order.side.cost order.price := by
  obtain ⟨-, -, hcross⟩ := eligible_iff.mp h
  have hmatch := orderMatches_iff.mpr hcross
  unfold orderMatches at hmatch
  split at hmatch
  · cases hmatch
  · split at hmatch
    · next hside _ =>
      rw [hside]
      exact of_decide_eq_true hmatch
    · next hside _ =>
      rw [hside]
      exact Int.neg_le_neg (of_decide_eq_true hmatch)
    · cases hmatch

/-- A matching that completes has price-time priority. -/
theorem prioritised_of_ok (h : Ranked order (order, m))
    (hok : ∃ q, matchLimitOrder env order m = .ok q) : Prioritised env order m := by
  obtain ⟨⟨order', m'⟩, hrun⟩ := hok
  obtain ⟨heq, hserved⟩ := publishedBy_eq h hrun
  have hfills : matchFills env order m = referenceFills env m order := heq
  have hb := h.matching.book
  refine ⟨order', m', hrun, hfills, fun fill hfill => ?_, ?_⟩
  · rw [hfills] at hfill
    obtain ⟨maker, amount, -, hmem, rfl⟩ := mem_referenceFills hfill
    exact cost_le_of_eligible ((mem_candidates hb).mp hmem).2.2
  · intro fill hfill maker hmem hid other hother hne hbefore
    -- the orders of a book are told apart by their ids
    have hinj : ∀ a ∈ candidates m order, ∀ b ∈ candidates m order, a.id = b.id → a = b := by
      intro a ha b hb' hab
      have hra := ((mem_candidates hb).mp ha).2.1
      rw [hab, ((mem_candidates hb).mp hb').2.1] at hra
      exact (Option.some.inj hra).symm
    rw [hfills] at hfill
    obtain ⟨maker', amount, hin, hmem', rfl⟩ := mem_referenceFills hfill
    obtain rfl : maker' = maker := hinj maker' hmem' maker hmem hid
    -- `other` comes first, so it has been served in full
    have hlater : ¬ Precedes order.side maker' other := by
      intro hafter
      refine hne (hinj other hother maker' hmem ?_)
      unfold Precedes at hbefore hafter
      omega
    have hall := Greedy.allocate_exhausts (List.pairwise_insertionSort (Precedes order.side) _) hin
      ((List.mem_insertionSort _).mpr hother) hne hlater
    have hfill' : orderMatched env order other other.remaining ∈ matchFills env order m := by
      rw [hfills]
      exact List.mem_map.mpr ⟨_, hall, rfl⟩
    obtain ⟨served, hserved', hid', o, ho, hrem⟩ := hserved _ hfill'
    obtain rfl : served = other := hinj served hserved' other hother hid'
    refine ⟨o, ho, hrem.trans ?_⟩
    exact sub_self served.remaining

/-- The market that an order is matched in is in order. -/
theorem ranked_start {d : Deployment} {tr : Trace} {s : State} (h : Run (machine d) tr s)
    (trader : Address) (pair : Symbol) (isBuy : Bool) (price : Int) {amount : Int}
    (tif : TimeInForce) (ha : 0 < amount)
    (htaking : taking env s.market trader pair isBuy price amount tif = (order, m)) :
    Ranked order (order, m) := by
  obtain ⟨rfl, rfl⟩ := Prod.mk.inj htaking
  exact ⟨⟨newOrder_taker env _ trader pair isBuy price tif ha, rfl, (bookOk_run h).create rfl rfl⟩,
    (placed_run h).create (bookOk_run h) rfl rfl⟩

end Claim

end Stellara.Trading
