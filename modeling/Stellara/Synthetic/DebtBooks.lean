import Stellara.Synthetic.Steps

/-!
# The debt of an asset and its positions

`config.total_minted` should be the sum of the debt of the asset's CDPs (`Accounted`), and a
call other than `burn`, `liquidate` and `close_cdp` should leave a position with at least the
debt and the collateral it had, and with what the call paid in (`Kept`).

Four of the calls can go wrong.  `register_asset` writes a new configuration with no debt,
`open_cdp` a new position, over one that is there; without overflow checks `mint` and
`add_collateral` wrap around.  `synthetic_books_iff` says that these are the only ways.
-/

namespace Stellara.Synthetic

open Outcome

/-! ## Debt -/

/-- What a stored CDP adds to the debt of the asset. -/
def debtOf (asset : Symbol) (key : Address × Symbol) (cdp : CDP) : Int :=
  if key.2 = asset then cdp.mintedAmount else 0

/-- The debt recorded in all CDPs of the asset. -/
def debt (s : State) (asset : Symbol) : Int := Store.total (debtOf asset) s.cdps

/-- The recorded total of every asset is the sum over its CDPs. -/
def Accounted (s : State) : Prop :=
  ∀ asset config, s.configs.lookup asset = some config → config.totalMinted = debt s asset

/-- The collateral that the call pays into the position. -/
def paidIn (call : Call) (key : Address × Symbol) : Int :=
  match call with
  | .openCdp owner asset amount => if key = (owner, asset) then amount else 0
  | .addCollateral owner asset amount => if key = (owner, asset) then amount else 0
  | _ => 0

/-- The calls that may take from the position. -/
def MayReduce (call : Call) (key : Address × Symbol) : Prop :=
  match call with
  | .burn owner asset _ => key = (owner, asset)
  | .liquidate _ cdpOwner asset => key = (cdpOwner, asset)
  | .closeCdp owner asset => key = (owner, asset)
  | _ => False

/-- The call discards no recorded debt or collateral. -/
def Kept (e : Event Env Call Reply State) : Prop :=
  ∀ key cdp, e.before.cdps.lookup key = some cdp → ¬ MayReduce e.call key →
    ∃ cdp', e.after.cdps.lookup key = some cdp' ∧ cdp.mintedAmount ≤ cdp'.mintedAmount ∧
      cdp.collateralAmount + paidIn e.call key ≤ cdp'.collateralAmount

/-- An asset is registered while none of its CDPs has debt; a CDP is opened where there is none
with debt or collateral; what is minted fits the total, and what is added fits the collateral. -/
def Careful (e : Event Env Call Reply State) : Prop :=
  match e.call with
  | .registerAsset _ asset _ _ _ _ _ _ => debt e.before asset = 0
  | .openCdp owner asset _ => ∀ cdp, e.before.cdps.lookup (owner, asset) = some cdp →
      cdp.mintedAmount = 0 ∧ cdp.collateralAmount = 0
  | .mint _ asset amount => ∀ config, e.before.configs.lookup asset = some config →
      InI128 (config.totalMinted + amount)
  | .addCollateral owner asset amount => ∀ cdp, e.before.cdps.lookup (owner, asset) = some cdp →
      InI128 (cdp.collateralAmount + amount)
  | _ => True

instance (e : Event Env Call Reply State) : Decidable (Careful e) :=
  match e with
  | ⟨_, .registerAsset _ asset _ _ _ _ _ _, _, s, _⟩ => inferInstanceAs (Decidable (debt s asset = 0))
  | ⟨_, .openCdp owner asset _, _, s, _⟩ =>
    inferInstanceAs (Decidable (∀ cdp, s.cdps.lookup (owner, asset) = some cdp →
      cdp.mintedAmount = 0 ∧ cdp.collateralAmount = 0))
  | ⟨_, .mint _ asset amount, _, s, _⟩ =>
    inferInstanceAs (Decidable (∀ config, s.configs.lookup asset = some config →
      InI128 (config.totalMinted + amount)))
  | ⟨_, .addCollateral owner asset amount, _, s, _⟩ =>
    inferInstanceAs (Decidable (∀ cdp, s.cdps.lookup (owner, asset) = some cdp →
      InI128 (cdp.collateralAmount + amount)))
  | ⟨_, .initContract _, _, _, _⟩ | ⟨_, .updatePrice _ _ _, _, _, _⟩ | ⟨_, .burn _ _ _, _, _, _⟩
  | ⟨_, .liquidate _ _ _, _, _, _⟩ | ⟨_, .closeCdp _ _, _, _, _⟩ | ⟨_, .token _, _, _, _⟩
  | ⟨_, .administer _, _, _, _⟩ => inferInstanceAs (Decidable True)

/-- What holds as long as nothing was lost. -/
structure Books (s : State) : Prop where
  accounted : Accounted s
  minted_nonneg : ∀ key cdp, s.cdps.lookup key = some cdp → 0 ≤ cdp.mintedAmount
  collateral_bounds : ∀ key cdp, s.cdps.lookup key = some cdp →
    0 ≤ cdp.collateralAmount ∧ cdp.collateralAmount ≤ i128Max
  bounded : ∀ asset config, s.configs.lookup asset = some config → config.totalMinted ≤ i128Max

/-! ## Writes -/

/-- One written position moves the debt by the difference. -/
theorem total_debt_insert {cdps : Store (Address × Symbol) CDP} {key : Address × Symbol}
    (asset : Symbol) (cdp' : CDP) :
    Store.total (debtOf asset) (cdps.insert key cdp') =
      Store.total (debtOf asset) cdps - Store.old (debtOf asset) cdps key +
        debtOf asset key cdp' := Store.total_insert _ _ _ _

/-- A position has at most the debt of its asset. -/
theorem Books.minted_le {s : State} (h : Books s) {owner : Address} {asset : Symbol}
    {config : SyntheticConfig} {cdp : CDP} (hconfig : s.configs.lookup asset = some config)
    (hcdp : s.cdps.lookup (owner, asset) = some cdp) : cdp.mintedAmount ≤ config.totalMinted := by
  rw [h.accounted asset config hconfig]
  have hle := Store.le_total (f := debtOf asset) ?_ hcdp
  · simpa [debtOf, debt] using hle
  · intro key c hc
    unfold debtOf
    split
    · exact h.minted_nonneg key c hc
    · exact le_refl 0

/-- A position may be written without its configuration as long as its debt stays. -/
theorem accounted_write {s s' : State} (h : Accounted s) {owner : Address} {asset : Symbol}
    {cdp cdp' : CDP} (hcdp : s.cdps.lookup (owner, asset) = some cdp)
    (hcdps : s'.cdps = s.cdps.insert (owner, asset) cdp')
    (hconfigs : s'.configs = s.configs) (hsame : cdp'.mintedAmount = cdp.mintedAmount) :
    Accounted s' := by
  intro a config hconfig
  rw [hconfigs] at hconfig
  unfold debt
  rw [hcdps, total_debt_insert, Store.old_of_lookup hcdp, h a config hconfig]
  unfold debt debtOf
  simp [hsame]

/-- A position and its configuration written together: the total has to move as the position. -/
theorem accounted_write_iff {s s' : State} (h : Accounted s) {owner : Address} {asset : Symbol}
    {config config' : SyntheticConfig} {cdp cdp' : CDP}
    (hconfig : s.configs.lookup asset = some config)
    (hcdp : s.cdps.lookup (owner, asset) = some cdp)
    (hcdps : s'.cdps = s.cdps.insert (owner, asset) cdp')
    (hconfigs : s'.configs = s.configs.insert asset config') :
    Accounted s' ↔
      config'.totalMinted - config.totalMinted = cdp'.mintedAmount - cdp.mintedAmount := by
  have hdebt : ∀ a, debt s' a = debt s a +
      if asset = a then cdp'.mintedAmount - cdp.mintedAmount else 0 := by
    intro a
    unfold debt
    rw [hcdps, total_debt_insert, Store.old_of_lookup hcdp]
    unfold debtOf
    by_cases ha : asset = a
    · simp [ha]; omega
    · simp [ha]
  have htotal := h asset config hconfig
  constructor
  · intro h'
    have hnew := h' asset config' (by rw [hconfigs, AList.lookup_insert])
    rw [hdebt, if_pos rfl] at hnew
    omega
  · intro hmove a c hc
    rw [hconfigs, Store.lookup_insert_eq] at hc
    rw [hdebt]
    by_cases ha : a = asset
    · subst ha
      rw [if_pos rfl] at hc
      cases hc
      rw [if_pos rfl]
      omega
    · rw [if_neg ha] at hc
      rw [if_neg (Ne.symm ha), add_zero]
      exact h a c hc

/-- A call that writes one position keeps all if it keeps that one. -/
theorem kept_write_iff {e : Event Env Call Reply State} {key : Address × Symbol} {cdp' : CDP}
    (hcdps : e.after.cdps = e.before.cdps.insert key cdp')
    (hpaid : ∀ k, k ≠ key → paidIn e.call k = 0) :
    Kept e ↔ ∀ cdp, e.before.cdps.lookup key = some cdp → ¬ MayReduce e.call key →
      cdp.mintedAmount ≤ cdp'.mintedAmount ∧
        cdp.collateralAmount + paidIn e.call key ≤ cdp'.collateralAmount := by
  unfold Kept
  constructor
  · intro h cdp hcdp hno
    obtain ⟨c, hc, hle⟩ := h key cdp hcdp hno
    rw [hcdps, AList.lookup_insert] at hc
    cases hc
    exact hle
  · intro h k cdp hcdp hno
    by_cases hk : k = key
    · subst hk
      exact ⟨cdp', by rw [hcdps, AList.lookup_insert], h cdp hcdp hno⟩
    · refine ⟨cdp, ?_, le_refl _, ?_⟩
      · rw [hcdps, AList.lookup_insert_ne hk]; exact hcdp
      · rw [hpaid k hk]; omega

/-- A call that may reduce the position it writes keeps all. -/
theorem kept_of_mayReduce {e : Event Env Call Reply State} {key : Address × Symbol} {cdp' : CDP}
    (hcdps : e.after.cdps = e.before.cdps.insert key cdp')
    (hpaid : ∀ k, k ≠ key → paidIn e.call k = 0) (hmay : MayReduce e.call key) : Kept e :=
  (kept_write_iff hcdps hpaid).mpr fun _ _ hno => absurd hmay hno

/-- A call that writes no position keeps all. -/
theorem kept_of_cdps_eq {e : Event Env Call Reply State} (hcdps : e.after.cdps = e.before.cdps)
    (hpaid : ∀ k, paidIn e.call k = 0) : Kept e := by
  intro key cdp hcdp _
  refine ⟨cdp, by rw [hcdps]; exact hcdp, le_refl _, ?_⟩
  rw [hpaid key]
  omega

/-- A written position and a written configuration keep the signs and the bound. -/
theorem Books.write {s s' : State} (h : Books s) (h' : Accounted s') {key : Address × Symbol}
    {cdp' : CDP} (hcdps : s'.cdps = s.cdps.insert key cdp') (hminted : 0 ≤ cdp'.mintedAmount)
    (hcollateral : 0 ≤ cdp'.collateralAmount ∧ cdp'.collateralAmount ≤ i128Max)
    (hbounded : ∀ asset config, s'.configs.lookup asset = some config →
      config.totalMinted ≤ i128Max) : Books s' := by
  refine ⟨h', ?_, ?_, hbounded⟩
  · intro k c hc
    rw [hcdps, Store.lookup_insert_eq] at hc
    split at hc
    · cases hc; exact hminted
    · exact h.minted_nonneg k c hc
  · intro k c hc
    rw [hcdps, Store.lookup_insert_eq] at hc
    split at hc
    · cases hc; exact hcollateral
    · exact h.collateral_bounds k c hc

/-- Positions untouched: only the totals matter. -/
theorem Books.of_cdps_eq {s s' : State} (h : Books s) (h' : Accounted s')
    (hcdps : s'.cdps = s.cdps)
    (hbounded : ∀ asset config, s'.configs.lookup asset = some config →
      config.totalMinted ≤ i128Max) : Books s' :=
  ⟨h', by rw [hcdps]; exact h.minted_nonneg, by rw [hcdps]; exact h.collateral_bounds, hbounded⟩

theorem Books.bounded_insert {s : State} (h : Books s) {asset : Symbol} {config' : SyntheticConfig}
    (hle : config'.totalMinted ≤ i128Max) :
    ∀ a config, (s.configs.insert asset config').lookup a = some config →
      config.totalMinted ≤ i128Max := by
  intro a config hc
  rw [Store.lookup_insert_eq] at hc
  split at hc
  · cases hc; exact hle
  · exact h.bounded a config hc

/-! ## One call -/

/-- The call is right exactly when it is careful, and then the books stay right. -/
def Exact (e : Event Env Call Reply State) : Prop :=
  (Accounted e.after ∧ Kept e ↔ Careful e) ∧ (Accounted e.after ∧ Kept e → Books e.after)

/-- A call that leaves the books right without a condition. -/
theorem exact_of_books {e : Event Env Call Reply State} (h : Books e.after) (hkept : Kept e)
    (hcareful : Careful e) : Exact e :=
  ⟨⟨fun _ => hcareful, fun _ => ⟨h.accounted, hkept⟩⟩, fun _ => h⟩

theorem exact_of_same {env : Env} {call : Call} {r : Reply} {s s' : State} (h : Books s)
    (hcdps : s'.cdps = s.cdps) (hconfigs : s'.configs = s.configs)
    (hpaid : ∀ k, paidIn call k = 0) (hcareful : Careful ⟨env, call, r, s, s'⟩) :
    Exact ⟨env, call, r, s, s'⟩ := by
  have hacc : Accounted s' := by
    intro asset config hc
    rw [hconfigs] at hc
    unfold debt
    rw [hcdps]
    exact h.accounted asset config hc
  refine exact_of_books (h.of_cdps_eq hacc hcdps ?_) (kept_of_cdps_eq hcdps hpaid) hcareful
  rw [hconfigs]
  exact h.bounded

theorem registerAsset_exact {env : Env} {r : Reply} {s s' : State}
    {caller collateralToken syntheticToken : Address} {asset : Symbol}
    {minCratio liqCratio liqPenalty stabilityFeeBps : Int} (h : Books s)
    (hx : registerAsset env s caller asset minCratio liqCratio liqPenalty stabilityFeeBps
      collateralToken syntheticToken = .ok s') :
    Exact ⟨env, .registerAsset caller asset minCratio liqCratio liqPenalty stabilityFeeBps
      collateralToken syntheticToken, r, s, s'⟩ := by
  obtain rfl := registerAsset_ok hx
  have hkept : Kept ⟨env, .registerAsset caller asset minCratio liqCratio liqPenalty
      stabilityFeeBps collateralToken syntheticToken, r, s, _⟩ :=
    kept_of_cdps_eq rfl fun _ => rfl
  refine ⟨⟨?_, ?_⟩, ?_⟩
  · rintro ⟨hacc, -⟩
    exact (hacc asset _ (AList.lookup_insert _)).symm
  · intro hzero
    refine ⟨?_, hkept⟩
    intro a config hc
    rw [Store.lookup_insert_eq] at hc
    by_cases ha : a = asset
    · subst ha
      rw [if_pos rfl] at hc
      cases hc
      exact hzero.symm
    · rw [if_neg ha] at hc
      exact h.accounted a config hc
  · rintro ⟨hacc, -⟩
    exact h.of_cdps_eq hacc rfl (h.bounded_insert zero_le_i128Max)

theorem updatePrice_exact {env : Env} {r : Reply} {s s' : State} {caller : Address}
    {asset : Symbol} {newPrice : Int} (h : Books s)
    (hx : updatePrice env s caller asset newPrice = .ok s') :
    Exact ⟨env, .updatePrice caller asset newPrice, r, s, s'⟩ := by
  obtain ⟨config, hconfig, rfl⟩ := updatePrice_ok hx
  refine exact_of_books (h.of_cdps_eq ?_ rfl (h.bounded_insert ?_))
    (kept_of_cdps_eq rfl fun _ => rfl) trivial
  swap
  · exact h.bounded asset config hconfig
  intro a c hc
  rw [Store.lookup_insert_eq] at hc
  split at hc
  · next ha => cases hc; subst ha; exact h.accounted a config hconfig
  · exact h.accounted a c hc

theorem openCdp_exact {env : Env} {r : Reply} {s s' : State} {owner : Address} {asset : Symbol}
    {amount : Int} (h : Books s) (hrange : InI128 amount)
    (hx : openCdp env s owner asset amount = .ok s') :
    Exact ⟨env, .openCdp owner asset amount, r, s, s'⟩ := by
  obtain ⟨tokens, hpos, rfl⟩ := openCdp_ok hx
  have hcareful : Kept ⟨env, .openCdp owner asset amount, r, s, { s with
      cdps := s.cdps.insert (owner, asset) ⟨owner, amount, 0, 0, true⟩, tokens }⟩ ↔
      ∀ cdp, s.cdps.lookup (owner, asset) = some cdp →
        cdp.mintedAmount = 0 ∧ cdp.collateralAmount = 0 := by
    refine Iff.trans (kept_write_iff rfl ?_) ?_
    · intro k hk; exact if_neg hk
    constructor
    · intro hk cdp hcdp
      obtain ⟨hm, hc⟩ := hk cdp hcdp (fun hf => hf)
      have h0 := h.minted_nonneg _ _ hcdp
      have h1 := (h.collateral_bounds _ _ hcdp).1
      simp only [paidIn, if_pos] at hm hc
      omega
    · intro hk cdp hcdp _
      obtain ⟨hm, hc⟩ := hk cdp hcdp
      simp only [paidIn, if_pos]
      omega
  refine ⟨⟨fun hq => hcareful.mp hq.2, fun hp => ⟨?_, hcareful.mpr hp⟩⟩, fun hq => ?_⟩
  · -- the position that is overwritten has no debt
    intro a config hc
    have hold : Store.old (debtOf a) s.cdps (owner, asset) = 0 := by
      cases hcdp : s.cdps.lookup (owner, asset) with
      | none => exact Store.old_of_lookup_none hcdp
      | some cdp =>
        rw [Store.old_of_lookup hcdp]
        unfold debtOf
        rw [(hp cdp hcdp).1, ite_self]
    unfold debt
    rw [total_debt_insert, hold, h.accounted a config hc]
    unfold debt debtOf
    simp
  · exact h.write hq.1 rfl (le_refl 0) ⟨hpos.le, (inI128_iff.mp hrange).2⟩ h.bounded

/-- The sum of two amounts that are not negative fits exactly when it did not wrap around. -/
theorem sum_fits_iff {d : Deployment} {x y n : Int} (h : (d.i128 (x + y) : Result Int) = .ok n)
    (hx : 0 ≤ x) (hy : 0 < y) (hxmax : x ≤ i128Max) (hymax : InI128 y) :
    InI128 (x + y) ↔ x ≤ n := by
  have hy2 := hymax.2
  unfold i128Max at hxmax
  rcases i128_sum_cases h (by omega) (by omega) with ⟨hin, rfl⟩ | ⟨hout, rfl⟩
  · exact ⟨fun _ => by omega, fun _ => hin⟩
  · exact ⟨fun hin => absurd hin hout, fun hle => by omega⟩

theorem mint_exact {env : Env} {r : Reply} {s s' : State} {owner : Address} {asset : Symbol}
    {amount n : Int} (h : Books s) (hrange : InI128 amount)
    (hx : mint env s owner asset amount = .ok (n, s')) :
    Exact ⟨env, .mint owner asset amount, r, s, s'⟩ := by
  obtain ⟨config, cdp, ratio, total, tokens, hpos, hconfig, hcdp, hn, -, htotal, hs⟩ := mint_ok hx
  have hle := h.minted_le hconfig hcdp
  have hm0 := h.minted_nonneg _ _ hcdp
  have hc0 := h.collateral_bounds _ _ hcdp
  have hmax := h.bounded asset config hconfig
  have hcdps : s'.cdps = s.cdps.insert (owner, asset)
      { cdp with mintedAmount := n, collateralRatio := ratio } := by rw [hs]
  have hconfigs : s'.configs = s.configs.insert asset { config with totalMinted := total } := by
    rw [hs]
  have hacc := accounted_write_iff h.accounted hconfig hcdp hcdps hconfigs
  have hkept : Kept ⟨env, .mint owner asset amount, r, s, s'⟩ ↔ cdp.mintedAmount ≤ n := by
    refine Iff.trans (kept_write_iff hcdps fun _ _ => rfl) ?_
    constructor
    · intro hk; exact (hk cdp hcdp fun hf => hf).1
    · intro hm c hc _
      rw [hcdp] at hc
      cases hc
      exact ⟨hm, by simp [paidIn]⟩
  have hfits : InI128 (cdp.mintedAmount + amount) ↔ cdp.mintedAmount ≤ n :=
    sum_fits_iff hn hm0 hpos (hle.trans hmax) hrange
  have hcareful : Careful ⟨env, .mint owner asset amount, r, s, s'⟩ ↔
      InI128 (config.totalMinted + amount) := by
    constructor
    · intro hc; exact hc config hconfig
    · intro hc c hc'
      have hcc : config = c := Option.some.inj (hconfig.symm.trans hc')
      exact hcc ▸ hc
  have hsame : Accounted s' ∧ Kept ⟨env, .mint owner asset amount, r, s, s'⟩ ↔
      InI128 (config.totalMinted + amount) := by
    rw [hacc, hkept, ← hfits]
    show total - config.totalMinted = n - cdp.mintedAmount ∧ _ ↔ _
    unfold i128Max at hmax
    have hr := hrange.2
    rcases i128_sum_cases htotal (by omega) (by omega) with ⟨hin, rfl⟩ | ⟨hout, rfl⟩
    · -- the total fits, so does the position
      have hm : InI128 (cdp.mintedAmount + amount) := ⟨by omega, by have := hin.2; omega⟩
      rw [i128_exact hn hm]
      exact ⟨fun _ => hin, fun _ => ⟨by omega, hm⟩⟩
    · -- the total has wrapped around, and the position would have had to as well
      refine ⟨?_, fun hin => absurd hin hout⟩
      rintro ⟨hmove, hm⟩
      rw [i128_exact hn hm] at hmove
      omega
  refine ⟨hsame.trans hcareful.symm, fun hq => ?_⟩
  have hin := hsame.mp hq
  refine h.write hq.1 hcdps (hm0.trans (hkept.mp hq.2)) hc0 ?_
  rw [hconfigs]
  refine h.bounded_insert ?_
  rw [i128_exact htotal hin]
  exact (inI128_iff.mp hin).2

/-- Paying back: position and total move by the amount, and no other position moves. -/
theorem burn_exact {env : Env} {r : Reply} {s s' : State} {owner : Address} {asset : Symbol}
    {amount : Int} (h : Books s) (hx : burn env s owner asset amount = .ok s') :
    Exact ⟨env, .burn owner asset amount, r, s, s'⟩ := by
  obtain ⟨config, cdp, n, ratio, total, tokens, hpos, hconfig, hcdp, hamount, hn, -, htotal, hs⟩ :=
    burn_ok hx
  have hle := h.minted_le hconfig hcdp
  have hm0 := h.minted_nonneg _ _ hcdp
  have hc0 := h.collateral_bounds _ _ hcdp
  have hmax := h.bounded asset config hconfig
  have hn' : n = cdp.mintedAmount - amount :=
    i128_exact hn (inI128_iff.mpr ⟨by omega, by omega⟩)
  have htotal' : total = config.totalMinted - amount :=
    i128_exact htotal (inI128_iff.mpr ⟨by omega, by omega⟩)
  have hcdps : s'.cdps = s.cdps.insert (owner, asset)
      { cdp with mintedAmount := n, collateralRatio := ratio } := by rw [hs]
  have hconfigs : s'.configs = s.configs.insert asset { config with totalMinted := total } := by
    rw [hs]
  have hacc : Accounted s' := by
    rw [accounted_write_iff h.accounted hconfig hcdp hcdps hconfigs]
    show total - config.totalMinted = n - cdp.mintedAmount
    omega
  refine exact_of_books (h.write hacc hcdps ?_ hc0 ?_) ?_ trivial
  · show 0 ≤ n
    omega
  · rw [hconfigs]
    refine h.bounded_insert ?_
    show total ≤ i128Max
    omega
  · exact kept_of_mayReduce hcdps (fun _ _ => rfl) rfl

theorem addCollateral_exact {env : Env} {r : Reply} {s s' : State} {owner : Address}
    {asset : Symbol} {amount : Int} (h : Books s) (hrange : InI128 amount)
    (hx : addCollateral env s owner asset amount = .ok s') :
    Exact ⟨env, .addCollateral owner asset amount, r, s, s'⟩ := by
  obtain ⟨config, cdp, n, ratio, tokens, hpos, hconfig, hcdp, hn, -, hs⟩ := addCollateral_ok hx
  have hm0 := h.minted_nonneg _ _ hcdp
  have hc0 := h.collateral_bounds _ _ hcdp
  have hcdps : s'.cdps = s.cdps.insert (owner, asset)
      { cdp with collateralAmount := n, collateralRatio := ratio } := by rw [hs]
  have hconfigs : s'.configs = s.configs := by rw [hs]
  have hacc := accounted_write h.accounted hcdp hcdps hconfigs rfl
  have hfits := sum_fits_iff hn hc0.1 hpos hc0.2 hrange
  have hkept : Kept ⟨env, .addCollateral owner asset amount, r, s, s'⟩ ↔
      InI128 (cdp.collateralAmount + amount) := by
    refine Iff.trans (kept_write_iff hcdps fun k hk => if_neg hk) ?_
    constructor
    · intro hk
      have hsum := (hk cdp hcdp fun hf => hf).2
      simp only [paidIn, if_pos] at hsum
      exact hfits.mpr (by omega)
    · intro hin c hc _
      rw [hcdp] at hc
      cases hc
      simp only [paidIn, if_pos]
      rw [i128_exact hn hin]
      exact ⟨le_refl _, le_refl _⟩
  have hcareful : Careful ⟨env, .addCollateral owner asset amount, r, s, s'⟩ ↔
      InI128 (cdp.collateralAmount + amount) := by
    constructor
    · intro hc; exact hc cdp hcdp
    · intro hc c hc'
      have hcc : cdp = c := Option.some.inj (hcdp.symm.trans hc')
      exact hcc ▸ hc
  refine ⟨⟨fun hq => hcareful.mpr (hkept.mp hq.2), fun hp => ⟨hacc, hkept.mpr (hcareful.mp hp)⟩⟩,
    fun hq => ?_⟩
  have hin := hkept.mp hq.2
  have hn' := i128_exact hn hin
  have hmax := (inI128_iff.mp hin).2
  refine h.write hacc hcdps hm0 ?_ (by rw [hconfigs]; exact h.bounded)
  show 0 ≤ n ∧ n ≤ i128Max
  omega

/-- The debt of a liquidated position leaves the total. -/
theorem liquidate_exact {env : Env} {r : Reply} {s s' : State} {liquidator owner : Address}
    {asset : Symbol} {seized : Int} (h : Books s)
    (hx : liquidate env s liquidator owner asset = .ok (seized, s')) :
    Exact ⟨env, .liquidate liquidator owner asset, r, s, s'⟩ := by
  obtain ⟨config, cdp, total, tokens, hconfig, hcdp, htotal, hs⟩ := liquidate_ok hx
  have hle := h.minted_le hconfig hcdp
  have hm0 := h.minted_nonneg _ _ hcdp
  have hmax := h.bounded asset config hconfig
  have htotal' : total = config.totalMinted - cdp.mintedAmount :=
    i128_exact htotal (inI128_iff.mpr ⟨by omega, by omega⟩)
  have hcdps : s'.cdps = s.cdps.insert (owner, asset)
      { cdp with isActive := false, mintedAmount := 0, collateralAmount := 0 } := by rw [hs]
  have hconfigs : s'.configs = s.configs.insert asset { config with totalMinted := total } := by
    rw [hs]
  have hacc : Accounted s' := by
    rw [accounted_write_iff h.accounted hconfig hcdp hcdps hconfigs]
    show total - config.totalMinted = 0 - cdp.mintedAmount
    omega
  refine exact_of_books (h.write hacc hcdps (le_refl 0) ⟨le_refl 0, zero_le_i128Max⟩ ?_) ?_ trivial
  · rw [hconfigs]
    refine h.bounded_insert ?_
    show total ≤ i128Max
    omega
  · exact kept_of_mayReduce hcdps (fun _ _ => rfl) rfl

theorem closeCdp_exact {env : Env} {r : Reply} {s s' : State} {owner : Address} {asset : Symbol}
    {returned : Int} (h : Books s) (hx : closeCdp env s owner asset = .ok (returned, s')) :
    Exact ⟨env, .closeCdp owner asset, r, s, s'⟩ := by
  obtain ⟨cdp, tokens, hcdp, -, hs⟩ := closeCdp_ok hx
  have hm0 := h.minted_nonneg _ _ hcdp
  have hcdps : s'.cdps = s.cdps.insert (owner, asset)
      { cdp with isActive := false, collateralAmount := 0 } := by rw [hs]
  have hconfigs : s'.configs = s.configs := by rw [hs]
  have hacc := accounted_write h.accounted hcdp hcdps hconfigs rfl
  refine exact_of_books (h.write hacc hcdps hm0 ⟨le_refl 0, zero_le_i128Max⟩ ?_) ?_ trivial
  · rw [hconfigs]; exact h.bounded
  · exact kept_of_mayReduce hcdps (fun _ _ => rfl) rfl

/-! ## Every run -/

theorem exact_step {d : Deployment} {env : Env} {call : Call} {r : Reply} {s s' : State}
    (h : Books s) (hv : (machine d).valid env call)
    (hx : (machine d).exec env call s = .ok (r, s')) : Exact ⟨env, call, r, s, s'⟩ := by
  cases call with
  | initContract admin =>
    obtain ⟨hcall, -⟩ := done_ok.mp hx
    obtain rfl := initContract_ok hcall
    exact exact_of_same h rfl rfl (fun _ => rfl) trivial
  | registerAsset caller asset minCratio liqCratio liqPenalty fee collateralToken syntheticToken =>
    exact registerAsset_exact h (done_ok.mp hx).1
  | updatePrice caller asset newPrice => exact updatePrice_exact h (done_ok.mp hx).1
  | openCdp owner asset amount => exact openCdp_exact h hv.2 (done_ok.mp hx).1
  | mint owner asset amount =>
    obtain ⟨n, hcall, -⟩ := replyAmount_ok hx
    exact mint_exact h hv.2 hcall
  | burn owner asset amount => exact burn_exact h (done_ok.mp hx).1
  | addCollateral owner asset amount => exact addCollateral_exact h hv.2 (done_ok.mp hx).1
  | liquidate liquidator owner asset =>
    obtain ⟨n, hcall, -⟩ := replyAmount_ok hx
    exact liquidate_exact h hcall
  | closeCdp owner asset =>
    obtain ⟨n, hcall, -⟩ := replyAmount_ok hx
    exact closeCdp_exact h hcall
  | token c =>
    obtain ⟨tokens, rfl⟩ := token_ok (done_ok.mp hx).1
    exact exact_of_same h rfl rfl (fun _ => rfl) trivial
  | administer token =>
    cases hx
    exact exact_of_same h rfl rfl (fun _ => rfl) trivial

theorem books_init {d : Deployment} {s : State} (h : (machine d).init s) : Books s := by
  obtain ⟨-, hconfigs, hcdps⟩ := h
  refine ⟨?_, ?_, ?_, ?_⟩
  · intro asset config hc; rw [hconfigs] at hc; cases hc
  · intro key cdp hc; rw [hcdps] at hc; cases hc
  · intro key cdp hc; rw [hcdps] at hc; cases hc
  · intro asset config hc; rw [hconfigs] at hc; cases hc

/-- **Synthetic debt accounting.**  Along a run the recorded total of every asset is the sum of
the debt of its CDPs, and only `burn`, `liquidate` and `close_cdp` take debt or collateral from
a position, if and only if all its calls are careful. -/
theorem synthetic_books_iff {d : Deployment} {tr : Trace} {s : State} (h : Run (machine d) tr s) :
    (∀ e ∈ tr, Accounted e.after ∧ Kept e) ↔ ∀ e ∈ tr, Careful e :=
  h.forall_event_iff (fun _ h0 => books_init h0)
    fun _ _ _ _ _ _ _ hv hI hx => exact_step hI hv hx

/-! ## Registered again, opened again -/

/-- Contract 0, administrator 9; calls are signed by `signers`. -/
def callAt (t : Nat) (signers : List Address) : Env := ⟨⟨0, true⟩, t, 0, signers⟩

/-- No tokens, no positions; the contract administers token 20. -/
def fresh : State := { tokens := .empty, administered := [20] }

/-- User 1 puts 1500 of token 10 into a position in sUSD and mints 1000. -/
def openPosition : List (Env × Call) :=
  [(callAt 0 [], .initContract 9),
    (callAt 1 [9], .registerAsset 9 "sUSD" 15000 12000 1300 50 10 20),
    (callAt 2 [9], .updatePrice 9 "sUSD" 1000000),
    (callAt 3 [], .token (.mint 10 1 3000)),
    (callAt 4 [1], .openCdp 1 "sUSD" 1500),
    (callAt 5 [1], .mint 1 "sUSD" 1000)]

/-- Then the asset is registered with a new penalty, and the user opens the position again to
put 600 more into it. -/
def writtenAgain : List (Env × Call) :=
  openPosition ++ [(callAt 6 [9], .registerAsset 9 "sUSD" 15000 12000 1000 50 10 20),
    (callAt 7 [1], .openCdp 1 "sUSD" 600)]

/-- The second registration forgets the debt of 1000, and the second opening discards it and
the collateral of 1500. -/
theorem debt_discarded :
    ∃ (tr : Trace) (s : State), Run (machine ⟨0, true⟩) tr s ∧
      (∃ e ∈ tr, ¬ Accounted e.after) ∧ ∃ e ∈ tr, ¬ Kept e := by
  have hinit : (machine ⟨0, true⟩).init fresh := ⟨rfl, rfl, rfl⟩
  obtain ⟨tr, s, hrun, hok⟩ := Machine.exists_run_of_replay hinit writtenAgain
    (fun tr _ => (tr.any fun e => (e.after.configs.lookup "sUSD").map (·.totalMinted) = some 0 ∧
        debt e.after "sUSD" = 1000) ∧
      (tr.any fun e => e.call = .openCdp 1 "sUSD" 600 ∧
        (e.before.cdps.lookup (1, "sUSD")).map (·.collateralAmount) = some 1500 ∧
        (e.after.cdps.lookup (1, "sUSD")).map (·.collateralAmount) = some 600))
    (by decide) (by decide) (by decide)
  obtain ⟨hreg, hopen⟩ := of_decide_eq_true hok
  refine ⟨tr, s, hrun, ?_, ?_⟩
  · obtain ⟨e, he, hcheck⟩ := List.any_eq_true.mp hreg
    obtain ⟨htotal, hdebt⟩ := of_decide_eq_true hcheck
    refine ⟨e, he, fun hacc => ?_⟩
    obtain ⟨config, hconfig, hzero⟩ := Option.map_eq_some_iff.mp htotal
    have hsum := hacc "sUSD" config hconfig
    omega
  · obtain ⟨e, he, hcheck⟩ := List.any_eq_true.mp hopen
    obtain ⟨hcall, hbefore, hafter⟩ := of_decide_eq_true hcheck
    refine ⟨e, he, fun hkept => ?_⟩
    obtain ⟨cdp, hcdp, hold⟩ := Option.map_eq_some_iff.mp hbefore
    obtain ⟨cdp', hcdp', -, hle⟩ := hkept (1, "sUSD") cdp hcdp (by rw [hcall]; exact fun hf => hf)
    rw [hcdp', Option.map_some, Option.some.injEq] at hafter
    rw [hcall] at hle
    simp only [paidIn, if_pos] at hle
    omega

/-- Opened once and partly paid back, the position and the total agree. -/
theorem synthetic_books_once :
    ∃ (tr : Trace) (s : State), Run (machine ⟨0, true⟩) tr s ∧ debt s "sUSD" = 600 ∧
      ∀ e ∈ tr, Accounted e.after ∧ Kept e := by
  have hinit : (machine ⟨0, true⟩).init fresh := ⟨rfl, rfl, rfl⟩
  obtain ⟨tr, s, hrun, hok⟩ := Machine.exists_run_of_replay hinit
    (openPosition ++ [(callAt 6 [1], .burn 1 "sUSD" 400)])
    (fun tr s => debt s "sUSD" = 600 ∧ tr.all fun e => decide (Careful e))
    (by decide) (by decide) (by decide)
  obtain ⟨hdebt, hall⟩ := of_decide_eq_true hok
  refine ⟨tr, s, hrun, hdebt, (synthetic_books_iff hrun).mpr ?_⟩
  intro e he
  exact of_decide_eq_true (List.all_eq_true.mp hall e he)

end Stellara.Synthetic
