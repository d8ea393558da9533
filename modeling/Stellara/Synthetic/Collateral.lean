import Stellara.Synthetic.DebtBooks

/-!
# The collateral behind the positions

Positions of all users in all assets backed by a token share one balance of the contract:

    backing s token  =  Σ collateral_amount of the CDPs of assets with this collateral token
    backing s token  ≤  balance of the contract                                 (Backed.covered)

in every state that a run reaches in which no asset is registered twice (`collateral_solvent`).
A call moves the balance by at least what it does to the positions: `liquidate` pays out at most
the collateral that it takes from the records, whatever the penalty, and reopening a position
drops what was recorded and keeps the tokens.
-/

namespace Stellara.Synthetic

open Outcome

/-- The token that the asset takes as collateral. -/
def collateralOf (s : State) (asset : Symbol) : Option Address :=
  (s.configs.lookup asset).map SyntheticConfig.collateralToken

/-- What a position adds to the claims on the token. -/
def claimOn (s : State) (token : Address) (key : Address × Symbol) (cdp : CDP) : Int :=
  if collateralOf s key.2 = some token then cdp.collateralAmount else 0

/-- The collateral of all stored CDPs of the assets that use the token. -/
def backing (s : State) (token : Address) : Int := Store.total (claimOn s token) s.cdps

/-- The collateral recorded in the position, zero if there is none. -/
def recorded (s : State) (key : Address × Symbol) : Int :=
  ((s.cdps.lookup key).map CDP.collateralAmount).getD 0

/-- An asset that the call registers is not registered yet. -/
def RegistersNew (e : Event Env Call Reply State) : Prop :=
  match e.call with
  | .registerAsset _ asset _ _ _ _ _ _ => e.before.configs.lookup asset = none
  | _ => True

instance (e : Event Env Call Reply State) : Decidable (RegistersNew e) :=
  match e with
  | ⟨_, .registerAsset _ asset _ _ _ _ _ _, _, s, _⟩ =>
    inferInstanceAs (Decidable (s.configs.lookup asset = none))
  | ⟨_, .initContract _, _, _, _⟩ | ⟨_, .updatePrice _ _ _, _, _, _⟩ | ⟨_, .openCdp _ _ _, _, _, _⟩
  | ⟨_, .mint _ _ _, _, _, _⟩ | ⟨_, .burn _ _ _, _, _, _⟩ | ⟨_, .addCollateral _ _ _, _, _, _⟩
  | ⟨_, .liquidate _ _ _, _, _, _⟩ | ⟨_, .closeCdp _ _, _, _, _⟩ | ⟨_, .token _, _, _, _⟩
  | ⟨_, .administer _, _, _, _⟩ => inferInstanceAs (Decidable True)

/-- **The positions are backed.** -/
structure Backed (d : Deployment) (s : State) : Prop where
  registered : ∀ key cdp, s.cdps.lookup key = some cdp → (s.configs.lookup key.2).isSome
  nonneg : ∀ key cdp, s.cdps.lookup key = some cdp → 0 ≤ cdp.collateralAmount
  covered : ∀ token, backing s token ≤ s.tokens.balance token d.self

namespace Backed

variable {d : Deployment} {s s' : State}

theorem recorded_nonneg (h : Backed d s) (key : Address × Symbol) : 0 ≤ recorded s key := by
  unfold recorded
  cases hcdp : s.cdps.lookup key with
  | none => exact le_refl 0
  | some cdp => exact h.nonneg key cdp hcdp

theorem recorded_eq {key : Address × Symbol} {cdp : CDP} (hcdp : s.cdps.lookup key = some cdp) :
    recorded s key = cdp.collateralAmount := by
  rw [recorded, hcdp]
  rfl

/-- A single position is covered. -/
theorem recorded_le (h : Backed d s) (key : Address × Symbol) {cdp : CDP} {config : SyntheticConfig}
    (hconfig : s.configs.lookup key.2 = some config) (hcdp : s.cdps.lookup key = some cdp) :
    cdp.collateralAmount ≤ s.tokens.balance config.collateralToken d.self := by
  have hle := Store.le_total (f := claimOn s config.collateralToken) ?_ hcdp
  · have hclaim : claimOn s config.collateralToken key cdp = cdp.collateralAmount :=
      if_pos (by rw [collateralOf, hconfig]; rfl)
    rw [hclaim] at hle
    exact hle.trans (h.covered _)
  · intro k c hc
    unfold claimOn
    split
    · exact h.nonneg k c hc
    · exact le_refl 0

/-- Positions and collateral tokens untouched, and no tokens taken. -/
theorem keep (h : Backed d s) (hcdps : s'.cdps = s.cdps)
    (hconfigs : ∀ asset, collateralOf s' asset = collateralOf s asset)
    (hbal : ∀ token, s.tokens.balance token d.self ≤ s'.tokens.balance token d.self) :
    Backed d s' := by
  refine ⟨?_, by rw [hcdps]; exact h.nonneg, ?_⟩
  · intro key cdp hcdp
    rw [hcdps] at hcdp
    have hsome := h.registered key cdp hcdp
    have hsame := congrArg Option.isSome (hconfigs key.2)
    simp only [collateralOf, Option.isSome_map] at hsame
    rw [hsame]
    exact hsome
  · intro token
    have hsame : claimOn s' token = claimOn s token := by
      funext key cdp
      unfold claimOn
      rw [hconfigs]
    unfold backing
    rw [hcdps, hsame]
    exact (h.covered token).trans (hbal token)

/-- One position is written, and `x` of its token moves, which is at least the difference. -/
theorem write (h : Backed d s) (key : Address × Symbol) {config : SyntheticConfig} {cdp' : CDP}
    {x : Int} (hconfig : s.configs.lookup key.2 = some config)
    (hcdps : s'.cdps = s.cdps.insert key cdp')
    (hconfigs : ∀ asset, collateralOf s' asset = collateralOf s asset)
    (hnonneg : 0 ≤ cdp'.collateralAmount)
    (hbal : ∀ token, s'.tokens.balance token d.self =
      s.tokens.balance token d.self + if token = config.collateralToken then x else 0)
    (hx : cdp'.collateralAmount - recorded s key ≤ x) : Backed d s' := by
  have hsome : ∀ asset, (s'.configs.lookup asset).isSome = (s.configs.lookup asset).isSome := by
    intro asset
    have hsame := congrArg Option.isSome (hconfigs asset)
    simpa only [collateralOf, Option.isSome_map] using hsame
  refine ⟨?_, ?_, ?_⟩
  · intro k c hc
    rw [hcdps, Store.lookup_insert_eq] at hc
    rw [hsome]
    split at hc
    · next heq => subst heq; rw [hconfig]; rfl
    · exact h.registered k c hc
  · intro k c hc
    rw [hcdps, Store.lookup_insert_eq] at hc
    split at hc
    · cases hc; exact hnonneg
    · exact h.nonneg k c hc
  · intro token
    have hsame : claimOn s' token = claimOn s token := by
      funext k c
      unfold claimOn
      rw [hconfigs]
    have hcol : collateralOf s key.2 = some config.collateralToken := by
      rw [collateralOf, hconfig]
      rfl
    -- what the old and the new position claim
    have hold : Store.old (claimOn s token) s.cdps key =
        if token = config.collateralToken then recorded s key else 0 := by
      unfold Store.old recorded claimOn
      rw [hcol]
      cases s.cdps.lookup key with
      | none => simp
      | some c => simp [eq_comm]
    have hnew : claimOn s token key cdp' =
        if token = config.collateralToken then cdp'.collateralAmount else 0 := by
      unfold claimOn
      rw [hcol]
      simp [eq_comm]
    have hcov := h.covered token
    have hmove := hbal token
    unfold backing at hcov ⊢
    rw [hcdps, hsame, Store.total_insert, hold, hnew, hmove]
    split <;> omega

/-- The debt of a position changes, and neither its collateral nor what the contract holds. -/
theorem redebt (h : Backed d s) (key : Address × Symbol) {config : SyntheticConfig} {cdp cdp' : CDP}
    (hconfig : s.configs.lookup key.2 = some config) (hcdp : s.cdps.lookup key = some cdp)
    (hcdps : s'.cdps = s.cdps.insert key cdp')
    (hconfigs : ∀ asset, collateralOf s' asset = collateralOf s asset)
    (hsame : cdp'.collateralAmount = cdp.collateralAmount)
    (hbal : ∀ token, s'.tokens.balance token d.self = s.tokens.balance token d.self) :
    Backed d s' := by
  have hmove : ∀ token, s'.tokens.balance token d.self =
      s.tokens.balance token d.self + if token = config.collateralToken then 0 else 0 := by
    intro token
    rw [ite_self, add_zero]
    exact hbal token
  have hnonneg : 0 ≤ cdp'.collateralAmount := by
    rw [hsame]
    exact h.nonneg key cdp hcdp
  refine h.write key hconfig hcdps hconfigs hnonneg hmove ?_
  rw [hsame, recorded_eq hcdp, sub_self]

/-- A new asset has no positions. -/
theorem register (h : Backed d s) {asset : Symbol} {config : SyntheticConfig}
    (hnew : s.configs.lookup asset = none) :
    Backed d { s with configs := s.configs.insert asset config } := by
  have hother : ∀ key cdp, s.cdps.lookup key = some cdp → key.2 ≠ asset := by
    intro key cdp hcdp heq
    have hsome := h.registered key cdp hcdp
    rw [heq, hnew] at hsome
    cases hsome
  refine ⟨?_, h.nonneg, ?_⟩
  · intro key cdp hcdp
    show ((s.configs.insert asset config).lookup key.2).isSome
    rw [AList.lookup_insert_ne (hother key cdp hcdp)]
    exact h.registered key cdp hcdp
  · intro token
    have hsame : backing { s with configs := s.configs.insert asset config } token =
        backing s token := by
      refine Store.total_congr fun key cdp hcdp => ?_
      unfold claimOn collateralOf
      rw [AList.lookup_insert_ne (hother key cdp hcdp)]
    rw [hsame]
    exact h.covered token

end Backed

/-- A configuration is replaced by one with the same collateral token. -/
theorem collateralOf_insert {s s' : State} {asset : Symbol} {config config' : SyntheticConfig}
    (hconfig : s.configs.lookup asset = some config)
    (hconfigs : s'.configs = s.configs.insert asset config')
    (hsame : config'.collateralToken = config.collateralToken) (a : Symbol) :
    collateralOf s' a = collateralOf s a := by
  unfold collateralOf
  rw [hconfigs, Store.lookup_insert_eq]
  split
  · next heq => rw [heq, hconfig, Option.map_some, Option.map_some, hsame]
  · rfl

/-! ## What the calls move -/

section Moves

variable {env : Env} {L L' : Tokens} {token : Address}

/-- A signer pays the contract. -/
theorem balance_in {src : Address} {x : Int} (hne : src ≠ env.self)
    (h : Ledger.transfer i128Max L token src env.self x = some L') (t : Address) :
    L'.balance t env.self = L.balance t env.self + if t = token then x else 0 := by
  rw [Ledger.balance_transfer h, if_neg (fun h => hne h.2.symm)]
  by_cases ht : t = token
  · rw [if_pos ⟨ht, rfl⟩, if_pos ht]; omega
  · rw [if_neg (fun h => ht h.1), if_neg ht]; omega

/-- The contract pays someone else. -/
theorem balance_out {dst : Address} {x : Int} (hne : dst ≠ env.self)
    (h : Ledger.transfer i128Max L token env.self dst x = some L') (t : Address) :
    L'.balance t env.self = L.balance t env.self + if t = token then -x else 0 := by
  have hnot : ¬ (t = token ∧ env.self = dst) := fun h => hne h.2.symm
  rw [Ledger.balance_transfer h, if_neg hnot]
  by_cases ht : t = token
  · rw [if_pos ⟨ht, rfl⟩, if_pos ht]; omega
  · rw [if_neg (fun h => ht h.1), if_neg ht]; omega

/-- Someone else burns. -/
theorem balance_burn {holder : Address} {x : Int} (hne : holder ≠ env.self)
    (h : Ledger.burn L token holder x = some L') (t : Address) :
    L'.balance t env.self = L.balance t env.self := by
  unfold Ledger.burn at h
  split at h
  · cases h
    rw [Ledger.balance_setBalance, if_neg (fun h => hne h.2.symm)]
  · cases h

end Moves

/-! ## Every call -/

section Calls

variable {d : Deployment} {env : Env} {s s' : State} {owner : Address} {asset : Symbol}

theorem Backed.openCdp {amount : Int} (hv : env.Of d) (h : Backed d s)
    (hx : openCdp env s owner asset amount = .ok s') : Backed d s' := by
  simp only [Synthetic.openCdp, getConfig, bind_eq_ok, require_eq_ok, requireAuth_eq_ok,
    exists_unit_and, ofOption_eq_ok, tokens_transfer_eq_ok, pure_eq_ok] at hx
  obtain ⟨hsigned, hpos, config, hconfig, tokens, htransfer, rfl⟩ := hx
  have hold := h.recorded_nonneg (owner, asset)
  have hin := balance_in (hv.ne_self hsigned) htransfer
  rw [hv.1] at hin
  refine h.write (owner, asset) hconfig rfl (fun _ => rfl) hpos.le hin ?_
  -- what was recorded before is dropped
  show amount - recorded s (owner, asset) ≤ amount
  omega

theorem Backed.addCollateral {amount : Int} (hv : env.Of d) (h : Backed d s)
    (hx : addCollateral env s owner asset amount = .ok s') : Backed d s' := by
  simp only [Synthetic.addCollateral, getConfig, getCdp, bind_eq_ok, require_eq_ok,
    requireAuth_eq_ok, exists_unit_and, ofOption_eq_ok, tokens_transfer_eq_ok, pure_eq_ok] at hx
  obtain ⟨hsigned, hpos, config, hconfig, cdp, hcdp, tokens, htransfer, collateral, hadd, ratio, -,
    rfl⟩ := hx
  have hcoll := h.nonneg _ _ hcdp
  have hle := h.recorded_le (owner, asset) hconfig hcdp
  have hin := balance_in (hv.ne_self hsigned) htransfer
  -- the transfer shows that the sum fits
  have hroom := Ledger.transfer_le_cap htransfer
  rw [hin, if_pos rfl, hv.1] at hroom
  have hexact := i128_exact hadd (inI128_iff.mpr ⟨by omega, by omega⟩)
  have hnonneg : 0 ≤ collateral := by omega
  rw [hv.1] at hin
  refine h.write (owner, asset) hconfig rfl (fun _ => rfl) hnonneg hin ?_
  show collateral - recorded s (owner, asset) ≤ amount
  rw [recorded_eq hcdp]
  omega

theorem Backed.mint {amount n : Int} (hv : env.Of d) (h : Backed d s)
    (hx : mint env s owner asset amount = .ok (n, s')) : Backed d s' := by
  simp only [Synthetic.mint, mintSynthetic, getConfig, getCdp, bind_eq_ok, require_eq_ok,
    requireAuth_eq_ok, exists_unit_and, ofOption_eq_ok, pure_eq_ok] at hx
  obtain ⟨hsigned, -, config, hconfig, cdp, hcdp, newMinted, -, ratio, -, -, totalMinted, -, tokens,
    ⟨-, hmint⟩, heq⟩ := hx
  obtain ⟨rfl, rfl⟩ := Prod.mk.inj heq
  have hne := hv.ne_self hsigned
  refine h.redebt (owner, asset) hconfig hcdp rfl (collateralOf_insert hconfig rfl rfl) rfl ?_
  intro token
  have hbal := Ledger.balance_mint hmint token env.self
  rw [if_neg (fun h => hne h.2.symm), add_zero, hv.1] at hbal
  exact hbal

theorem Backed.burn {amount : Int} (hv : env.Of d) (h : Backed d s)
    (hx : burn env s owner asset amount = .ok s') : Backed d s' := by
  simp only [Synthetic.burn, Tokens.burn, getConfig, getCdp, bind_eq_ok, require_eq_ok,
    requireAuth_eq_ok, exists_unit_and, ofOption_eq_ok, pure_eq_ok] at hx
  obtain ⟨hsigned, -, config, hconfig, cdp, hcdp, -, tokens, hburn, mintedAmount, -, ratio, -,
    totalMinted, -, rfl⟩ := hx
  have hbal := balance_burn (hv.ne_self hsigned) hburn
  rw [hv.1] at hbal
  exact h.redebt (owner, asset) hconfig hcdp rfl (collateralOf_insert hconfig rfl rfl) rfl hbal

/-- The collateral leaves the records, and at most as much leaves the contract. -/
theorem Backed.liquidate {liquidator : Address} {n : Int} (hv : env.Of d) (h : Backed d s)
    (hx : liquidate env s liquidator owner asset = .ok (n, s')) : Backed d s' := by
  simp only [Synthetic.liquidate, seize, Tokens.burn, getConfig, getCdp, bind_eq_ok, require_eq_ok,
    requireAuth_eq_ok, exists_unit_and, ofOption_eq_ok, tokens_transfer_eq_ok, pure_eq_ok] at hx
  obtain ⟨hsigned, config, hconfig, cdp, hcdp, -, scaled, -, penalty, -, rest, -, totalMinted, -,
    burnt, hburn, tokens, htransfer, heq⟩ := hx
  obtain ⟨rfl, rfl⟩ := Prod.mk.inj heq
  have hne := hv.ne_self hsigned
  have hbal : ∀ token, tokens.balance token env.self = s.tokens.balance token env.self +
      if token = config.collateralToken then -min cdp.collateralAmount rest else 0 := by
    intro token
    rw [balance_out hne htransfer, balance_burn hne hburn]
    rfl
  rw [hv.1] at hbal
  refine h.write (owner, asset) hconfig rfl (collateralOf_insert hconfig rfl rfl)
    (le_refl 0) hbal ?_
  show 0 - recorded s (owner, asset) ≤ -min cdp.collateralAmount rest
  have hseized := min_le_left cdp.collateralAmount rest
  rw [recorded_eq hcdp]
  omega

theorem Backed.closeCdp {n : Int} (hv : env.Of d) (h : Backed d s)
    (hx : closeCdp env s owner asset = .ok (n, s')) : Backed d s' := by
  simp only [Synthetic.closeCdp, getConfig, getCdp, bind_eq_ok, require_eq_ok, requireAuth_eq_ok,
    exists_unit_and, ofOption_eq_ok, tokens_transfer_eq_ok, pure_eq_ok] at hx
  obtain ⟨hsigned, config, hconfig, cdp, hcdp, -, tokens, htransfer, heq⟩ := hx
  obtain ⟨rfl, rfl⟩ := Prod.mk.inj heq
  have hout := balance_out (hv.ne_self hsigned) htransfer
  rw [hv.1] at hout
  refine h.write (owner, asset) hconfig rfl (fun _ => rfl) (le_refl 0) hout ?_
  show 0 - recorded s (owner, asset) ≤ -cdp.collateralAmount
  rw [recorded_eq hcdp]
  omega

end Calls

theorem backed_step {d : Deployment} {env : Env} {call : Call} {r : Reply} {s s' : State}
    (h : Backed d s) (hv : (machine d).valid env call)
    (hx : (machine d).exec env call s = .ok (r, s'))
    (hnew : RegistersNew ⟨env, call, r, s, s'⟩) : Backed d s' := by
  cases call with
  | initContract admin =>
    obtain rfl := initContract_ok (done_ok.mp hx).1
    exact h.keep rfl (fun _ => rfl) fun _ => le_refl _
  | registerAsset caller asset minCratio liqCratio liqPenalty fee collateralToken syntheticToken =>
    obtain rfl := registerAsset_ok (done_ok.mp hx).1
    exact h.register hnew
  | updatePrice caller asset newPrice =>
    obtain ⟨config, hconfig, rfl⟩ := updatePrice_ok (done_ok.mp hx).1
    exact h.keep rfl (collateralOf_insert hconfig rfl rfl) fun _ => le_refl _
  | openCdp owner asset amount => exact h.openCdp hv.1 (done_ok.mp hx).1
  | mint owner asset amount =>
    obtain ⟨n, hcall, -⟩ := replyAmount_ok hx
    exact h.mint hv.1 hcall
  | burn owner asset amount => exact h.burn hv.1 (done_ok.mp hx).1
  | addCollateral owner asset amount => exact h.addCollateral hv.1 (done_ok.mp hx).1
  | liquidate liquidator owner asset =>
    obtain ⟨n, hcall, -⟩ := replyAmount_ok hx
    exact h.liquidate hv.1 hcall
  | closeCdp owner asset =>
    obtain ⟨n, hcall, -⟩ := replyAmount_ok hx
    exact h.closeCdp hv.1 hcall
  | token c =>
    obtain ⟨hcall, -⟩ := done_ok.mp hx
    simp only [bind_eq_ok, pure_eq_ok] at hcall
    obtain ⟨tokens, htokens, rfl⟩ := hcall
    refine h.keep rfl (fun _ => rfl) fun token => ?_
    rw [← hv.1.1]
    exact tokenCall_self hv.1 htokens token
  | administer token =>
    cases hx
    exact h.keep rfl (fun _ => rfl) fun _ => le_refl _

theorem backed_run {d : Deployment} {tr : Trace} {s : State} (h : Run (machine d) tr s)
    (hnew : ∀ e ∈ tr, RegistersNew e) : Backed d s := by
  induction h with
  | start hinit =>
    obtain ⟨-, -, hcdps⟩ := hinit
    refine ⟨?_, ?_, ?_⟩
    · intro key cdp hcdp
      rw [hcdps] at hcdp
      cases hcdp
    · intro key cdp hcdp
      rw [hcdps] at hcdp
      cases hcdp
    · intro token
      unfold backing
      rw [hcdps]
      exact Ledger.balance_nonneg _ _ _
  | commit h hv _ hx ih =>
    rw [List.forall_mem_cons] at hnew
    exact backed_step (ih hnew.2) hv hx hnew.1

/-- An owner without debt gets all of its collateral back, unless it holds so much of the token
already that the token refuses. -/
theorem Backed.close_pays {d : Deployment} {env : Env} {s : State} {owner : Address}
    {asset : Symbol} {cdp : CDP} (h : Backed d s) (hv : env.Of d) (hsigned : owner ∈ env.signers)
    (hcdp : s.cdps.lookup (owner, asset) = some cdp) (hdebt : cdp.mintedAmount ≤ 0) :
    ∃ config, s.configs.lookup asset = some config ∧
      (s.tokens.balance config.collateralToken owner + cdp.collateralAmount ≤ i128Max →
        ∃ s', Synthetic.closeCdp env s owner asset = .ok (cdp.collateralAmount, s') ∧
          s'.tokens.balance config.collateralToken owner =
            s.tokens.balance config.collateralToken owner + cdp.collateralAmount) := by
  obtain ⟨config, hconfig⟩ := Option.isSome_iff_exists.mp (h.registered _ _ hcdp)
  refine ⟨config, hconfig, fun hroom => ?_⟩
  have hne := hv.ne_self hsigned
  have hle := h.recorded_le (owner, asset) hconfig hcdp
  rw [← hv.1] at hle
  obtain ⟨tokens, htransfer⟩ := Option.isSome_iff_exists.mp
    (Ledger.transfer_isSome (h.nonneg _ _ hcdp) hle hne hroom)
  refine ⟨setCdp { s with tokens } owner asset { cdp with isActive := false, collateralAmount := 0 },
    ?_, ?_⟩
  · simp only [Synthetic.closeCdp, getConfig, getCdp, bind_eq_ok, require_eq_ok, requireAuth_eq_ok,
      exists_unit_and, ofOption_eq_ok, tokens_transfer_eq_ok, pure_eq_ok]
    exact ⟨hsigned, config, hconfig, cdp, hcdp, hdebt, tokens, htransfer, rfl⟩
  · have hbal := Ledger.balance_transfer htransfer config.collateralToken owner
    rw [if_neg (fun h => hne h.2), if_pos ⟨rfl, rfl⟩, sub_zero] at hbal
    exact hbal

/-- **Collateral solvency.**  In every state that is reached without registering an asset twice,
the contract holds of every token at least the sum of the collateral of all CDPs of the assets
that use it; and whoever has a CDP without debt can close it and gets the whole collateral, if
the token takes it. -/
theorem collateral_solvent {d : Deployment} {tr : Trace} {s : State} (h : Run (machine d) tr s)
    (hnew : ∀ e ∈ tr, RegistersNew e) :
    (∀ token, backing s token ≤ s.tokens.balance token d.self) ∧
    ∀ env owner asset cdp, env.Of d → owner ∈ env.signers →
      s.cdps.lookup (owner, asset) = some cdp → cdp.mintedAmount ≤ 0 →
      ∃ config, s.configs.lookup asset = some config ∧
        (s.tokens.balance config.collateralToken owner + cdp.collateralAmount ≤ i128Max →
          ∃ s', Synthetic.closeCdp env s owner asset = .ok (cdp.collateralAmount, s') ∧
            s'.tokens.balance config.collateralToken owner =
              s.tokens.balance config.collateralToken owner + cdp.collateralAmount) := by
  have hbacked := backed_run h hnew
  exact ⟨hbacked.covered, fun env owner asset cdp hv hsigned hcdp hdebt =>
    hbacked.close_pays hv hsigned hcdp hdebt⟩

/-- User 1 has 1500 of token 10 in sUSD; user 3 puts 300 of it into sEUR, and when this is
recorded another 200 by opening again. -/
def sharedCollateral : List (Env × Call) :=
  openPosition ++ [(callAt 6 [9], .registerAsset 9 "sEUR" 15000 12000 1300 50 10 21),
    (callAt 7 [], .token (.mint 10 3 500)), (callAt 7 [3], .openCdp 3 "sEUR" 300),
    (callAt 8 [3], .openCdp 3 "sEUR" 200)]

/-- The 200 are paid back; they and the 1500 are backed by 2000. -/
theorem collateral_solvent_shared :
    ∃ (tr : Trace) (s s' : State), Run (machine ⟨0, true⟩) tr s ∧ backing s 10 = 1700 ∧
      s.tokens.balance 10 0 = 2000 ∧ backing s 10 ≤ s.tokens.balance 10 0 ∧
      closeCdp (callAt 9 [3]) s 3 "sEUR" = .ok (200, s') := by
  have hinit : (machine ⟨0, true⟩).init fresh := ⟨rfl, rfl, rfl⟩
  obtain ⟨tr, s, hrun, hok⟩ := Machine.exists_run_of_replay hinit sharedCollateral
    (fun tr s => (tr.all fun e => decide (RegistersNew e)) ∧ backing s 10 = 1700 ∧
      s.tokens.balance 10 0 = 2000 ∧ s.cdps.lookup (3, "sEUR") = some ⟨3, 200, 0, 0, true⟩ ∧
      (s.configs.lookup "sEUR").map (·.collateralToken) = some 10 ∧ s.tokens.balance 10 3 = 0)
    (by decide) (by decide) (by decide)
  obtain ⟨hall, hbacking, hbalance, hcdp, htoken, hroom⟩ := of_decide_eq_true hok
  obtain ⟨hcovered, hclose⟩ := collateral_solvent hrun fun e he =>
    of_decide_eq_true (List.all_eq_true.mp hall e he)
  obtain ⟨config, hconfig, hpays⟩ :=
    hclose (callAt 9 [3]) 3 "sEUR" _ (by decide) (by decide) hcdp (by decide)
  rw [hconfig, Option.map_some, Option.some.injEq] at htoken
  rw [htoken, hroom] at hpays
  obtain ⟨s', hx, -⟩ := hpays (by decide)
  exact ⟨tr, s, s', hrun, hbacking, hbalance, hcovered 10, hx⟩

end Stellara.Synthetic
