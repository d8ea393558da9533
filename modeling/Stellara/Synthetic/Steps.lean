import Stellara.Synthetic.Model

/-!
# What a committed call of the synthetic-assets contract shows

One lemma for each operation: the guards it passed, the values it computed and the state
it left.  Every proof about the contract starts from these and never unfolds an operation.
-/

namespace Stellara.Synthetic

open Outcome

variable {env : Env} {s s' : State} {owner : Address} {asset : Symbol}

theorem done_ok {x : Result State} {r : Reply} :
    done x = .ok (r, s') ↔ x = .ok s' ∧ r = .done := answer_eq_ok

theorem replyAmount_ok {x : Result (Int × State)} {r : Reply} (h : replyAmount x = .ok (r, s')) :
    ∃ n, x = .ok (n, s') ∧ r = .amount n := answerWith_eq_ok.mp h

theorem initContract_ok {admin : Address} (h : initContract s admin = .ok s') :
    s' = { s with admin := some admin } := by
  simp only [initContract, bind_eq_ok, require_eq_ok, exists_unit_and, pure_eq_ok] at h
  exact h.2.symm

theorem registerAsset_ok {caller collateralToken syntheticToken : Address}
    {minCratio liqCratio liqPenalty stabilityFeeBps : Int}
    (h : registerAsset env s caller asset minCratio liqCratio liqPenalty stabilityFeeBps
      collateralToken syntheticToken = .ok s') :
    s' = { s with
      configs := s.configs.insert asset ⟨0, minCratio, liqCratio, liqPenalty, stabilityFeeBps, 0,
        true, collateralToken, syntheticToken⟩ } := by
  simp only [registerAsset, bind_eq_ok, exists_unit_and, pure_eq_ok] at h
  exact h.2.2.symm

theorem updatePrice_ok {caller : Address} {newPrice : Int}
    (h : updatePrice env s caller asset newPrice = .ok s') :
    ∃ config, s.configs.lookup asset = some config ∧
      s' = { s with configs := s.configs.insert asset { config with oraclePrice := newPrice } } := by
  simp only [updatePrice, getConfig, bind_eq_ok, exists_unit_and, ofOption_eq_ok, pure_eq_ok] at h
  obtain ⟨-, -, config, hconfig, rfl⟩ := h
  exact ⟨config, hconfig, rfl⟩

theorem openCdp_ok {amount : Int} (h : openCdp env s owner asset amount = .ok s') :
    ∃ tokens, 0 < amount ∧ s' = { s with
      cdps := s.cdps.insert (owner, asset) ⟨owner, amount, 0, 0, true⟩
      tokens } := by
  simp only [openCdp, getConfig, bind_eq_ok, require_eq_ok, requireAuth_eq_ok, exists_unit_and,
    ofOption_eq_ok, pure_eq_ok] at h
  obtain ⟨-, hpos, _, -, tokens, -, rfl⟩ := h
  exact ⟨tokens, hpos, rfl⟩

theorem mint_ok {amount newMinted : Int}
    (h : mint env s owner asset amount = .ok (newMinted, s')) :
    ∃ config cdp ratio totalMinted tokens, 0 < amount ∧
      s.configs.lookup asset = some config ∧ s.cdps.lookup (owner, asset) = some cdp ∧
      (env.i128 (cdp.mintedAmount + amount) : Result Int) = .ok newMinted ∧
      cratio env.toDeployment cdp.collateralAmount config.oraclePrice newMinted = .ok ratio ∧
      (env.i128 (config.totalMinted + amount) : Result Int) = .ok totalMinted ∧
      s' = { s with
        cdps := s.cdps.insert (owner, asset)
          { cdp with mintedAmount := newMinted, collateralRatio := ratio }
        configs := s.configs.insert asset { config with totalMinted }
        tokens } := by
  simp only [mint, getConfig, getCdp, bind_eq_ok, require_eq_ok, requireAuth_eq_ok,
    exists_unit_and, ofOption_eq_ok, pure_eq_ok] at h
  obtain ⟨-, hpos, config, hconfig, cdp, hcdp, n, hn, ratio, hratio, -, totalMinted, htotal,
    tokens, -, heq⟩ := h
  obtain ⟨rfl, rfl⟩ := Prod.mk.inj heq
  exact ⟨config, cdp, ratio, totalMinted, tokens, hpos, hconfig, hcdp, hn, hratio, htotal, rfl⟩

theorem burn_ok {amount : Int} (h : burn env s owner asset amount = .ok s') :
    ∃ config cdp mintedAmount ratio totalMinted tokens, 0 < amount ∧
      s.configs.lookup asset = some config ∧ s.cdps.lookup (owner, asset) = some cdp ∧
      amount ≤ cdp.mintedAmount ∧
      (env.i128 (cdp.mintedAmount - amount) : Result Int) = .ok mintedAmount ∧
      ratioAfterBurn env.toDeployment cdp.collateralAmount config.oraclePrice mintedAmount =
        .ok ratio ∧
      (env.i128 (config.totalMinted - amount) : Result Int) = .ok totalMinted ∧
      s' = { s with
        cdps := s.cdps.insert (owner, asset) { cdp with mintedAmount, collateralRatio := ratio }
        configs := s.configs.insert asset { config with totalMinted }
        tokens } := by
  simp only [burn, getConfig, getCdp, bind_eq_ok, require_eq_ok, requireAuth_eq_ok,
    exists_unit_and, ofOption_eq_ok, pure_eq_ok] at h
  obtain ⟨-, hpos, config, hconfig, cdp, hcdp, hle, tokens, -, n, hn, ratio, hratio, totalMinted,
    htotal, rfl⟩ := h
  exact ⟨config, cdp, n, ratio, totalMinted, tokens, hpos, hconfig, hcdp, hle, hn, hratio, htotal,
    rfl⟩

theorem addCollateral_ok {amount : Int} (h : addCollateral env s owner asset amount = .ok s') :
    ∃ config cdp collateralAmount ratio tokens, 0 < amount ∧
      s.configs.lookup asset = some config ∧ s.cdps.lookup (owner, asset) = some cdp ∧
      (env.i128 (cdp.collateralAmount + amount) : Result Int) = .ok collateralAmount ∧
      ratioAfterAdd env.toDeployment cdp collateralAmount config.oraclePrice = .ok ratio ∧
      s' = { s with
        cdps := s.cdps.insert (owner, asset) { cdp with collateralAmount, collateralRatio := ratio }
        tokens } := by
  simp only [addCollateral, getConfig, getCdp, bind_eq_ok, require_eq_ok, requireAuth_eq_ok,
    exists_unit_and, ofOption_eq_ok, pure_eq_ok] at h
  obtain ⟨-, hpos, config, hconfig, cdp, hcdp, tokens, -, n, hn, ratio, hratio, rfl⟩ := h
  exact ⟨config, cdp, n, ratio, tokens, hpos, hconfig, hcdp, hn, hratio, rfl⟩

theorem liquidate_ok_iff {liquidator : Address} {config : SyntheticConfig} {cdp : CDP}
    (hconfig : s.configs.lookup asset = some config) (hcdp : s.cdps.lookup (owner, asset) = some cdp)
    {r : Int × State} :
    liquidate env s liquidator owner asset = .ok r ↔
      liquidator ∈ env.signers ∧ cdp.collateralRatio < config.liqCratio ∧
        seize env s liquidator owner asset config cdp = .ok r := by
  simp [liquidate, getConfig, getCdp, hconfig, hcdp]

theorem liquidate_ok {liquidator : Address} {seized : Int}
    (h : liquidate env s liquidator owner asset = .ok (seized, s')) :
    ∃ config cdp totalMinted tokens, s.configs.lookup asset = some config ∧
      s.cdps.lookup (owner, asset) = some cdp ∧
      (env.i128 (config.totalMinted - cdp.mintedAmount) : Result Int) = .ok totalMinted ∧
      s' = { s with
        cdps := s.cdps.insert (owner, asset)
          { cdp with isActive := false, mintedAmount := 0, collateralAmount := 0 }
        configs := s.configs.insert asset { config with totalMinted }
        tokens } := by
  simp only [liquidate, seize, getConfig, getCdp, bind_eq_ok, require_eq_ok, requireAuth_eq_ok,
    exists_unit_and, ofOption_eq_ok, pure_eq_ok] at h
  obtain ⟨-, config, hconfig, cdp, hcdp, -, _, -, _, -, _, -, totalMinted, htotal, _, -, tokens, -,
    heq⟩ := h
  obtain ⟨rfl, rfl⟩ := Prod.mk.inj heq
  exact ⟨config, cdp, totalMinted, tokens, hconfig, hcdp, htotal, rfl⟩

theorem closeCdp_ok {returned : Int} (h : closeCdp env s owner asset = .ok (returned, s')) :
    ∃ cdp tokens, s.cdps.lookup (owner, asset) = some cdp ∧ cdp.mintedAmount ≤ 0 ∧
      s' = { s with
        cdps := s.cdps.insert (owner, asset) { cdp with isActive := false, collateralAmount := 0 }
        tokens } := by
  simp only [closeCdp, getConfig, getCdp, bind_eq_ok, require_eq_ok, requireAuth_eq_ok,
    exists_unit_and, ofOption_eq_ok, pure_eq_ok] at h
  obtain ⟨-, _, -, cdp, hcdp, hle, tokens, -, heq⟩ := h
  obtain ⟨rfl, rfl⟩ := Prod.mk.inj heq
  exact ⟨cdp, tokens, hcdp, hle, rfl⟩

theorem token_ok {c : TokenCall}
    (h : (do pure { s with tokens := ← c.exec env s.tokens } : Result State) = .ok s') :
    ∃ tokens, s' = { s with tokens } := by
  simp only [bind_eq_ok, pure_eq_ok] at h
  obtain ⟨tokens, -, rfl⟩ := h
  exact ⟨tokens, rfl⟩

end Stellara.Synthetic
