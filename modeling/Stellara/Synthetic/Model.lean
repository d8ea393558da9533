import Stellara.Host

/-!
# Synthetic assets (`contracts/synthetic-assets/src/lib.rs`)

An asset has a configuration with its oracle price and the debt minted in it; a user has
one collateralised debt position (CDP) for each asset.  The contract mints the synthetic
token of an asset, so it has to be the token's administrator.

The views `get_cdp` and `get_config` read one entry; they are left out.
-/

namespace Stellara.Synthetic

open Outcome

inductive Error
  | alreadyInitialized
  | notInitialized
  | unauthorized
  | invalidAmount
  | insufficientCollateral
  | belowMinCratio
  | cdpNotFound
  | notLiquidatable
  | assetNotFound
deriving DecidableEq, Repr

structure CDP where
  owner : Address
  /-- in base units -/
  collateralAmount : Int
  /-- synthetic tokens minted -/
  mintedAmount : Int
  /-- scaled by 10000 (15000 = 150%) -/
  collateralRatio : Int
  isActive : Bool
deriving DecidableEq, Repr

structure SyntheticConfig where
  /-- price scaled by 1_000_000 -/
  oraclePrice : Int
  /-- scaled by 10000 (15000 = 150%) -/
  minCratio : Int
  /-- scaled by 10000 (12000 = 120%) -/
  liqCratio : Int
  /-- scaled by 10000 (1300 = 13%) -/
  liqPenalty : Int
  /-- annual fee in bps (200 = 2%) -/
  stabilityFeeBps : Int
  totalMinted : Int
  isActive : Bool
  /-- token accepted as collateral -/
  collateralToken : Address
  /-- token minted and burned for synthetic debt -/
  syntheticToken : Address
deriving DecidableEq, Repr

structure State where
  /-- `admin` -/
  admin : Option Address := none
  /-- the asset symbols -/
  configs : Store Symbol SyntheticConfig := ∅
  /-- `cdp_key` -/
  cdps : Store (Address × Symbol) CDP := ∅
  /-- the token contracts -/
  tokens : Tokens
  /-- the tokens that the contract administers -/
  administered : List Address

abbrev Result (α : Type) : Type := Except (Fault Error) α

/-! ## Helpers -/

def requireAdmin (s : State) (caller : Address) : Result Unit := do
  let admin ← ofOption s.admin (.err .notInitialized)
  require (admin = caller) (.err .unauthorized)

def getConfig (s : State) (assetSymbol : Symbol) : Result SyntheticConfig :=
  ofOption (s.configs.lookup assetSymbol) (.err .assetNotFound)

def getCdp (s : State) (owner : Address) (assetSymbol : Symbol) : Result CDP :=
  ofOption (s.cdps.lookup (owner, assetSymbol)) (.err .cdpNotFound)

def setCdp (s : State) (owner : Address) (assetSymbol : Symbol) (cdp : CDP) : State :=
  { s with cdps := s.cdps.insert (owner, assetSymbol) cdp }

def setConfig (s : State) (assetSymbol : Symbol) (config : SyntheticConfig) : State :=
  { s with configs := s.configs.insert assetSymbol config }

/-- `collateral * 1_000_000 / price * 10000 / minted`. -/
def cratio (d : Deployment) (collateral price minted : Int) : Result Int := do
  let scaled ← d.i128 (collateral * 1000000)
  let collateralUsd ← divI128 scaled price
  let scaled ← d.i128 (collateralUsd * 10000)
  divI128 scaled minted

/-- `StellarAssetClient::mint`. -/
def mintSynthetic (s : State) (token dst : Address) (amount : Int) : Result Tokens := do
  require (token ∈ s.administered) (.panic "mint not authorised")
  ofOption (Ledger.mint i128Max s.tokens token dst amount) (.panic "mint failed")

/-! ## Administration -/

/-- `initialize`; nobody has to sign. -/
def initContract (s : State) (admin : Address) : Result State := do
  require (s.admin = none) (.err .alreadyInitialized)
  pure { s with admin := some admin }

/-- Also a symbol that is registered already gets a new configuration. -/
def registerAsset (env : Env) (s : State) (caller : Address) (assetSymbol : Symbol)
    (minCratio liqCratio liqPenalty stabilityFeeBps : Int)
    (collateralToken syntheticToken : Address) : Result State := do
  env.requireAuth caller
  requireAdmin s caller
  pure (setConfig s assetSymbol
    { oraclePrice := 0, minCratio, liqCratio, liqPenalty, stabilityFeeBps, totalMinted := 0
      isActive := true, collateralToken, syntheticToken })

def updatePrice (env : Env) (s : State) (caller : Address) (assetSymbol : Symbol) (newPrice : Int) :
    Result State := do
  env.requireAuth caller
  requireAdmin s caller
  let config ← getConfig s assetSymbol
  pure (setConfig s assetSymbol { config with oraclePrice := newPrice })

/-! ## Positions -/

/-- Also an owner with a position in the asset gets a new one. -/
def openCdp (env : Env) (s : State) (owner : Address) (assetSymbol : Symbol)
    (collateralAmount : Int) : Result State := do
  env.requireAuth owner
  require (0 < collateralAmount) (.err .invalidAmount)
  let config ← getConfig s assetSymbol
  let tokens ← s.tokens.transfer config.collateralToken owner env.self collateralAmount
  pure (setCdp { s with tokens } owner assetSymbol
    { owner, collateralAmount, mintedAmount := 0, collateralRatio := 0, isActive := true })

def mint (env : Env) (s : State) (owner : Address) (assetSymbol : Symbol) (mintAmount : Int) :
    Result (Int × State) := do
  env.requireAuth owner
  require (0 < mintAmount) (.err .invalidAmount)
  let config ← getConfig s assetSymbol
  let cdp ← getCdp s owner assetSymbol
  let newMinted ← env.i128 (cdp.mintedAmount + mintAmount)
  let ratio ← cratio env.toDeployment cdp.collateralAmount config.oraclePrice newMinted
  require (config.minCratio ≤ ratio) (.err .belowMinCratio)
  let totalMinted ← env.i128 (config.totalMinted + mintAmount)
  let s := setCdp s owner assetSymbol { cdp with mintedAmount := newMinted, collateralRatio := ratio }
  let s := setConfig s assetSymbol { config with totalMinted }
  let tokens ← mintSynthetic s config.syntheticToken owner mintAmount
  pure (newMinted, { s with tokens })

/-- The ratio that `burn` records: `i128::MAX` without debt. -/
def ratioAfterBurn (d : Deployment) (collateral price minted : Int) : Result Int :=
  if 0 < minted then cratio d collateral price minted else .ok i128Max

def burn (env : Env) (s : State) (owner : Address) (assetSymbol : Symbol) (burnAmount : Int) :
    Result State := do
  env.requireAuth owner
  require (0 < burnAmount) (.err .invalidAmount)
  let config ← getConfig s assetSymbol
  let cdp ← getCdp s owner assetSymbol
  require (burnAmount ≤ cdp.mintedAmount) (.err .invalidAmount)
  let tokens ← s.tokens.burn config.syntheticToken owner burnAmount
  let mintedAmount ← env.i128 (cdp.mintedAmount - burnAmount)
  let collateralRatio ← ratioAfterBurn env.toDeployment cdp.collateralAmount config.oraclePrice
    mintedAmount
  let totalMinted ← env.i128 (config.totalMinted - burnAmount)
  let s := setCdp { s with tokens } owner assetSymbol { cdp with mintedAmount, collateralRatio }
  pure (setConfig s assetSymbol { config with totalMinted })

/-- The ratio that `add_collateral` records: the old one without debt. -/
def ratioAfterAdd (d : Deployment) (cdp : CDP) (collateral price : Int) : Result Int :=
  if 0 < cdp.mintedAmount then cratio d collateral price cdp.mintedAmount
  else .ok cdp.collateralRatio

def addCollateral (env : Env) (s : State) (owner : Address) (assetSymbol : Symbol) (amount : Int) :
    Result State := do
  env.requireAuth owner
  require (0 < amount) (.err .invalidAmount)
  let config ← getConfig s assetSymbol
  let cdp ← getCdp s owner assetSymbol
  let tokens ← s.tokens.transfer config.collateralToken owner env.self amount
  let collateralAmount ← env.i128 (cdp.collateralAmount + amount)
  let collateralRatio ← ratioAfterAdd env.toDeployment cdp collateralAmount config.oraclePrice
  pure (setCdp { s with tokens } owner assetSymbol { cdp with collateralAmount, collateralRatio })

/-- What `liquidate` does once the position may be liquidated: the debt is written off, the
liquidator burns as much of the synthetic token and gets the collateral less the penalty. -/
def seize (env : Env) (s : State) (liquidator cdpOwner : Address) (assetSymbol : Symbol)
    (config : SyntheticConfig) (cdp : CDP) : Result (Int × State) := do
  let scaled ← env.i128 (cdp.collateralAmount * config.liqPenalty)
  let penaltyCollateral ← divI128 scaled 10000
  let rest ← env.i128 (cdp.collateralAmount - penaltyCollateral)
  let seized := min cdp.collateralAmount rest
  let debt := cdp.mintedAmount
  let totalMinted ← env.i128 (config.totalMinted - debt)
  let s := setCdp s cdpOwner assetSymbol
    { cdp with isActive := false, mintedAmount := 0, collateralAmount := 0 }
  let s := setConfig s assetSymbol { config with totalMinted }
  let tokens ← s.tokens.burn config.syntheticToken liquidator debt
  let tokens ← tokens.transfer config.collateralToken env.self liquidator seized
  pure (seized, { s with tokens })

/-- The stored ratio is compared, whatever the price is now. -/
def liquidate (env : Env) (s : State) (liquidator cdpOwner : Address) (assetSymbol : Symbol) :
    Result (Int × State) := do
  env.requireAuth liquidator
  let config ← getConfig s assetSymbol
  let cdp ← getCdp s cdpOwner assetSymbol
  require (cdp.collateralRatio < config.liqCratio) (.err .notLiquidatable)
  seize env s liquidator cdpOwner assetSymbol config cdp

def closeCdp (env : Env) (s : State) (owner : Address) (assetSymbol : Symbol) :
    Result (Int × State) := do
  env.requireAuth owner
  let config ← getConfig s assetSymbol
  let cdp ← getCdp s owner assetSymbol
  require (cdp.mintedAmount ≤ 0) (.err .insufficientCollateral)
  let returned := cdp.collateralAmount
  let s := setCdp s owner assetSymbol { cdp with isActive := false, collateralAmount := 0 }
  let tokens ← s.tokens.transfer config.collateralToken env.self owner returned
  pure (returned, { s with tokens })

/-! ## The contract as a machine -/

inductive Call
  | initContract (admin : Address)
  | registerAsset (caller : Address) (assetSymbol : Symbol)
      (minCratio liqCratio liqPenalty stabilityFeeBps : Int)
      (collateralToken syntheticToken : Address)
  | updatePrice (caller : Address) (assetSymbol : Symbol) (newPrice : Int)
  | openCdp (owner : Address) (assetSymbol : Symbol) (collateralAmount : Int)
  | mint (owner : Address) (assetSymbol : Symbol) (mintAmount : Int)
  | burn (owner : Address) (assetSymbol : Symbol) (burnAmount : Int)
  | addCollateral (owner : Address) (assetSymbol : Symbol) (amount : Int)
  | liquidate (liquidator cdpOwner : Address) (assetSymbol : Symbol)
  | closeCdp (owner : Address) (assetSymbol : Symbol)
  /-- a call of a token contract that does not go through this one -/
  | token (c : TokenCall)
  /-- the contract is made the administrator of a token -/
  | administer (token : Address)
deriving DecidableEq, Repr

inductive Reply
  | done
  | amount (x : Int)
deriving DecidableEq, Repr

def done (x : Result State) : Result (Reply × State) := do pure (.done, ← x)

def replyAmount (x : Result (Int × State)) : Result (Reply × State) := do
  let (n, s) ← x
  pure (.amount n, s)

def exec (env : Env) : Call → State → Result (Reply × State)
  | .initContract admin, s => done (initContract s admin)
  | .registerAsset caller assetSymbol minCratio liqCratio liqPenalty stabilityFeeBps
      collateralToken syntheticToken, s =>
    done (registerAsset env s caller assetSymbol minCratio liqCratio liqPenalty stabilityFeeBps
      collateralToken syntheticToken)
  | .updatePrice caller assetSymbol newPrice, s => done (updatePrice env s caller assetSymbol newPrice)
  | .openCdp owner assetSymbol collateralAmount, s =>
    done (openCdp env s owner assetSymbol collateralAmount)
  | .mint owner assetSymbol mintAmount, s => replyAmount (mint env s owner assetSymbol mintAmount)
  | .burn owner assetSymbol burnAmount, s => done (burn env s owner assetSymbol burnAmount)
  | .addCollateral owner assetSymbol amount, s => done (addCollateral env s owner assetSymbol amount)
  | .liquidate liquidator cdpOwner assetSymbol, s =>
    replyAmount (liquidate env s liquidator cdpOwner assetSymbol)
  | .closeCdp owner assetSymbol, s => replyAmount (closeCdp env s owner assetSymbol)
  | .token c, s => done do pure { s with tokens := ← c.exec env s.tokens }
  | .administer token, s => .ok (.done, { s with administered := token :: s.administered })

/-- The amounts, ratios and prices are values of type `i128`. -/
def Call.InRange : Call → Prop
  | .registerAsset _ _ minCratio liqCratio liqPenalty _ _ _ =>
    InI128 minCratio ∧ InI128 liqCratio ∧ InI128 liqPenalty
  | .updatePrice _ _ newPrice => InI128 newPrice
  | .openCdp _ _ amount | .mint _ _ amount | .burn _ _ amount | .addCollateral _ _ amount =>
    InI128 amount
  | _ => True

instance (call : Call) : Decidable call.InRange :=
  match call with
  | .registerAsset _ _ _ _ _ _ _ _ => inferInstanceAs (Decidable (InI128 _ ∧ InI128 _ ∧ InI128 _))
  | .updatePrice _ _ _ | .openCdp _ _ _ | .mint _ _ _ | .burn _ _ _ | .addCollateral _ _ _ =>
    inferInstanceAs (Decidable (InI128 _))
  | .initContract _ | .liquidate _ _ _ | .closeCdp _ _ | .token _ | .administer _ =>
    inferInstanceAs (Decidable True)

/-- Runs start with a freshly deployed contract, any token balances and any tokens that the
contract administers. -/
def machine (d : Deployment) : Machine Env Call Reply (Fault Error) State where
  init s := s.admin = none ∧ s.configs = ∅ ∧ s.cdps = ∅
  valid env call := env.Of d ∧ call.InRange
  clock env := env.timestamp
  exec env call s := exec env call s

/-- The calls of a run, newest first. -/
abbrev Trace : Type := List (Event Env Call Reply State)

instance (d : Deployment) (env : Env) (call : Call) : Decidable ((machine d).valid env call) :=
  inferInstanceAs (Decidable (_ ∧ _))

end Stellara.Synthetic
