/-
**The settings of the trading service, canary routing and the live guards.**

The settings are read from the environment of the process; here they are a record.  The canary
router decides at which venue an order for `ostium` is opened, and the live guards are the policy
checks in front of an order in live mode: each of them returns, or raises the error it is named
after.

Main definitions:

* `TradingConfig` — the settings;
* `TradingConfig.resolveEffectiveVenue` — the canary routing of an open;
* `TradingConfig.assertLiveTradingEnabled`, `TradingConfig.assertOrderCapsOk`,
  `TradingConfig.assertSymbolAllowed`, `TradingConfig.assertRiskLimitsOk` — the guards.

Main results:

* `TradingConfig.assertOrderCapsOk_eq_ok`, `TradingConfig.assertSymbolAllowed_eq_ok`,
  `TradingConfig.assertRiskLimitsOk_eq_ok` — what a guard that returns has checked;
* `TradingConfig.resolveEffectiveVenue_of_ne` — the router leaves every other venue alone.
-/

import Brokerage.Domain
import Brokerage.Text

set_option relaxedAutoImplicit false
set_option autoImplicit false

/-! ### Errors -/

/-- The limit named by a `RiskLimitExceededError`. -/
inductive RiskLimit
  /-- `MAX_OPEN_POSITIONS limit ({limit}) would be exceeded (current: {current}).` -/
  | maxOpenPositions (limit current : ℕ)
  /-- `Requested notional {requested} exceeds MAX_NOTIONAL_USDC ({limit}).` -/
  | maxNotionalUsdc (requested limit : ℚ)
  /-- `Collateral {collateral} USDC exceeds MAX_COLLATERAL_USD ({limit}).` -/
  | maxCollateralUsd (collateral limit : ℚ)
  /-- `Leverage {leverage}x exceeds MAX_LEVERAGE ({limit}x).` -/
  | maxLeverage (leverage limit : ℚ)
  /-- `Symbol '{symbol}' not in LIVE_SYMBOL_ALLOWLIST ({allowlist}).` -/
  | symbolNotAllowed (symbol : String) (allowlist : List String)
  deriving DecidableEq

/-- The reason given by a `VenueAPIError` of the Ostium adapter. -/
inductive VenueApiReason
  /-- `OstiumExecutionAdapter: client no inicialitzat (crida start())` -/
  | clientNotStarted
  /-- `Ostium: no s'ha pogut obtenir preu per {symbol}: {text}` -/
  | noPrice (symbol text : String)
  /-- `Ostium: preu invàlid per {symbol}: {mid}` -/
  | invalidPrice (symbol : String) (mid : ℚ)
  /-- `Format position_id invàlid: '{positionId}'` -/
  | invalidPositionId (positionId : String)
  /-- `No s'ha pogut parsejar pair_id/trade_index de: '{positionId}'` -/
  | unreadablePositionId (positionId : String)
  /-- `Ostium: pair_id={pairId} desconegut, no es pot obtenir preu de tancament` -/
  | unknownPair (pairId : ℤ)
  /-- `Ostium: no s'ha pogut obtenir preu de tancament: {text}` -/
  | noClosePrice (text : String)
  deriving DecidableEq

/-- The errors that leave an order call. -/
inductive CoreError
  /-- `quality_gate BAD symbol={symbol} reason={reason}` -/
  | dataQualityGateBad (symbol reason : String)
  /-- `LIVE trading is disabled (ENABLE_LIVE_TRADING != 1).` -/
  | liveTradingDisabled
  | riskLimitExceeded (limit : RiskLimit)
  /-- `adapter_factory not configured; configure a venue adapter (e.g. VENUE=paper).` -/
  | adapterNotAvailable
  /-- `venue not configured: {venue}. Available: {available}` -/
  | venueNotConfigured (venue : String) (available : List String)
  /-- `Position already open for {symbol} at {venue} (position_id={existingPositionId}).` -/
  | positionAlreadyOpen (symbol venue existingPositionId : String)
  /-- `Symbol '{symbol}' no suportat per Ostium` -/
  | marketNotFound (symbol : String)
  | venueApi (reason : VenueApiReason)
  /-- Any other exception, with its text. -/
  | raised (text : String)
  deriving DecidableEq

/-! ### Settings -/

/-- The settings of the trading service. -/
structure TradingConfig where
  mode : String := "paper"
  canaryMode : String := "paper"
  canarySymbols : List String := []
  enableLiveTrading : Bool := false
  maxOpenPositions : ℕ := 1
  maxNotionalUsdc : ℚ := 0
  maxCollateralUsd : ℚ := 50
  maxLeverage : ℚ := 10
  liveSymbolAllowlist : List String := ["EURUSD", "XAUUSD"]
  deriving DecidableEq

namespace TradingConfig

variable (cfg : TradingConfig)

/-- Whether a mode is the live one. -/
def isLive (mode : String) : Bool := Text.lower mode = "live"

/-! ### Canary routing -/

/-- The venue at which an order is opened.  Only orders for `ostium` are routed. -/
def resolveEffectiveVenue (requestedVenue symbol : String) : String :=
  if requestedVenue ≠ "ostium" then requestedVenue
  else if cfg.canaryMode = "ostium" then "ostium"
  else if cfg.canaryMode = "split" then
    if cfg.canarySymbols.isEmpty ∨ Text.upper (Text.strip symbol) ∈ cfg.canarySymbols then "ostium"
    else "paper"
  else "paper"

theorem resolveEffectiveVenue_of_ne {requestedVenue : String} (h : requestedVenue ≠ "ostium")
    (symbol : String) : cfg.resolveEffectiveVenue requestedVenue symbol = requestedVenue := by
  rw [resolveEffectiveVenue, if_pos h]

/-- An order for `ostium` is opened there or at `paper`. -/
theorem resolveEffectiveVenue_ostium (symbol : String) :
    cfg.resolveEffectiveVenue "ostium" symbol = "ostium" ∨
      cfg.resolveEffectiveVenue "ostium" symbol = "paper" := by
  unfold resolveEffectiveVenue
  split_ifs <;> simp

/-! ### Guards -/

/-- The kill switch: in live mode it has to be on. -/
def assertLiveTradingEnabled (mode : String) : Except CoreError Unit :=
  if isLive mode = false then .ok ()
  else if cfg.enableLiveTrading = false then .error .liveTradingDisabled
  else .ok ()

/-- The limits on the open positions and on the notional of an order. -/
def assertRiskLimitsOk (openPositions : List Position) (requestedNotional : ℚ) :
    Except CoreError Unit :=
  if openPositions.length ≥ cfg.maxOpenPositions then
    .error (.riskLimitExceeded (.maxOpenPositions cfg.maxOpenPositions openPositions.length))
  else if cfg.maxNotionalUsdc > 0 ∧ requestedNotional > cfg.maxNotionalUsdc then
    .error (.riskLimitExceeded (.maxNotionalUsdc requestedNotional cfg.maxNotionalUsdc))
  else .ok ()

/-- The caps on an order; a cap that is zero is off. -/
def assertOrderCapsOk (collateral leverage : ℚ) : Except CoreError Unit :=
  if cfg.maxCollateralUsd > 0 ∧ collateral > cfg.maxCollateralUsd then
    .error (.riskLimitExceeded (.maxCollateralUsd collateral cfg.maxCollateralUsd))
  else if cfg.maxLeverage > 0 ∧ leverage > cfg.maxLeverage then
    .error (.riskLimitExceeded (.maxLeverage leverage cfg.maxLeverage))
  else .ok ()

/-- The symbols that may be traded; an empty list allows all of them. -/
def assertSymbolAllowed (symbol : String) : Except CoreError Unit :=
  if cfg.liveSymbolAllowlist.isEmpty then .ok ()
  else
    let symUpper := Text.upper (Text.strip symbol)
    let allowedUpper := cfg.liveSymbolAllowlist.map fun s => Text.upper (Text.strip s)
    if symUpper ∈ allowedUpper then .ok ()
    else .error (.riskLimitExceeded (.symbolNotAllowed symUpper cfg.liveSymbolAllowlist))

/-! ### What the guards check -/

/-- The collateral and the leverage of an order are within the caps that are on. -/
def WithinCaps (collateral leverage : ℚ) : Prop :=
  (0 < cfg.maxCollateralUsd → collateral ≤ cfg.maxCollateralUsd) ∧
    (0 < cfg.maxLeverage → leverage ≤ cfg.maxLeverage)

/-- A symbol is one of those that may be traded. -/
def SymbolAllowed (symbol : String) : Prop :=
  cfg.liveSymbolAllowlist = [] ∨
    Text.upper (Text.strip symbol) ∈
      cfg.liveSymbolAllowlist.map fun s => Text.upper (Text.strip s)

variable {cfg}

theorem assertLiveTradingEnabled_eq_ok {mode : String} :
    cfg.assertLiveTradingEnabled mode = .ok () ↔ (isLive mode → cfg.enableLiveTrading = true) := by
  unfold assertLiveTradingEnabled
  cases isLive mode <;> cases cfg.enableLiveTrading <;> simp

theorem assertOrderCapsOk_eq_ok {collateral leverage : ℚ} :
    cfg.assertOrderCapsOk collateral leverage = .ok () ↔ cfg.WithinCaps collateral leverage := by
  unfold assertOrderCapsOk WithinCaps
  by_cases hcol : cfg.maxCollateralUsd > 0 ∧ collateral > cfg.maxCollateralUsd
  · simp [hcol]
  · by_cases hlev : cfg.maxLeverage > 0 ∧ leverage > cfg.maxLeverage
    · simp [hcol, hlev]
    · simp only [if_neg hcol, if_neg hlev, true_iff]
      exact ⟨fun h => not_lt.1 fun hc => hcol ⟨h, hc⟩, fun h => not_lt.1 fun hc => hlev ⟨h, hc⟩⟩

theorem assertSymbolAllowed_eq_ok {symbol : String} :
    cfg.assertSymbolAllowed symbol = .ok () ↔ cfg.SymbolAllowed symbol := by
  unfold assertSymbolAllowed SymbolAllowed
  by_cases hempty : cfg.liveSymbolAllowlist = []
  · simp [hempty]
  · by_cases hmem : Text.upper (Text.strip symbol) ∈
        cfg.liveSymbolAllowlist.map fun s => Text.upper (Text.strip s)
    · simp only [List.isEmpty_iff, hempty, hmem, if_true, if_false, or_true]
    · simp only [List.isEmpty_iff, hempty, hmem, if_false, or_self, reduceCtorEq]

theorem assertRiskLimitsOk_eq_ok {openPositions : List Position} {requestedNotional : ℚ} :
    cfg.assertRiskLimitsOk openPositions requestedNotional = .ok () ↔
      openPositions.length + 1 ≤ cfg.maxOpenPositions ∧
        (0 < cfg.maxNotionalUsdc → requestedNotional ≤ cfg.maxNotionalUsdc) := by
  unfold assertRiskLimitsOk
  by_cases hpos : openPositions.length ≥ cfg.maxOpenPositions
  · simp only [if_pos hpos, reduceCtorEq, false_iff, not_and]
    omega
  · by_cases hnot : cfg.maxNotionalUsdc > 0 ∧ requestedNotional > cfg.maxNotionalUsdc
    · simp [hpos, hnot]
    · simp only [if_neg hpos, if_neg hnot, true_iff]
      exact ⟨by omega, fun h => not_lt.1 fun hc => hnot ⟨h, hc⟩⟩

end TradingConfig
