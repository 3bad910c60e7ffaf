/-
**The paper execution engine.**

The engine keeps a balance, the open positions and the history of the closed ones, and simulates
the execution of orders at a price it is given.  Each method of the source is a function from the
engine to its result and the engine it leaves behind.  A method that can raise returns an
`Except` next to that engine, because what was written before an exception stays written: in
`PaperEngine.closePosition` the balance is credited before the percentages are computed, and
computing them divides by the collateral.

The three sweeps over the open positions run the same loop over a snapshot of the positions, and
differ in the decision taken for one of them.

Main definitions:

* `PaperEngine`, `PaperEngine.init` — the state of the engine;
* `PaperEngine.openPosition`, `PaperEngine.closePosition` — the two orders;
* `PaperEngine.updateSl`, `PaperEngine.updateTp` — moving the triggers of a position;
* `PaperEngine.checkStops`, `PaperEngine.checkStopsAndLiquidation`, `PaperEngine.checkTtl` — the
  sweeps, as instances of `PaperEngine.sweep`.

Main results:

* `PaperEngine.openPosition_cases`, `PaperEngine.closePosition_cases` — what an order can do;
* `PaperEngine.openPosition_solvent_iff` — when an open leaves a balance that is not negative;
* `PaperEngine.openPosition_overdraws` — an open of the whole balance.
-/

import Brokerage.CostModel
import Brokerage.Dict
import Brokerage.Domain

set_option relaxedAutoImplicit false
set_option autoImplicit false

/-- The exceptions that leave a method of the engine. -/
inductive EngineError
  /-- A division by a price or a collateral that is zero. -/
  | zeroDivision
  /-- `Position {positionId} not found` -/
  | positionNotFound (positionId : String)
  deriving DecidableEq

/-- The state of the paper engine. -/
structure PaperEngine where
  balance : ℚ
  initialBalance : ℚ
  positions : Dict String Position
  tradeHistory : List TradeFill
  slippageBps : ℚ
  deriving DecidableEq

namespace PaperEngine

/-- A new engine. -/
def init (initialBalance slippageBps : ℚ) : PaperEngine where
  balance := initialBalance
  initialBalance := initialBalance
  positions := Dict.empty
  tradeHistory := []
  slippageBps := slippageBps

/-- The slippage as a fraction of the price. -/
def slippageFactor (e : PaperEngine) : ℚ := e.slippageBps / BASIS_POINTS_DIVISOR

/-! ### Opening -/

/-- The price an open is executed at: slippage is adverse for the trader. -/
def openExecutedPrice (e : PaperEngine) (side : OrderSide) (currentPrice : ℚ) : ℚ :=
  match side with
  | .buy => currentPrice * (1 + e.slippageFactor)
  | .sell => currentPrice * (1 - e.slippageFactor)

/-- The identifier given to a new position, from the twelve hexadecimal digits drawn for it. -/
def newPositionId (uuid : String) : String := "paper_" ++ uuid

/-- The position an executed open creates. -/
def newPosition (e : PaperEngine) (request : OrderRequest) (currentPrice timestamp : ℚ)
    (uuid : String) : Position where
  pairId := 0
  tradeIndex := 0
  symbol := request.symbol
  isLong := request.side = .buy
  collateral := request.collateral
  leverage := request.leverage
  openPrice := e.openExecutedPrice request.side currentPrice
  currentPrice := e.openExecutedPrice request.side currentPrice
  slPrice := request.slPrice
  tpPrice := request.tpPrice
  openTime := timestamp
  notional := request.collateral * request.leverage
  venuePositionId := some (newPositionId uuid)

/-- Opening a position.  The balance is compared with the collateral alone, and debited with the
collateral and the entry fee. -/
def openPosition (e : PaperEngine) (request : OrderRequest) (clientOrderId : String)
    (currentPrice timestamp : ℚ) (uuid : String) : OrderResult × PaperEngine :=
  let notional := request.collateral * request.leverage
  if request.collateral > e.balance then
    ({ success := false, positionId := "",
       errorMessage := some (.insufficientBalance e.balance request.collateral) }, e)
  else
    match CostModel.forGtradeSymbol request.symbol with
    | none =>
        ({ success := false, positionId := "",
           errorMessage := some (.unsupportedSymbol (Text.upper request.symbol)) }, e)
    | some costModel =>
        let executedPrice := e.openExecutedPrice request.side currentPrice
        let totalEntryFee := (costModel.calculateOpenFees notional).totalEntryCost
        let totalCost := request.collateral + totalEntryFee
        let positionId := newPositionId uuid
        let position := e.newPosition request currentPrice timestamp uuid
        ({ success := true
           positionId := positionId
           orderId := some clientOrderId
           executedPrice := some executedPrice
           executedSize := some (if executedPrice = 0 then 0 else notional / executedPrice)
           fee := some totalEntryFee
           slippage := some e.slippageBps },
         { e with
           balance := e.balance - totalCost
           positions := e.positions.set positionId position })

/-! ### Closing -/

/-- The price a close is executed at: slippage is adverse for the trader. -/
def closeExecutedPrice (e : PaperEngine) (position : Position) (currentPrice : ℚ) : ℚ :=
  if position.isLong then
    currentPrice * (1 - e.slippageFactor)
  else
    currentPrice * (1 + e.slippageFactor)

/-- The profit of closing a position at a price, before fees. -/
def grossPnl (position : Position) (executedPrice : ℚ) : ℚ :=
  let priceDiff := executedPrice - position.openPrice
  let priceDiff := if position.isLong then priceDiff else -priceDiff
  priceDiff * position.leverage * position.collateral / position.openPrice

/-- The entry of the trade history for a close. -/
def fillOf (position : Position) (positionId clientOrderId : String) (executedPrice fee timestamp : ℚ)
    (closeReason : CloseReason) : TradeFill where
  symbol := position.symbol
  side := if position.isLong then .sell else .buy
  price := executedPrice
  size := if executedPrice = 0 then 0 else position.notional / executedPrice
  fee := fee
  timestamp := timestamp
  orderId := clientOrderId
  positionId := positionId
  closeReason := closeReason
  openTs := position.openTime
  openPrice := position.openPrice
  closePrice := executedPrice

/-- The fee of closing a position. -/
def exitFee (costModel : CostModel) (position : Position) : ℚ :=
  (costModel.calculateCloseFees position.notional).totalExitCost

/-- The profit of closing a position at a price, after fees. -/
def netPnl (costModel : CostModel) (position : Position) (executedPrice : ℚ) : ℚ :=
  grossPnl position executedPrice - exitFee costModel position

/-- The result of an executed close. -/
def closeResult (e : PaperEngine) (costModel : CostModel) (position : Position)
    (positionId clientOrderId : String) (executedPrice : ℚ) : OrderResult where
  success := true
  positionId := positionId
  orderId := some clientOrderId
  executedPrice := some executedPrice
  executedSize := some position.notional
  fee := some (exitFee costModel position)
  slippage := some e.slippageBps
  realizedPnl := some (netPnl costModel position executedPrice)
  realizedPnlPercent := some (netPnl costModel position executedPrice / position.collateral * 100)
  pnlGross := some (grossPnl position executedPrice)
  pnlGrossPercent := some (grossPnl position executedPrice / position.collateral * 100)

/-- Returning collateral and profit of a close to the balance. -/
def credit (e : PaperEngine) (costModel : CostModel) (position : Position) (executedPrice : ℚ) :
    PaperEngine :=
  { e with
    balance := e.balance + (position.collateral + netPnl costModel position executedPrice) }

/-- Recording a close in the history and removing the position. -/
def archive (e : PaperEngine) (positionId : String) (fill : TradeFill) : PaperEngine :=
  { e with
    positions := e.positions.erase positionId
    tradeHistory := e.tradeHistory ++ [fill] }

/-- Closing a position.  The two divisions raise when the open price or the collateral is zero;
the second one happens after the balance was credited. -/
def closePosition (e : PaperEngine) (positionId clientOrderId : String)
    (currentPrice timestamp : ℚ) (closeReason : CloseReason) :
    Except EngineError OrderResult × PaperEngine :=
  match e.positions.get? positionId with
  | none =>
      (.ok { success := false, positionId := positionId,
             errorMessage := some (.positionNotFound positionId) }, e)
  | some position =>
      match CostModel.forGtradeSymbol position.symbol with
      | none =>
          (.ok { success := false, positionId := positionId,
                 errorMessage := some (.unsupportedSymbol (Text.upper position.symbol)) }, e)
      | some costModel =>
          let executedPrice := e.closeExecutedPrice position currentPrice
          if position.openPrice = 0 then
            (.error .zeroDivision, e)
          else if position.collateral = 0 then
            (.error .zeroDivision, e.credit costModel position executedPrice)
          else
            (.ok (e.closeResult costModel position positionId clientOrderId executedPrice),
              (e.credit costModel position executedPrice).archive positionId
                (fillOf position positionId clientOrderId executedPrice
                  (exitFee costModel position) timestamp closeReason))

/-! ### Moving the triggers -/

/-- Writing to a field of an open position. -/
def modifyPosition (e : PaperEngine) (positionId : String) (f : Position → Position) : PaperEngine :=
  match e.positions.get? positionId with
  | none => e
  | some position => { e with positions := e.positions.set positionId (f position) }

/-- The update of one trigger of a position: the position has to be open. -/
def updateTrigger (e : PaperEngine) (positionId : String) (f : Position → Position) :
    Except EngineError Unit × PaperEngine :=
  if e.positions.contains positionId then
    (.ok (), e.modifyPosition positionId f)
  else
    (.error (.positionNotFound positionId), e)

/-- Moving the stop loss of a position. -/
def updateSl (e : PaperEngine) (positionId : String) (newSl : Option ℚ) :
    Except EngineError Unit × PaperEngine :=
  e.updateTrigger positionId fun p => { p with slPrice := newSl }

/-- Moving the take profit of a position. -/
def updateTp (e : PaperEngine) (positionId : String) (newTp : Option ℚ) :
    Except EngineError Unit × PaperEngine :=
  e.updateTrigger positionId fun p => { p with tpPrice := newTp }

/-! ### Sweeps over the open positions -/

/-- What a loop over the positions leaves: the results of the closes it completed, the exception
that ended it early, if any, and the engine. -/
structure Sweep where
  closed : List OrderResult
  raised : Option EngineError
  engine : PaperEngine
  deriving DecidableEq

/-- The loop of a sweep: `visit` decides about one position of the snapshot and carries the
decision out; an exception ends the loop. -/
def sweep (visit : PaperEngine → String → Position →
      Except EngineError (Option OrderResult) × PaperEngine) :
    PaperEngine → List (String × Position) → Sweep
  | e, [] => { closed := [], raised := none, engine := e }
  | e, (positionId, position) :: rest =>
      match visit e positionId position with
      | (.error err, e') => { closed := [], raised := some err, engine := e' }
      | (.ok r, e') =>
          let s := sweep visit e' rest
          { s with closed := r.toList ++ s.closed }

/-- The decision of a visit, carried out: nothing, or a close at the price for a reason. -/
def closeFor (e : PaperEngine) (positionId : String) (currentPrice now : ℚ) :
    Option (CloseReason × String) → Except EngineError (Option OrderResult) × PaperEngine
  | none => (.ok none, e)
  | some (reason, orderPrefix) =>
      let (r, e') := e.closePosition positionId (orderPrefix ++ positionId) currentPrice now reason
      (r.map some, e')

/-- The trigger a price hits, if any: the stop loss is looked at first. -/
def stopHit (position : Position) (currentPrice : ℚ) : Option (CloseReason × String) :=
  let slHit := match position.slPrice with
    | none => false
    | some sl => (position.isLong ∧ currentPrice ≤ sl) ∨ (¬ position.isLong ∧ currentPrice ≥ sl)
  let tpHit := match position.tpPrice with
    | none => false
    | some tp => (position.isLong ∧ currentPrice ≥ tp) ∨ (¬ position.isLong ∧ currentPrice ≤ tp)
  if slHit then some (.stopLoss, "sl_")
  else if tpHit then some (.takeProfit, "tp_")
  else none

/-- The unrealized profit of a position at a price, as the liquidation check computes it. -/
def unrealizedPnlAt (position : Position) (currentPrice : ℚ) : ℚ :=
  let size := position.notional / (if position.openPrice = 0 then 1 else position.openPrice)
  if position.isLong then (currentPrice - position.openPrice) * size
  else (position.openPrice - currentPrice) * size

/-- Whether the equity of a position at a price is down to its maintenance margin. -/
def liquidationHit (maintenanceMarginRatio : ℚ) (position : Position) (currentPrice : ℚ) :
    Option (CloseReason × String) :=
  let equity := position.collateral + unrealizedPnlAt position currentPrice
  let notional := if position.notional = 0 then position.collateral * position.leverage
    else position.notional
  if equity ≤ notional * maintenanceMarginRatio then some (.liquidation, "liq_") else none

/-- One position of a price sweep: a symbol without a price is skipped, otherwise the price is
recorded and the decision taken. -/
def visitPrice (prices : Dict String ℚ) (now : ℚ)
    (hit : Position → ℚ → Option (CloseReason × String))
    (e : PaperEngine) (positionId : String) (position : Position) :
    Except EngineError (Option OrderResult) × PaperEngine :=
  match prices.get? position.symbol with
  | none => (.ok none, e)
  | some currentPrice =>
      let e := e.modifyPosition positionId fun p => { p with currentPrice := currentPrice }
      e.closeFor positionId currentPrice now (hit position currentPrice)

/-- The stop-loss and take-profit sweep. -/
def checkStops (e : PaperEngine) (prices : Dict String ℚ) (now : ℚ) : Sweep :=
  sweep (visitPrice prices now stopHit) e e.positions.entries

/-- The liquidation sweep, followed by the stop-loss and take-profit sweep over what is left. -/
def checkStopsAndLiquidation (e : PaperEngine) (prices : Dict String ℚ) (now : ℚ)
    (maintenanceMarginRatio : ℚ) : Sweep :=
  let liquidations :=
    sweep (visitPrice prices now (liquidationHit maintenanceMarginRatio)) e e.positions.entries
  match liquidations.raised with
  | some _ => liquidations
  | none =>
      let stops := liquidations.engine.checkStops prices now
      { stops with closed := liquidations.closed ++ stops.closed }

/-- One position of the time-to-live sweep: an old enough position is closed at its last known
price, or at its open price when that is zero. -/
def visitTtl (now ttlS : ℚ) (e : PaperEngine) (positionId : String) (position : Position) :
    Except EngineError (Option OrderResult) × PaperEngine :=
  let ageS := now - position.openTime
  let price := if position.currentPrice = 0 then position.openPrice else position.currentPrice
  e.closeFor positionId price now (if ageS ≥ ttlS then some (.ttl, "ttl_") else none)

/-- The time-to-live sweep. -/
def checkTtl (e : PaperEngine) (now ttlS : ℚ) : Sweep :=
  sweep (visitTtl now ttlS) e e.positions.entries

/-! ### What the orders can do -/

/-- An open either fails and leaves the engine alone, or debits the collateral and the entry fee
and adds the new position. -/
theorem openPosition_cases (e : PaperEngine) (request : OrderRequest) (clientOrderId : String)
    (currentPrice timestamp : ℚ) (uuid : String) :
    ((e.openPosition request clientOrderId currentPrice timestamp uuid).1.success = false ∧
      (e.openPosition request clientOrderId currentPrice timestamp uuid).2 = e) ∨
    ∃ fee, (e.openPosition request clientOrderId currentPrice timestamp uuid).1.success = true ∧
      (e.openPosition request clientOrderId currentPrice timestamp uuid).1.positionId =
        newPositionId uuid ∧
      (e.openPosition request clientOrderId currentPrice timestamp uuid).1.fee = some fee ∧
      (e.openPosition request clientOrderId currentPrice timestamp uuid).2 =
        { e with
          balance := e.balance - (request.collateral + fee)
          positions := e.positions.set (newPositionId uuid)
            (e.newPosition request currentPrice timestamp uuid) } := by
  unfold openPosition
  by_cases hbal : request.collateral > e.balance
  · left
    simp [hbal]
  · cases hcost : CostModel.forGtradeSymbol request.symbol with
    | none =>
        left
        simp [hbal]
    | some costModel =>
        right
        refine ⟨(costModel.calculateOpenFees (request.collateral * request.leverage)).totalEntryCost,
          ?_⟩
        simp [hbal]

/-- The four ends of a close: a failure or a division by zero that changes nothing, a division by
zero after the credit, and a close that moves the position to the history. -/
theorem closePosition_cases (e : PaperEngine) (positionId clientOrderId : String)
    (currentPrice timestamp : ℚ) (closeReason : CloseReason) :
    (∃ r, r.success = false ∧
      e.closePosition positionId clientOrderId currentPrice timestamp closeReason = (.ok r, e)) ∨
    e.closePosition positionId clientOrderId currentPrice timestamp closeReason =
      (.error .zeroDivision, e) ∨
    (∃ position costModel executedPrice, e.positions.get? positionId = some position ∧
      position.collateral = 0 ∧
      e.closePosition positionId clientOrderId currentPrice timestamp closeReason =
        (.error .zeroDivision, e.credit costModel position executedPrice)) ∨
    (∃ position costModel executedPrice fill, e.positions.get? positionId = some position ∧
      fill.positionId = positionId ∧ fill.closeReason = closeReason ∧
      e.closePosition positionId clientOrderId currentPrice timestamp closeReason =
        (.ok (e.closeResult costModel position positionId clientOrderId executedPrice),
          (e.credit costModel position executedPrice).archive positionId fill)) := by
  unfold closePosition
  cases hpos : e.positions.get? positionId with
  | none => exact Or.inl ⟨_, rfl, rfl⟩
  | some position =>
      cases hcost : CostModel.forGtradeSymbol position.symbol with
      | none =>
          refine Or.inl ⟨{ success := false, positionId := positionId, errorMessage := some ?_ }, rfl, ?_⟩
          · exact .unsupportedSymbol (Text.upper position.symbol)
          · simp only [hcost]
      | some costModel =>
          by_cases hopen : position.openPrice = 0
          · exact Or.inr (Or.inl (by simp only [hcost, hopen, if_true]))
          · by_cases hcol : position.collateral = 0
            · exact Or.inr (Or.inr (Or.inl ⟨position, costModel, _, rfl, hcol,
                by simp only [hcost, hopen, hcol, if_true, if_false]; rfl⟩))
            · exact Or.inr (Or.inr (Or.inr ⟨position, costModel,
                e.closeExecutedPrice position currentPrice,
                fillOf position positionId clientOrderId (e.closeExecutedPrice position currentPrice)
                  (exitFee costModel position) timestamp closeReason, rfl, rfl, rfl,
                by simp only [hcost, hopen, hcol, if_false]⟩))

/-- Closing a position adds none. -/
theorem get?_closePosition {e : PaperEngine} {positionId clientOrderId : String}
    {currentPrice timestamp : ℚ} {closeReason : CloseReason} {id : String} {p : Position}
    (h : (e.closePosition positionId clientOrderId currentPrice timestamp closeReason).2.positions.get?
      id = some p) : e.positions.get? id = some p := by
  rcases closePosition_cases e positionId clientOrderId currentPrice timestamp closeReason with
    ⟨r, -, heq⟩ | heq | ⟨q, costModel, price, -, -, heq⟩ | ⟨q, costModel, price, fill, -, -, -, heq⟩
      <;> rw [heq] at h
  · exact h
  · exact h
  · exact h
  · simp only [archive, credit, Dict.get?_erase] at h
    split at h
    · cases h
    · exact h

/-- What an open leaves in the engine: the positions of before, and perhaps one of its symbol. -/
theorem get?_openPosition {e : PaperEngine} {request : OrderRequest}
    {clientOrderId : String} {currentPrice timestamp : ℚ} {uuid id : String} {p : Position}
    (h : (e.openPosition request clientOrderId currentPrice timestamp uuid).2.positions.get? id =
      some p) :
    e.positions.get? id = some p ∨ (id = newPositionId uuid ∧ p.symbol = request.symbol) := by
  rcases openPosition_cases e request clientOrderId currentPrice timestamp uuid with
    ⟨-, heq⟩ | ⟨fee, -, -, -, heq⟩ <;> rw [heq] at h
  · exact Or.inl h
  · simp only [Dict.get?_set] at h
    split at h
    · right
      obtain rfl := Option.some.inj h
      exact ⟨‹_›, rfl⟩
    · exact Or.inl h

/-- A close leaves the slippage alone. -/
theorem closePosition_slippageBps (e : PaperEngine) (id clientOrderId : String)
    (currentPrice timestamp : ℚ) (closeReason : CloseReason) :
    (e.closePosition id clientOrderId currentPrice timestamp closeReason).2.slippageBps =
      e.slippageBps := by
  rcases closePosition_cases e id clientOrderId currentPrice timestamp closeReason with
    ⟨r, -, heq⟩ | heq | ⟨p, costModel, price, -, -, heq⟩ | ⟨p, costModel, price, fill, -, -, -, heq⟩
      <;> rw [heq] <;> rfl

/-! ### The balance after an open -/

/-- What an open costs: the collateral, and the fees of the position size. -/
def openCost (costModel : CostModel) (collateral leverage : ℚ) : ℚ :=
  collateral + collateral * leverage *
    (costModel.spreadBps + costModel.openFeeBps + costModel.priceImpactBps) / 10000

theorem openCost_eq (costModel : CostModel) (collateral leverage : ℚ) :
    openCost costModel collateral leverage =
      collateral + (costModel.calculateOpenFees (collateral * leverage)).totalEntryCost := by
  simp only [openCost, CostModel.calculateOpenFees, BASIS_POINTS_DIVISOR]
  ring

/-- An open of a supported symbol succeeds if the balance covers the collateral, and then takes
the whole cost from it. -/
theorem openPosition_supported {e : PaperEngine} {request : OrderRequest} {costModel : CostModel}
    (hsymbol : CostModel.forGtradeSymbol request.symbol = some costModel) (clientOrderId : String)
    (currentPrice timestamp : ℚ) (uuid : String) :
    ((e.openPosition request clientOrderId currentPrice timestamp uuid).1.success = true ↔
      request.collateral ≤ e.balance) ∧
    (request.collateral ≤ e.balance →
      (e.openPosition request clientOrderId currentPrice timestamp uuid).2.balance =
        e.balance - openCost costModel request.collateral request.leverage) := by
  rw [openCost_eq]
  unfold openPosition
  by_cases hbal : request.collateral > e.balance
  · simp [hbal]
  · simp [hbal, hsymbol, not_lt.1 hbal]

/-- An open of a supported symbol that succeeds leaves a balance that is not negative, if and only
if the balance does not cover the collateral, so that it is refused, or covers the whole cost. -/
theorem openPosition_solvent_iff (e : PaperEngine) (request : OrderRequest) (costModel : CostModel)
    (hsymbol : CostModel.forGtradeSymbol request.symbol = some costModel) (clientOrderId : String)
    (currentPrice timestamp : ℚ) (uuid : String) :
    ((e.openPosition request clientOrderId currentPrice timestamp uuid).1.success = true →
      0 ≤ (e.openPosition request clientOrderId currentPrice timestamp uuid).2.balance) ↔
    e.balance < request.collateral ∨
      openCost costModel request.collateral request.leverage ≤ e.balance := by
  obtain ⟨hsuccess, hbalance⟩ :=
    openPosition_supported (e := e) hsymbol clientOrderId currentPrice timestamp uuid
  rw [hsuccess]
  constructor
  · intro hsolvent
    by_cases hcovered : request.collateral ≤ e.balance
    · have hnonneg := hsolvent hcovered
      rw [hbalance hcovered] at hnonneg
      exact Or.inr (sub_nonneg.1 hnonneg)
    · exact Or.inl (not_le.1 hcovered)
  · rintro (hrefused | hcost) hcovered
    · exact absurd hcovered (not_le.2 hrefused)
    · rw [hbalance hcovered]
      exact sub_nonneg.2 hcost

/-- An order for a long position in BTC, five times leveraged. -/
def btcOrder (collateral : ℚ) : OrderRequest where
  symbol := "BTC"
  side := .buy
  collateral := collateral
  leverage := 5

/-- The default engine covers an order of 9900: it costs 9929.7. -/
theorem openPosition_solvent_iff_btc :
    ((init 10000 5).openPosition (btcOrder 9900) "c" 40000 0 "a").1.success = true ∧
      0 ≤ ((init 10000 5).openPosition (btcOrder 9900) "c" 40000 0 "a").2.balance := by
  have hsuccess :
      ((init 10000 5).openPosition (btcOrder 9900) "c" 40000 0 "a").1.success = true := by
    decide
  have hsolvent := (openPosition_solvent_iff (init 10000 5) (btcOrder 9900) ⟨"BTC", 1, 5, 5, 0, 0⟩
    (by decide) "c" 40000 0 "a").2 (by decide +kernel)
  exact ⟨hsuccess, hsolvent hsuccess⟩

/-- The default engine accepts an order of its whole balance, and owes the fee afterwards. -/
theorem openPosition_overdraws :
    ((init 10000 5).openPosition (btcOrder 10000) "c" 40000 0 "a").1.success = true ∧
      ((init 10000 5).openPosition (btcOrder 10000) "c" 40000 0 "a").2.balance = -30 := by
  decide +kernel

end PaperEngine
