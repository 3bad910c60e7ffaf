/-
**The published liquidation price.**

`GET /positions` shows for each position a liquidation price in closed form, and a profit at the mark
price.  The risk check of the engine knows neither: it compares the equity of the position with its
maintenance margin, and a close computes its profit from the leverage and the collateral rather than
from the size.  For the positions an open creates the three agree.

Main definitions:

* `PaperEngine.Created` — a position as an open of the engine creates it, whatever became of its
  price and its triggers.

Main results:

* `PaperEngine.liquidationReached_iff` — the maintenance margin is reached at the published price;
* `PaperEngine.grossPnl_eq` — the profit of the size is that of the leveraged collateral;
* `PaperEngine.published_spec` — what a client is shown is what the engine does.
-/

import Brokerage.PositionsResponse
import Brokerage.RiskCheck

set_option relaxedAutoImplicit false
set_option autoImplicit false

namespace PaperEngine

/-! ### The positions an open creates -/

/-- A position that an open created under an identifier.  Its price and its triggers may have been
moved since. -/
structure Created (id : String) (p : Position) : Prop where
  opened : ∃ (e : PaperEngine) (request : OrderRequest) (clientOrderId : String)
    (currentPrice timestamp : ℚ) (uuid : String) (q : Position),
    let r := e.openPosition request clientOrderId currentPrice timestamp uuid
    r.1.success = true ∧ r.1.positionId = id ∧ r.2.positions.get? id = some q ∧
      p = { q with currentPrice := p.currentPrice, slPrice := p.slPrice, tpPrice := p.tpPrice }
  collateral_pos : 0 < p.collateral
  leverage_pos : 0 < p.leverage
  openPrice_pos : 0 < p.openPrice

/-- An open that succeeds has fees for the symbol. -/
theorem exists_costModel_of_success {e : PaperEngine} {request : OrderRequest} {clientOrderId : String}
    {currentPrice timestamp : ℚ} {uuid : String}
    (h : (e.openPosition request clientOrderId currentPrice timestamp uuid).1.success = true) :
    ∃ costModel, CostModel.forGtradeSymbol request.symbol = some costModel := by
  unfold openPosition at h
  by_cases hbal : request.collateral > e.balance
  · simp [hbal] at h
  · cases hcost : CostModel.forGtradeSymbol request.symbol with
    | none => simp [hbal, hcost] at h
    | some costModel => exact ⟨costModel, rfl⟩

namespace Created

variable {id : String} {p : Position}

/-- What is left of the open in the position. -/
theorem exists_request (h : Created id p) :
    p.notional = p.collateral * p.leverage ∧ p.unrealizedPnl = none ∧
      ∃ costModel, CostModel.forGtradeSymbol p.symbol = some costModel := by
  obtain ⟨e, request, clientOrderId, currentPrice, timestamp, uuid, q, hsuccess, hid, hq, hp⟩ := h.opened
  rcases openPosition_cases e request clientOrderId currentPrice timestamp uuid with
    ⟨hfailed, -⟩ | ⟨fee, -, hnew, -, heq⟩
  · rw [hfailed] at hsuccess
    cases hsuccess
  · obtain rfl : newPositionId uuid = id := hnew.symm.trans hid
    rw [heq, Dict.get?_set_self] at hq
    obtain rfl := Option.some.inj hq
    rw [hp]
    exact ⟨rfl, rfl, exists_costModel_of_success hsuccess⟩

theorem notional_eq (h : Created id p) : p.notional = p.collateral * p.leverage :=
  h.exists_request.1

theorem notional_pos (h : Created id p) : 0 < p.notional := by
  rw [h.notional_eq]
  exact mul_pos h.collateral_pos h.leverage_pos

theorem divides (h : Created id p) : Divides p :=
  ⟨h.openPrice_pos.ne', h.collateral_pos.ne'⟩

end Created

/-! ### Three formulas -/

variable {id : String} {p : Position}

/-- The profit of the size of a position is that of its leveraged collateral. -/
theorem grossPnl_eq (h : Created id p) (price : ℚ) : grossPnl p price = unrealizedPnlAt p price := by
  have hopen : p.openPrice ≠ 0 := h.openPrice_pos.ne'
  rw [grossPnl, unrealizedPnlAt, if_neg hopen, h.notional_eq]
  cases p.isLong with
  | true =>
      simp only [if_true]
      ring
  | false =>
      simp only [Bool.false_eq_true, if_false]
      ring

/-- The profit in the response is the one the risk check goes by. -/
theorem unrealizedPnl_positionItem (h : Created id p) {prices : Dict String ℚ} {price : ℚ}
    (hprice : prices.get? p.symbol = some price) (venue : String) (ratio : ℚ) :
    (positionItem venue prices ratio p).unrealizedPnl = some (unrealizedPnlAt p price) := by
  have hopen : p.openPrice ≠ 0 := h.openPrice_pos.ne'
  simp only [positionItem, responsePnl, h.exists_request.2.1, hprice, if_neg hopen, unrealizedPnlAt]

/-- The equity of a position is down to its maintenance margin at the published price, and beyond
it: below for a long position, above for a short one. -/
theorem liquidationReached_iff (h : Created id p) (ratio price : ℚ) :
    ∃ liquidationPrice,
      computeLiquidationPrice p.openPrice p.notional p.collateral p.isLong ratio =
        some liquidationPrice ∧
      (LiquidationReached ratio p price ↔
        if p.isLong then price ≤ liquidationPrice else liquidationPrice ≤ price) := by
  have hopen : p.openPrice ≠ 0 := h.openPrice_pos.ne'
  have hnotional : p.notional ≠ 0 := h.notional_pos.ne'
  have hdefined : ¬(p.notional ≤ 0 ∨ p.openPrice ≤ 0) :=
    not_or.2 ⟨h.notional_pos.not_ge, h.openPrice_pos.not_ge⟩
  have hsize : 0 < p.notional / p.openPrice := div_pos h.notional_pos h.openPrice_pos
  rw [computeLiquidationPrice, if_neg hdefined]
  refine ⟨_, rfl, ?_⟩
  simp only [LiquidationReached, unrealizedPnlAt, if_neg hopen, if_neg hnotional]
  cases p.isLong with
  | true =>
      simp only [if_true]
      calc p.collateral + (price - p.openPrice) * (p.notional / p.openPrice) ≤ p.notional * ratio
          ↔ (price - p.openPrice) * (p.notional / p.openPrice) ≤ p.notional * ratio - p.collateral :=
            le_sub_iff_add_le'.symm
        _ ↔ price - p.openPrice ≤ (p.notional * ratio - p.collateral) / (p.notional / p.openPrice) :=
            (le_div_iff₀ hsize).symm
        _ ↔ price ≤ p.openPrice + (p.notional * ratio - p.collateral) / (p.notional / p.openPrice) :=
            sub_le_iff_le_add'
  | false =>
      simp only [Bool.false_eq_true, if_false]
      calc p.collateral + (p.openPrice - price) * (p.notional / p.openPrice) ≤ p.notional * ratio
          ↔ (p.openPrice - price) * (p.notional / p.openPrice) ≤ p.notional * ratio - p.collateral :=
            le_sub_iff_add_le'.symm
        _ ↔ p.openPrice - price ≤ (p.notional * ratio - p.collateral) / (p.notional / p.openPrice) :=
            (le_div_iff₀ hsize).symm
        _ ↔ p.openPrice - (p.notional * ratio - p.collateral) / (p.notional / p.openPrice) ≤ price :=
            sub_le_comm

/-! ### The risk check and the close -/

/-- A risk check liquidates a position if and only if its maintenance margin is reached. -/
theorem exists_liquidation_iff {e : PaperEngine}
    (hcreated : ∀ id p, e.positions.get? id = some p → Created id p) {prices : Dict String ℚ}
    {price : ℚ} (hp : e.positions.get? id = some p) (hprice : prices.get? p.symbol = some price)
    (now ratio : ℚ) :
    ∃ fills,
      (e.checkStopsAndLiquidation prices now ratio).engine.tradeHistory = e.tradeHistory ++ fills ∧
      ((∃ f ∈ fills, f.positionId = id ∧ f.closeReason = .liquidation) ↔
        LiquidationReached ratio p price) := by
  have hdivides : ∀ id p, e.positions.get? id = some p → (closing prices (riskHit ratio) p).isSome →
      Divides p := fun id p hp _ => (hcreated id p hp).divides
  obtain ⟨liq, stops, hliq, hstops, hrun⟩ := exists_passes now hdivides
  rw [hrun]
  refine ⟨_, by rw [hstops.history, hliq.history, List.append_assoc], ?_⟩
  simp only [mem_fills_passes hliq, fillFor_riskHit_eq_some]
  constructor
  · rintro ⟨f, ⟨id', q, hq, price', reason, costModel, hprice', hreason, -, rfl⟩, rfl, rfl⟩
    obtain rfl : p = q := Option.some.inj (hp.symm.trans hq)
    obtain rfl : price = price' := Option.some.inj (hprice.symm.trans hprice')
    by_contra hnot
    rw [closeReasonAt, if_neg hnot] at hreason
    split at hreason
    · cases hreason
    · split at hreason <;> cases hreason
  · intro hreached
    obtain ⟨costModel, hcost⟩ := (hcreated id p hp).exists_request.2.2
    exact ⟨_, ⟨id, p, hp, price, .liquidation, costModel, hprice, if_pos hreached, hcost, rfl⟩, rfl, rfl⟩

/-- A close without slippage realizes the profit at the price. -/
theorem pnlGross_of_no_slippage {e : PaperEngine} (h : Created id p)
    (hp : e.positions.get? id = some p) (hslippage : e.slippageBps = 0) (clientOrderId : String)
    (price timestamp : ℚ) (reason : CloseReason) :
    ∃ r, (e.closePosition id clientOrderId price timestamp reason).1 = .ok r ∧ r.success = true ∧
      r.pnlGross = some (unrealizedPnlAt p price) := by
  obtain ⟨costModel, hcost⟩ := h.exists_request.2.2
  have hexecuted : e.closeExecutedPrice p price = price := by
    simp [closeExecutedPrice, slippageFactor, hslippage]
  rw [closePosition_supported hp hcost h.divides]
  refine ⟨_, rfl, rfl, ?_⟩
  rw [closeResult, hexecuted, grossPnl_eq h]

/-- The client is shown the price at which the engine liquidates a position, and the profit that the
risk check goes by and that a close without slippage realizes, in an engine whose positions are all
created by opens. -/
theorem published_spec (e : PaperEngine)
    (hcreated : ∀ id p, e.positions.get? id = some p → Created id p) (prices : Dict String ℚ)
    (now ratio : ℚ) (venue : String) (id : String) (p : Position) (price : ℚ)
    (hp : e.positions.get? id = some p) (hprice : prices.get? p.symbol = some price) :
    (∃ liquidationPrice fills,
      (positionItem venue prices ratio p).liquidationPrice = some liquidationPrice ∧
      (e.checkStopsAndLiquidation prices now ratio).engine.tradeHistory = e.tradeHistory ++ fills ∧
      ((∃ f ∈ fills, f.positionId = id ∧ f.closeReason = .liquidation) ↔
        if p.isLong then price ≤ liquidationPrice else liquidationPrice ≤ price)) ∧
    (positionItem venue prices ratio p).unrealizedPnl = some (unrealizedPnlAt p price) ∧
    ∀ clientOrderId timestamp reason, ∃ r,
      (PaperEngine.closePosition { e with slippageBps := 0 } id clientOrderId price timestamp
        reason).1 = .ok r ∧
      r.success = true ∧ r.pnlGross = some (unrealizedPnlAt p price) := by
  have h : Created id p := hcreated id p hp
  refine ⟨?_, unrealizedPnl_positionItem h hprice venue ratio, fun clientOrderId timestamp reason => ?_⟩
  · obtain ⟨liquidationPrice, hpublished, hiff⟩ := liquidationReached_iff h ratio price
    obtain ⟨fills, hhistory, hfills⟩ := exists_liquidation_iff hcreated hp hprice now ratio
    exact ⟨liquidationPrice, fills, hpublished, hhistory, hfills.trans hiff⟩
  · exact pnlGross_of_no_slippage (e := { e with slippageBps := 0 }) h hp rfl clientOrderId price
      timestamp reason

/-- An engine with one position in BTC, five times leveraged, opened at 40000 without slippage. -/
def btcOpened : PaperEngine := ((init 10000 0).openPosition (btcOrder 1000) "c" 40000 0 "a").2

theorem created_btcOpened {id : String} {p : Position} (h : btcOpened.positions.get? id = some p) :
    Created id p := by
  have hpositions : btcOpened.positions =
      Dict.empty.set "paper_a" ((init 10000 0).newPosition (btcOrder 1000) 40000 0 "a") := by
    decide +kernel
  have hget := h
  rw [hpositions, Dict.get?_set] at hget
  split at hget
  · obtain rfl := Option.some.inj hget
    subst id
    exact ⟨⟨init 10000 0, btcOrder 1000, "c", 40000, 0, "a", _, by decide +kernel, by decide +kernel, h,
      rfl⟩, by decide +kernel, by decide +kernel, by decide +kernel⟩
  · cases hget

/-- The position is published with the liquidation price 34000, and is liquidated there. -/
theorem published_spec_btcOpened :
    ∃ fills, (btcOpened.checkStopsAndLiquidation (Dict.empty.set "BTC" 34000) 0
        (1 / 20)).engine.tradeHistory = btcOpened.tradeHistory ++ fills ∧
      ∃ f ∈ fills, f.positionId = "paper_a" ∧ f.closeReason = .liquidation := by
  have hp : btcOpened.positions.get? "paper_a" =
      some ((init 10000 0).newPosition (btcOrder 1000) 40000 0 "a") := by
    decide +kernel
  obtain ⟨⟨liquidationPrice, fills, hpublished, hhistory, hiff⟩, -⟩ :=
    published_spec btcOpened (fun _ _ h => created_btcOpened h) (Dict.empty.set "BTC" 34000) 0 (1 / 20)
      "paper" "paper_a" _ 34000 hp (by decide +kernel)
  have hcomputed : (positionItem "paper" (Dict.empty.set "BTC" 34000) (1 / 20)
      ((init 10000 0).newPosition (btcOrder 1000) 40000 0 "a")).liquidationPrice = some 34000 := by
    decide +kernel
  obtain rfl : liquidationPrice = 34000 := Option.some.inj (hpublished.symm.trans hcomputed)
  exact ⟨fills, hhistory, hiff.2 (by decide +kernel)⟩

end PaperEngine
