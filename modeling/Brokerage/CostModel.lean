/-
**Fees of the paper venue.**

The fee of an order is a number of basis points of its position size `collateral × leverage`.  The
table of fees per symbol is `CostModel.forGtradeSymbol`; a symbol outside it is refused, which is
the `ValueError` of the source and the value `none` here.

Amounts are rational numbers: the module models the arithmetic the source intends, without the
rounding of machine floats.

Main definitions:

* `CostModel` — the fees of one symbol, in basis points;
* `CostModel.calculateOpenFees`, `CostModel.calculateCloseFees` — the fees of an open and a close;
* `CostModel.forGtradeSymbol` — the fee table.

Main results:

* `CostModel.totalEntryCost_zero`, `CostModel.totalExitCost_zero` — a position of size zero costs
  nothing.
-/

import Brokerage.Text

set_option relaxedAutoImplicit false
set_option autoImplicit false

/-- Basis points: 100 bps are 1%. -/
def BASIS_POINTS_DIVISOR : ℚ := 10000

/-- The borrowing fee, not yet computed by the program. -/
def BORROWING_FEE_PLACEHOLDER : ℚ := 0

/-- The costs of trading one symbol, in basis points of the position size. -/
structure CostModel where
  symbol : String
  spreadBps : ℚ
  openFeeBps : ℚ
  closeFeeBps : ℚ
  priceImpactBps : ℚ := 0
  borrowingFeeBps : ℚ := 0
  deriving DecidableEq

namespace CostModel

/-- The breakdown of the fees of an open. -/
structure OpenFees where
  spreadCost : ℚ
  openFee : ℚ
  priceImpactCost : ℚ
  totalEntryCost : ℚ
  deriving DecidableEq

/-- The breakdown of the fees of a close. -/
structure CloseFees where
  closeFee : ℚ
  borrowingCost : ℚ
  totalExitCost : ℚ
  deriving DecidableEq

/-- The fees of opening a position of the given size. -/
def calculateOpenFees (m : CostModel) (positionSize : ℚ) : OpenFees :=
  let spreadCost := positionSize * m.spreadBps / BASIS_POINTS_DIVISOR
  let openFee := positionSize * m.openFeeBps / BASIS_POINTS_DIVISOR
  let priceImpactCost := positionSize * m.priceImpactBps / 10000
  { spreadCost, openFee, priceImpactCost,
    totalEntryCost := spreadCost + openFee + priceImpactCost }

/-- The fees of closing a position of the given size. -/
def calculateCloseFees (m : CostModel) (positionSize : ℚ) : CloseFees :=
  let closeFee := positionSize * m.closeFeeBps / BASIS_POINTS_DIVISOR
  let borrowingCost := BORROWING_FEE_PLACEHOLDER
  { closeFee, borrowingCost, totalExitCost := closeFee + borrowingCost }

/-- The official fees of a symbol, in any (ASCII) letter case; `none` for an unsupported one. -/
def forGtradeSymbol (symbol : String) : Option CostModel :=
  let symbol := Text.upper symbol
  if symbol = "EURUSD" then
    some { symbol, spreadBps := 1, openFeeBps := 6 / 5, closeFeeBps := 6 / 5 }
  else if symbol = "XAUUSD" then
    some { symbol, spreadBps := 1, openFeeBps := 5, closeFeeBps := 5 }
  else if symbol = "ETH" ∨ symbol = "BTC" ∨ symbol = "WETH" then
    some { symbol, spreadBps := 1, openFeeBps := 5, closeFeeBps := 5 }
  else
    none

@[simp] theorem totalEntryCost_zero (m : CostModel) :
    (m.calculateOpenFees 0).totalEntryCost = 0 := by
  simp [calculateOpenFees]

@[simp] theorem totalExitCost_zero (m : CostModel) :
    (m.calculateCloseFees 0).totalExitCost = 0 := by
  simp [calculateCloseFees, BORROWING_FEE_PLACEHOLDER]

end CostModel
