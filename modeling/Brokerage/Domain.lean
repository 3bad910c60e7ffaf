/-
**Positions, orders and fills.**

The records that the execution engine, the venue adapters and the order services exchange.  The
texts of the error messages are kept as constructors that carry the values the texts interpolate.

Main definitions:

* `Position`, `Position.positionId` — an open position and its identifier;
* `OrderRequest`, `OrderResult`, `OrderError` — an order, its outcome and the reasons of failure;
* `TradeFill`, `CloseReason` — an entry of the trade history.
-/

import Mathlib

set_option relaxedAutoImplicit false
set_option autoImplicit false

/-- The direction of an order: `buy` opens a long position. -/
inductive OrderSide
  | buy
  | sell
  deriving DecidableEq

/-- Why a position was closed. -/
inductive CloseReason
  | manual
  | stopLoss
  | takeProfit
  | liquidation
  | ttl
  deriving DecidableEq

/-- A request to open a position. -/
structure OrderRequest where
  symbol : String
  side : OrderSide
  collateral : ℚ
  leverage : ℚ
  slPrice : Option ℚ := none
  tpPrice : Option ℚ := none
  deriving DecidableEq

/-- The message of an order that was not executed. -/
inductive OrderError
  /-- `Insufficient balance: ${balance} < ${collateral}` -/
  | insufficientBalance (balance collateral : ℚ)
  /-- `Unsupported symbol for gTrade cost model: {symbol}` -/
  | unsupportedSymbol (symbol : String)
  /-- `Position {positionId} not found` -/
  | positionNotFound (positionId : String)
  /-- `No price for {symbol}` -/
  | noPrice (symbol : String)
  /-- The text of an exception of the venue client. -/
  | clientError (text : String)
  deriving DecidableEq

/-- The outcome of executing an order. -/
structure OrderResult where
  success : Bool
  positionId : String
  orderId : Option String := none
  executedPrice : Option ℚ := none
  executedSize : Option ℚ := none
  fee : Option ℚ := none
  slippage : Option ℚ := none
  realizedPnl : Option ℚ := none
  realizedPnlPercent : Option ℚ := none
  pnlGross : Option ℚ := none
  pnlGrossPercent : Option ℚ := none
  txHash : Option String := none
  errorMessage : Option OrderError := none
  deriving DecidableEq

/-- An open position.  `openTime` is the reading of the wall clock in the engine's zone, in
seconds, and `notional` is the position size, which the constructor of the source sets to
`collateral × leverage` when it is not given. -/
structure Position where
  pairId : ℕ
  tradeIndex : ℕ
  symbol : String
  isLong : Bool
  collateral : ℚ
  leverage : ℚ
  openPrice : ℚ
  currentPrice : ℚ
  slPrice : Option ℚ := none
  tpPrice : Option ℚ := none
  openTime : ℚ := 0
  notional : ℚ := collateral * leverage
  venuePositionId : Option String := none
  markPrice : Option ℚ := none
  unrealizedPnl : Option ℚ := none
  deriving DecidableEq

/-- The identifier of a position: the venue's own one if there is one. -/
def Position.positionId (p : Position) : String :=
  match p.venuePositionId with
  | some id => if id = "" then toString p.pairId ++ ":" ++ toString p.tradeIndex else id
  | none => toString p.pairId ++ ":" ++ toString p.tradeIndex

/-- An executed close, as recorded in the trade history. -/
structure TradeFill where
  symbol : String
  side : OrderSide
  price : ℚ
  size : ℚ
  fee : ℚ
  timestamp : ℚ
  orderId : String
  positionId : String
  closeReason : CloseReason
  openTs : ℚ
  openPrice : ℚ
  closePrice : ℚ
  deriving DecidableEq
