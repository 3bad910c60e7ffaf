/-
**The trading core: opening and closing an order, step by step.**

`open_order` and `close_order` are coroutines: they wait for the data layer, for the list of open
positions, for a price and for the venue, and in between other calls run.  A call is therefore a
program counter, and a step of it consumes the answer it was waiting for, changes what it shares
with the other calls — the engine of the paper venue, the trades open at Ostium and the file of
the Ostium adapter — and waits again.  The answers carry all that the environment decides:
prices, drawn identifiers, readings of clocks, exceptions of the clients.

What a step does between two answers is a function of its own, named after the part of the method
it stands for.

Main definitions:

* `OrderOpenRequest`, `OrderCloseRequest` — the validated requests;
* `World` — what the calls share, and the log of what the venues were asked;
* `TradingCore.openStep`, `TradingCore.closeStep` — one step of the two calls;
* `TradingCore.openTarget`, `assertNoOpenPositionForSymbol`, `World.openPositionStart`,
  `World.paperOpen`, `World.ostiumOpen` — the parts of an open.

Main results:

* `TradingCore.liveGuards_eq_ok`, `TradingCore.openTarget_eq_ok` — what is checked before a venue
  is asked;
* `assertNoOpenPositionForSymbol_eq_ok` — what the guard on positions checks;
* `TradingCore.openStep_cases` — the steps of an open, by what they are taken from;
* `TradingCore.closeStep_world` — what a step of a close does to what is shared.
-/

import Brokerage.OstiumAdapter
import Brokerage.PaperEngine

set_option relaxedAutoImplicit false
set_option autoImplicit false

/-! ### Requests -/

/-- The side of a request. -/
inductive PositionSide
  | long
  | short
  deriving DecidableEq

/-- The body of `POST /orders/open`, with the bounds its validation enforces. -/
structure OrderOpenRequest where
  venue : String
  symbol : String
  side : PositionSide
  collateral : ℚ
  leverage : ℚ
  slPrice : Option ℚ := none
  tpPrice : Option ℚ := none
  clientOrderId : Option String := none
  collateral_pos : 0 < collateral
  one_le_leverage : 1 ≤ leverage
  leverage_le : leverage ≤ 100
  deriving DecidableEq

/-- The body of `POST /orders/close`, with the bounds its validation enforces. -/
structure OrderCloseRequest where
  venue : String
  positionId : String
  percent : ℚ := 100
  clientCloseId : Option String := none
  percent_pos : 0 < percent
  percent_le : percent ≤ 100
  deriving DecidableEq

/-- The result of an open. -/
structure OrderOpenResult where
  success : Bool
  positionId : String
  orderId : String
  executedPrice : ℚ
  executedSize : ℚ
  txHash : String
  deriving DecidableEq

/-- The adapters the service can be wired with. -/
inductive AdapterId
  | paper
  | ostium
  deriving DecidableEq

/-! ### What the calls share -/

/-- What a venue was asked by an open, and what it did. -/
inductive VenueEvent
  /-- `open_position` of an adapter was called; `real` says that its orders are real. -/
  | openPosition (adapter : AdapterId) (real : Bool) (request : OrderOpenRequest)
  /-- `open_trade` of the Ostium client was called. -/
  | openTrade (request : OrderOpenRequest)
  /-- The venue opened a position. -/
  | executed (adapter : AdapterId) (request : OrderOpenRequest)
  deriving DecidableEq

/-- What the calls share: the paper engine, the Ostium adapter, the trades open at Ostium, and
the log of events. -/
structure World where
  engine : PaperEngine
  ostium : OstiumAdapter
  trades : Dict (ℕ × ℕ) OpenTradeInfo
  events : List VenueEvent := []
  deriving DecidableEq

/-- What the client's `open_trade` does: it raises, it opens a trade at a slot and reports a
receipt, or it opens one and raises before reporting it. -/
inductive OpenTradeAnswer
  | fails (text : String)
  | opened (slot : ℕ × ℕ) (receipt : OpenTradeReceipt)
  | lost (slot : ℕ × ℕ) (text : String)
  deriving DecidableEq

/-- What a waiting call is resumed with. -/
inductive Answer
  /-- The quality gate: the reason for a bad one. -/
  | gate (bad : Option String)
  /-- `get_open_trades`: the trades, or the text of an exception. -/
  | listing (getOpenTrades : Except String (List OpenTradeInfo))
  /-- A price: the mid price, or the text of an exception. -/
  | price (mid : Except String ℚ)
  /-- The paper engine opens: the rendered clock reading for the order id, the time stamp, and
  the digits drawn for the position. -/
  | engineOpen (now : String) (timestamp : ℚ) (uuid : String)
  | openTrade (answer : OpenTradeAnswer)
  /-- `get_trade_info` returns, or raises. -/
  | tradeInfo (failure : Option String)
  | engineClose (timestamp : ℚ)
  /-- `close_trade` returns, or raises. -/
  | closeTrade (failure : Option String)
  /-- The call goes on by itself. -/
  | resume
  deriving DecidableEq

namespace World

/-- The open positions an adapter lists. -/
def getOpenPositions (w : World) (adapter : AdapterId)
    (getOpenTrades : Except String (List OpenTradeInfo)) : Except CoreError (List Position) :=
  match adapter with
  | .paper => .ok w.engine.positions.values
  | .ostium => w.ostium.getOpenPositions getOpenTrades

/-- Whether the orders of an adapter are real: that of Ostium, with a client that is not the one
for tests. -/
def isReal (w : World) (adapter : AdapterId) : Bool :=
  adapter = .ostium ∧ w.ostium.client = some .ostiumClient

/-- Adding to the log. -/
def log (w : World) (events : List VenueEvent) : World := { w with events := w.events ++ events }

/-! ### The parts of an open -/

/-- What the adapter's `open_position` does before it asks for a price: it may raise, and it may
return at once with the position that the file remembers for the client order id. -/
def openPositionStart (w : World) (adapter : AdapterId) (req : OrderOpenRequest) :
    Except CoreError (Option OrderResult) :=
  match adapter with
  | .paper => .ok none
  | .ostium =>
      match w.ostium.client with
      | none => .error (.venueApi .clientNotStarted)
      | some _ =>
          match w.ostium.idempotent req.clientOrderId with
          | some existingPid =>
              .ok (some ⟨true, existingPid, some "", some 0, some 0, none, none, none, none, none,
                none, none, none⟩)
          | none =>
              match OstiumAdapter.pairOf req.symbol with
              | none => .error (.marketNotFound (Text.upper req.symbol))
              | some _ => .ok none

/-- The order the paper adapter gives to its engine. -/
def orderRequest (req : OrderOpenRequest) : OrderRequest where
  symbol := req.symbol
  side := if req.side = .long then .buy else .sell
  collateral := req.collateral
  leverage := req.leverage
  slPrice := req.slPrice
  tpPrice := req.tpPrice

/-- The order id the paper adapter uses: that of the client, or one made from the clock. -/
def paperOrderId (req : OrderOpenRequest) (now : String) : String :=
  match req.clientOrderId with
  | some cid => if cid = "" then "paper_" ++ req.symbol ++ "_" ++ now else cid
  | none => "paper_" ++ req.symbol ++ "_" ++ now

/-- The paper engine opens the position. -/
def paperOpen (w : World) (req : OrderOpenRequest) (mid : ℚ) (now : String) (timestamp : ℚ)
    (uuid : String) : OrderResult × World :=
  let (result, engine) :=
    w.engine.openPosition (orderRequest req) (paperOrderId req now) mid timestamp uuid
  (result, { w with engine }.log (if result.success then [.executed .paper req] else []))

/-- The trade that an order opens at a slot. -/
def tradeOf (req : OrderOpenRequest) (slot : ℕ × ℕ) (mid : ℚ) : OpenTradeInfo where
  pairId := slot.1
  tradeIndex := slot.2
  openPrice := mid
  tp := req.tpPrice.getD 0
  sl := req.slPrice.getD 0
  collateral := req.collateral
  leverage := ⌊req.leverage⌋
  isLong := req.side = .long

/-- The Ostium client is asked to open the trade. -/
def ostiumOpen (w : World) (req : OrderOpenRequest) (mid : ℚ) (answer : OpenTradeAnswer) :
    OrderResult × World :=
  match answer with
  | .fails text =>
      ({ success := false, positionId := "", errorMessage := some (.clientError text) },
        w.log [.openTrade req])
  | .lost slot text =>
      ({ success := false, positionId := "", errorMessage := some (.clientError text) },
        { w with trades := w.trades.set slot (tradeOf req slot mid) }.log
          [.openTrade req, .executed .ostium req])
  | .opened slot receipt =>
      ({ success := true
         positionId := OstiumAdapter.makePositionId receipt.pairId receipt.tradeIndex
         orderId := some receipt.txHash
         executedPrice := some receipt.openPrice
         executedSize := some (req.collateral * req.leverage)
         txHash := some receipt.txHash },
        { w with trades := w.trades.set slot (tradeOf req slot mid) }.log
          [.openTrade req, .executed .ostium req])

/-- The Ostium adapter remembers a position it opened for a client order id. -/
def saveIdempotent (w : World) (adapter : AdapterId) (req : OrderOpenRequest)
    (result : OrderResult) : World :=
  match adapter, req.clientOrderId with
  | .ostium, some cid =>
      if cid ≠ "" ∧ result.success then
        { w with ostium := w.ostium.saveIdempotencyEntry cid result.positionId }
      else w
  | _, _ => w

/-! ### The parts of a close -/

/-- The trade that an identifier names. -/
def trade? (w : World) (pairId tradeIndex : ℤ) : Option OpenTradeInfo :=
  if 0 ≤ pairId ∧ 0 ≤ tradeIndex then w.trades.get? (pairId.toNat, tradeIndex.toNat) else none

/-- The venue closes a trade. -/
def closeTrade (w : World) (pairId tradeIndex : ℤ) : World :=
  if 0 ≤ pairId ∧ 0 ≤ tradeIndex then
    { w with trades := w.trades.erase (pairId.toNat, tradeIndex.toNat) }
  else w

end World

/-- The single-position guard: no listed position has the symbol, in any (ASCII) letter case. -/
def assertNoOpenPositionForSymbol (positions : List Position) (symbol venue : String) :
    Except CoreError Unit :=
  let symUpper := Text.upper (Text.strip symbol)
  match positions.find? fun p => Text.upper (Text.strip p.symbol) = symUpper with
  | none => .ok ()
  | some p =>
      .error (.positionAlreadyOpen symUpper venue
        (if p.positionId = "" then "unknown" else p.positionId))

/-- The guard lets an order pass exactly when no listed position has its symbol. -/
theorem assertNoOpenPositionForSymbol_eq_ok {positions : List Position} {symbol venue : String} :
    assertNoOpenPositionForSymbol positions symbol venue = .ok () ↔
      ∀ p ∈ positions, Text.upper (Text.strip p.symbol) ≠ Text.upper (Text.strip symbol) := by
  unfold assertNoOpenPositionForSymbol
  dsimp only
  cases h : positions.find? fun p =>
      Text.upper (Text.strip p.symbol) = Text.upper (Text.strip symbol) with
  | none => simpa using List.find?_eq_none.1 h
  | some p =>
      simp only [reduceCtorEq, false_iff, not_forall, not_not]
      exact ⟨p, List.mem_of_find?_eq_some h, by simpa using List.find?_some h⟩

/-! ### Program counters -/

/-- Where an open waits. -/
inductive OpenPc
  /-- for the quality gate; -/
  | start
  /-- for the list of open positions of the guard; -/
  | listing (venue : String) (adapter : AdapterId)
  /-- to look through that list; -/
  | listed (venue : String) (adapter : AdapterId) (positions : List Position)
  /-- for a price; -/
  | pricing (venue : String) (adapter : AdapterId)
  /-- for the venue to open; -/
  | trading (venue : String) (adapter : AdapterId) (mid : ℚ)
  /-- to take up the result of the venue; -/
  | traded (venue : String) (adapter : AdapterId) (result : OrderResult)
  /-- for the list of open positions of the reconciliation. -/
  | reconciling (result : OrderOpenResult)
  /-- The call is over. -/
  | done (outcome : Except CoreError OrderOpenResult)
  deriving DecidableEq

/-- Where a close waits. -/
inductive ClosePc
  /-- to begin; -/
  | start
  /-- for a price, at the paper venue; -/
  | paperPricing (internalId : String) (position : Position)
  /-- for the paper engine; -/
  | paperClosing (internalId : String) (mid : ℚ)
  /-- for the trade of the identifier, at Ostium; -/
  | tradeInfo (pairId tradeIndex : ℤ)
  /-- for a price, at Ostium; -/
  | tradePricing (pairId tradeIndex : ℤ)
  /-- for the venue to close the trade; -/
  | tradeClosing (pairId tradeIndex : ℤ) (mid : ℚ)
  /-- for the list of open positions of the reconciliation. -/
  | reconciling (success : Bool)
  /-- The call is over. -/
  | done (outcome : Except CoreError Bool)
  deriving DecidableEq

/-- The venues of the service. -/
def KNOWN_VENUES : List String := ["paper", "ostium", "lighter", "gtrade"]

/-- The core: the settings, the adapters it is wired with, and whether there is a data layer. -/
structure TradingCore where
  cfg : TradingConfig
  adapterFactory : Option (String → Option AdapterId)
  hasReader : Bool := false
  knownVenues : List String := KNOWN_VENUES

namespace TradingCore

variable (core : TradingCore)

/-! ### Opening -/

/-- The adapter of a venue. -/
def getAdapter (venue : String) : Except CoreError AdapterId :=
  match core.adapterFactory with
  | none => .error .adapterNotAvailable
  | some factory =>
      match factory venue with
      | some adapter => .ok adapter
      | none =>
          .error (.venueNotConfigured venue (core.knownVenues.filter fun v => (factory v).isSome))

/-- The live guards, which are there in live mode only. -/
def liveGuards (req : OrderOpenRequest) : Except CoreError Unit :=
  if TradingConfig.isLive core.cfg.mode then do
    core.cfg.assertLiveTradingEnabled core.cfg.mode
    core.cfg.assertOrderCapsOk req.collateral req.leverage
    core.cfg.assertSymbolAllowed req.symbol
  else .ok ()

/-- The venue an order is opened at, and its adapter. -/
def openTarget (req : OrderOpenRequest) : Except CoreError (String × AdapterId) := do
  let effectiveVenue := core.cfg.resolveEffectiveVenue req.venue req.symbol
  core.liveGuards req
  let adapter ← core.getAdapter effectiveVenue
  pure (effectiveVenue, adapter)

/-- From the quality gate to the listing of the guard. -/
def afterGate (req : OrderOpenRequest) (bad : Option String) : OpenPc :=
  match if core.hasReader then bad else none with
  | some reason => .done (.error (.dataQualityGateBad req.symbol reason))
  | none =>
      match core.openTarget req with
      | .error e => .done (.error e)
      | .ok (venue, adapter) => .listing venue adapter

/-- The identifier that is returned: one of the paper venue gets its prefix. -/
def normalizePositionId (venue pid : String) : String :=
  if pid ≠ "" ∧ venue = "paper" ∧ ':' ∉ pid.toList then "paper:" ++ pid else pid

/-- The result of an open, from that of the adapter. -/
def openResult (venue : String) (result : OrderResult) : OrderOpenResult where
  success := result.success
  positionId := normalizePositionId venue result.positionId
  orderId := result.orderId.getD ""
  executedPrice := result.executedPrice.getD 0
  executedSize := result.executedSize.getD 0
  txHash := result.txHash.getD ""

/-- From the list of open positions to the price. -/
def afterGuard (req : OrderOpenRequest) (w : World) (venue : String) (adapter : AdapterId)
    (positions : List Position) : World × OpenPc :=
  match assertNoOpenPositionForSymbol positions req.symbol venue with
  | .error e => (w, .done (.error e))
  | .ok () =>
      let w' := w.log [.openPosition adapter (w.isReal adapter) req]
      match w.openPositionStart adapter req with
      | .error e => (w', .done (.error e))
      | .ok (some result) => (w', .reconciling (openResult venue result))
      | .ok none => (w', .pricing venue adapter)

/-- From the price to the venue.  Without a price the paper adapter returns a failed result, and
the Ostium adapter raises. -/
def afterPrice (req : OrderOpenRequest) (venue : String) (adapter : AdapterId)
    (mid : Except String ℚ) : OpenPc :=
  match adapter, mid with
  | .paper, .error text => .done (.error (.raised text))
  | .paper, .ok mid =>
      if mid ≤ 0 then
        .traded venue .paper ⟨false, "", none, none, none, none, none, none, none, none, none, none,
          some (.noPrice req.symbol)⟩
      else .trading venue .paper mid
  | .ostium, .error text => .done (.error (.venueApi (.noPrice (Text.upper req.symbol) text)))
  | .ostium, .ok mid =>
      if mid ≤ 0 then .done (.error (.venueApi (.invalidPrice (Text.upper req.symbol) mid)))
      else .trading venue .ostium mid

/-- One step of an open, if the answer is the one it waits for. -/
def openStep (req : OrderOpenRequest) (w : World) : OpenPc → Answer → Option (World × OpenPc)
  | .start, .gate bad => some (w, core.afterGate req bad)
  | .listing venue adapter, .listing getOpenTrades =>
      match w.getOpenPositions adapter getOpenTrades with
      | .error e => some (w, .done (.error e))
      | .ok positions => some (w, .listed venue adapter positions)
  | .listed venue adapter positions, .resume => some (afterGuard req w venue adapter positions)
  | .pricing venue adapter, .price mid => some (w, afterPrice req venue adapter mid)
  | .trading venue .paper mid, .engineOpen now timestamp uuid =>
      let (result, w') := w.paperOpen req mid now timestamp uuid
      some (w', .traded venue .paper result)
  | .trading venue .ostium mid, .openTrade answer =>
      let (result, w') := w.ostiumOpen req mid answer
      some (w', .traded venue .ostium result)
  | .traded venue adapter result, .resume =>
      some (w.saveIdempotent adapter req result, .reconciling (openResult venue result))
  | .reconciling result, .listing _ => some (w, .done (.ok result))
  | _, _ => none

/-! ### Closing -/

/-- The adapter a position is closed with, and the identifier it is given. -/
def closeTarget (req : OrderCloseRequest) : Except CoreError (AdapterId × String) := do
  if TradingConfig.isLive core.cfg.mode then
    core.cfg.assertLiveTradingEnabled core.cfg.mode
  let adapter ← core.getAdapter req.venue
  pure (adapter, if ':' ∉ req.positionId.toList ∧ req.venue = "lighter" then
    "lighter:" ++ req.positionId else req.positionId)

/-- The identifier the paper engine knows a position by. -/
def internalId (positionId : String) : String :=
  if Text.startsWith positionId "paper:" then Text.dropChars 6 positionId else positionId

/-- What the adapter's `close_position` does before it waits. -/
def closePositionStart (w : World) (adapter : AdapterId) (positionId : String) : ClosePc :=
  match adapter with
  | .paper =>
      match w.engine.positions.get? (internalId positionId) with
      | none => .reconciling false
      | some position => .paperPricing (internalId positionId) position
  | .ostium =>
      match w.ostium.client with
      | none => .done (.error (.venueApi .clientNotStarted))
      | some _ =>
          match OstiumAdapter.parsePositionId positionId with
          | .error e => .done (.error e)
          | .ok (pairId, tradeIndex) => .tradeInfo pairId tradeIndex

/-- From the trade of an identifier to the price: a trade that is not open counts as closed, and
an exception of the client is passed over. -/
def afterTradeInfo (w : World) (pairId tradeIndex : ℤ) (failure : Option String) : ClosePc :=
  if failure = none ∧ w.trade? pairId tradeIndex = none then .reconciling true
  else if OstiumAdapter.hasPrice pairId then .tradePricing pairId tradeIndex
  else .done (.error (.venueApi (.unknownPair pairId)))

/-- The paper engine closes the position. -/
def paperClose (w : World) (internalId : String) (mid timestamp : ℚ) : World × ClosePc :=
  match w.engine.closePosition internalId ("close_" ++ internalId) mid timestamp .manual with
  | (.ok result, engine) => ({ w with engine }, .reconciling result.success)
  | (.error _, engine) => ({ w with engine }, .done (.error (.raised "float division by zero")))

/-- One step of a close, if the answer is the one it waits for. -/
def closeStep (req : OrderCloseRequest) (w : World) : ClosePc → Answer → Option (World × ClosePc)
  | .start, .resume =>
      match core.closeTarget req with
      | .error e => some (w, .done (.error e))
      | .ok (adapter, positionId) => some (w, closePositionStart w adapter positionId)
  | .paperPricing _ _, .price (.error text) => some (w, .done (.error (.raised text)))
  | .paperPricing internalId position, .price (.ok mid) =>
      some (w, .paperClosing internalId (if mid = 0 then position.openPrice else mid))
  | .paperClosing internalId mid, .engineClose timestamp =>
      some (paperClose w internalId mid timestamp)
  | .tradeInfo pairId tradeIndex, .tradeInfo failure =>
      some (w, afterTradeInfo w pairId tradeIndex failure)
  | .tradePricing _ _, .price (.error text) =>
      some (w, .done (.error (.venueApi (.noClosePrice text))))
  | .tradePricing pairId tradeIndex, .price (.ok mid) =>
      some (w, .tradeClosing pairId tradeIndex mid)
  | .tradeClosing _ _ _, .closeTrade (some _) => some (w, .reconciling false)
  | .tradeClosing pairId tradeIndex _, .closeTrade none =>
      some (w.closeTrade pairId tradeIndex, .reconciling true)
  | .reconciling success, .listing _ => some (w, .done (.ok success))
  | _, _ => none

/-! ### What is checked before a venue is asked -/

/-- All live guards hold for an order. -/
def LiveGuardsHold (cfg : TradingConfig) (req : OrderOpenRequest) : Prop :=
  cfg.enableLiveTrading = true ∧ cfg.WithinCaps req.collateral req.leverage ∧
    cfg.SymbolAllowed req.symbol

variable {core}

/-- The live guards let an order pass exactly when the mode is not live or all of them hold. -/
theorem liveGuards_eq_ok {req : OrderOpenRequest} :
    core.liveGuards req = .ok () ↔
      (TradingConfig.isLive core.cfg.mode = true → LiveGuardsHold core.cfg req) := by
  rw [liveGuards, LiveGuardsHold, ← TradingConfig.assertOrderCapsOk_eq_ok,
    ← TradingConfig.assertSymbolAllowed_eq_ok]
  by_cases hlive : TradingConfig.isLive core.cfg.mode = true
  · have henabled : core.cfg.assertLiveTradingEnabled core.cfg.mode = .ok () ↔
        core.cfg.enableLiveTrading = true := by
      rw [TradingConfig.assertLiveTradingEnabled_eq_ok, hlive, eq_self, true_imp_iff]
    rw [if_pos hlive, ← henabled]
    cases core.cfg.assertLiveTradingEnabled core.cfg.mode with
    | error e => simp [bind, Except.bind, hlive]
    | ok u =>
        cases core.cfg.assertOrderCapsOk req.collateral req.leverage with
        | error e => simp [bind, Except.bind, hlive]
        | ok u => simp [bind, Except.bind, hlive]
  · simp [hlive]

/-- An order reaches an adapter exactly when the live guards let it pass and its effective venue
has one. -/
theorem openTarget_eq_ok {req : OrderOpenRequest} {venue : String} {adapter : AdapterId} :
    core.openTarget req = .ok (venue, adapter) ↔
      core.liveGuards req = .ok () ∧ core.cfg.resolveEffectiveVenue req.venue req.symbol = venue ∧
        core.getAdapter venue = .ok adapter := by
  rw [openTarget]
  cases core.liveGuards req with
  | error e => simp [bind, Except.bind]
  | ok u =>
      cases h : core.getAdapter (core.cfg.resolveEffectiveVenue req.venue req.symbol) with
      | error e =>
          simp only [bind, Except.bind, reduceCtorEq, true_and, false_iff, not_and]
          rintro rfl
          simp [h]
      | ok a =>
          simp only [bind, Except.bind, pure, Except.pure, Except.ok.injEq, Prod.mk.injEq,
            true_and]
          constructor
          · rintro ⟨rfl, rfl⟩
            exact ⟨rfl, h⟩
          · rintro ⟨rfl, ha⟩
            exact ⟨rfl, Except.ok.inj (h.symm.trans ha)⟩

/-! ### What a step can do -/

variable (core) in
/-- The steps of an open, by the program counter they are taken from. -/
inductive OpenStep (req : OrderOpenRequest) (w : World) :
    OpenPc → Answer → World → OpenPc → Prop
  | gate (bad : Option String) : OpenStep req w .start (.gate bad) w (core.afterGate req bad)
  | listingFails {venue adapter e} (g) (h : w.getOpenPositions adapter g = .error e) :
      OpenStep req w (.listing venue adapter) (.listing g) w (.done (.error e))
  | listing {venue adapter positions} (g) (h : w.getOpenPositions adapter g = .ok positions) :
      OpenStep req w (.listing venue adapter) (.listing g) w (.listed venue adapter positions)
  | guard (venue adapter positions) :
      OpenStep req w (.listed venue adapter positions) .resume
        (afterGuard req w venue adapter positions).1 (afterGuard req w venue adapter positions).2
  | price (venue adapter mid) :
      OpenStep req w (.pricing venue adapter) (.price mid) w (afterPrice req venue adapter mid)
  | paperOpen (venue mid now timestamp uuid) :
      OpenStep req w (.trading venue .paper mid) (.engineOpen now timestamp uuid)
        (w.paperOpen req mid now timestamp uuid).2
        (.traded venue .paper (w.paperOpen req mid now timestamp uuid).1)
  | ostiumOpen (venue mid answer) :
      OpenStep req w (.trading venue .ostium mid) (.openTrade answer)
        (w.ostiumOpen req mid answer).2 (.traded venue .ostium (w.ostiumOpen req mid answer).1)
  | save (venue adapter result) :
      OpenStep req w (.traded venue adapter result) .resume (w.saveIdempotent adapter req result)
        (.reconciling (openResult venue result))
  | reconciled (result g) :
      OpenStep req w (.reconciling result) (.listing g) w (.done (.ok result))

theorem openStep_cases {req : OrderOpenRequest} {w w' : World} {pc pc' : OpenPc} {a : Answer}
    (h : core.openStep req w pc a = some (w', pc')) : OpenStep core req w pc a w' pc' := by
  unfold openStep at h
  split at h
  · cases h
    exact .gate _
  · split at h
    · cases h
      exact .listingFails _ ‹_›
    · cases h
      exact .listing _ ‹_›
  · rename_i venue adapter positions
    have hstep : OpenStep core req w (.listed venue adapter positions) .resume _ _ :=
      .guard venue adapter positions
    rwa [Option.some.inj h] at hstep
  · cases h
    exact .price _ _ _
  · cases h
    exact .paperOpen _ _ _ _ _
  · cases h
    exact .ostiumOpen _ _ _
  · cases h
    exact .save _ _ _
  · cases h
    exact .reconciled _ _
  · cases h

/-- The adapter returns at once only with a position that the file of Ostium remembers. -/
theorem openPositionStart_eq_some {w : World} {adapter : AdapterId} {req : OrderOpenRequest}
    {result : OrderResult} (h : w.openPositionStart adapter req = .ok (some result)) :
    adapter = .ostium ∧ w.ostium.client ≠ none ∧
      w.ostium.idempotent req.clientOrderId = some result.positionId ∧ result.success = true := by
  unfold World.openPositionStart at h
  split at h
  · cases h
  · split at h
    · cases h
    · rename_i client hclient
      split at h
      · rename_i existingPid hpid
        cases h
        exact ⟨rfl, hclient ▸ Option.some_ne_none client, hpid, rfl⟩
      · split at h <;> cases h

/-- The Ostium adapter goes on to the price if it is started and its file remembers nothing. -/
theorem openPositionStart_eq_none {w : World} {req : OrderOpenRequest}
    (h : w.openPositionStart .ostium req = .ok none) :
    w.ostium.client ≠ none ∧ w.ostium.idempotent req.clientOrderId = none := by
  unfold World.openPositionStart at h
  dsimp only at h
  split at h
  · cases h
  · rename_i client hclient
    split at h
    · cases h
    · exact ⟨hclient ▸ Option.some_ne_none client, ‹_›⟩

/-- The guard on positions leaves what is shared alone, or the adapter is called. -/
theorem afterGuard_world (req : OrderOpenRequest) (w : World) (venue : String)
    (adapter : AdapterId) (positions : List Position) :
    (afterGuard req w venue adapter positions).1 = w ∨
      (afterGuard req w venue adapter positions).1 =
        w.log [.openPosition adapter (w.isReal adapter) req] := by
  unfold afterGuard
  split
  · exact Or.inl rfl
  · right
    dsimp only
    split <;> rfl

/-- A step of a close leaves what is shared alone, or closes a position of the paper engine, or a
trade at Ostium. -/
theorem closeStep_world {req : OrderCloseRequest} {w w' : World} {pc pc' : ClosePc} {a : Answer}
    (h : core.closeStep req w pc a = some (w', pc')) :
    w' = w ∨
      (∃ id mid timestamp, w' = { w with
        engine := (w.engine.closePosition id ("close_" ++ id) mid timestamp .manual).2 }) ∨
      ∃ pairId tradeIndex, w' = w.closeTrade pairId tradeIndex := by
  unfold closeStep at h
  split at h
  case h_1 => split at h <;> · cases h; exact Or.inl rfl
  case h_4 internalId mid timestamp =>
      refine Or.inr (Or.inl ⟨internalId, mid, timestamp, ?_⟩)
      have hfst : (paperClose w internalId mid timestamp).1 = w' :=
        congrArg Prod.fst (Option.some.inj h)
      rw [← hfst, paperClose]
      split <;> simp only [*]
  case h_9 => cases h; exact Or.inr (Or.inr ⟨_, _, rfl⟩)
  all_goals first | (cases h; exact Or.inl rfl) | cases h

end TradingCore

namespace World

@[simp] theorem log_events (w : World) (events : List VenueEvent) :
    (w.log events).events = w.events ++ events := rfl

@[simp] theorem log_ostium (w : World) (events : List VenueEvent) :
    (w.log events).ostium = w.ostium := rfl

@[simp] theorem log_engine (w : World) (events : List VenueEvent) :
    (w.log events).engine = w.engine := rfl

@[simp] theorem closeTrade_events (w : World) (pairId tradeIndex : ℤ) :
    (w.closeTrade pairId tradeIndex).events = w.events := by
  unfold closeTrade
  split <;> rfl

@[simp] theorem closeTrade_engine (w : World) (pairId tradeIndex : ℤ) :
    (w.closeTrade pairId tradeIndex).engine = w.engine := by
  unfold closeTrade
  split <;> rfl

@[simp] theorem saveIdempotent_events (w : World) (adapter : AdapterId) (req : OrderOpenRequest)
    (result : OrderResult) : (w.saveIdempotent adapter req result).events = w.events := by
  unfold saveIdempotent
  split
  · split <;> rfl
  · rfl

@[simp] theorem saveIdempotent_engine (w : World) (adapter : AdapterId) (req : OrderOpenRequest)
    (result : OrderResult) : (w.saveIdempotent adapter req result).engine = w.engine := by
  unfold saveIdempotent
  split
  · split <;> rfl
  · rfl

theorem paperOpen_engine (w : World) (req : OrderOpenRequest) (mid : ℚ) (now : String)
    (timestamp : ℚ) (uuid : String) :
    (w.paperOpen req mid now timestamp uuid).2.engine =
      (w.engine.openPosition (orderRequest req) (paperOrderId req now) mid timestamp uuid).2 := rfl

theorem paperOpen_trades (w : World) (req : OrderOpenRequest) (mid : ℚ) (now : String)
    (timestamp : ℚ) (uuid : String) :
    (w.paperOpen req mid now timestamp uuid).2.trades = w.trades := rfl

theorem paperOpen_ostium (w : World) (req : OrderOpenRequest) (mid : ℚ) (now : String)
    (timestamp : ℚ) (uuid : String) :
    (w.paperOpen req mid now timestamp uuid).2.ostium = w.ostium := rfl

theorem paperOpen_events (w : World) (req : OrderOpenRequest) (mid : ℚ) (now : String)
    (timestamp : ℚ) (uuid : String) :
    (w.paperOpen req mid now timestamp uuid).2.events =
      w.events ++ if (w.paperOpen req mid now timestamp uuid).1.success then [.executed .paper req]
        else [] := rfl

@[simp] theorem ostiumOpen_engine (w : World) (req : OrderOpenRequest) (mid : ℚ)
    (answer : OpenTradeAnswer) : (w.ostiumOpen req mid answer).2.engine = w.engine := by
  cases answer <;> rfl

@[simp] theorem ostiumOpen_ostium (w : World) (req : OrderOpenRequest) (mid : ℚ)
    (answer : OpenTradeAnswer) : (w.ostiumOpen req mid answer).2.ostium = w.ostium := by
  cases answer <;> rfl

end World
