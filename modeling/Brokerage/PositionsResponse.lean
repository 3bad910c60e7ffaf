/-
**The positions a client sees.**

`GET /positions` maps the open positions of an adapter to items with an identifier, the mark price
and the liquidation price.  The identifier is the one of the venue, with the name of the venue in
front unless it is there already.

A position is open in the paper engine under an identifier, or at Ostium at a slot.  Behind the
items stand a few facts about every state the service can reach: the paper engine files a position
under the identifier the position has, its price and collateral are not zero, the trades are at
known pairs, and the file of the Ostium adapter holds identifiers of trades.

Main definitions:

* `positionItem`, `mapPositionsResponse` — the items of the response;
* `PositionRef`, `World.IsOpen` — a position of either venue, and that it is open;
* `World.Sound` — the facts about reachable states.

Main results:

* `TradingCore.sound_of_exec` — the facts hold in every state that calls can reach.
-/

import Brokerage.TradingCalls

set_option relaxedAutoImplicit false
set_option autoImplicit false

/-! ### The response -/

/-- An item of the response. -/
structure PositionItem where
  positionId : String
  symbol : String
  side : PositionSide
  size : ℚ
  notional : ℚ
  collateral : ℚ
  leverage : ℚ
  openPrice : ℚ
  markPrice : Option ℚ
  unrealizedPnl : Option ℚ
  slPrice : Option ℚ
  tpPrice : Option ℚ
  liquidationPrice : Option ℚ
  deriving DecidableEq

/-- The price at which the equity of a position is down to its maintenance margin. -/
def computeLiquidationPrice (openPrice notional collateral : ℚ) (isLong : Bool)
    (maintenanceMarginRatio : ℚ) : Option ℚ :=
  if notional ≤ 0 ∨ openPrice ≤ 0 then none
  else
    let size := notional / openPrice
    let maintenanceMargin := notional * maintenanceMarginRatio
    some (if isLong then openPrice + (maintenanceMargin - collateral) / size
      else openPrice - (maintenanceMargin - collateral) / size)

/-- The identifier of a position in the response: that of the venue, or the pair if it has none,
with the venue in front if it is not there. -/
def responsePositionId (venue : String) (p : Position) : String :=
  let venuePositionId := p.venuePositionId.getD ""
  if Text.startsWith (Text.lower venuePositionId) (Text.lower venue ++ ":") then venuePositionId
  else venue ++ ":" ++ (if venuePositionId = "" then toString p.pairId else venuePositionId)

/-- The profit of a position at the mark price, unless the position has one of its own. -/
def responsePnl (p : Position) (size : ℚ) (markPrice : Option ℚ) : Option ℚ :=
  match p.unrealizedPnl, markPrice with
  | some pnl, _ => some pnl
  | none, none => none
  | none, some mark =>
      if p.openPrice = 0 then none
      else some (if p.isLong then (mark - p.openPrice) * size else (p.openPrice - mark) * size)

/-- The item of a position. -/
def positionItem (venue : String) (markPrices : Dict String ℚ) (maintenanceMarginRatio : ℚ)
    (p : Position) : PositionItem :=
  let size := p.notional / (if p.openPrice = 0 then 1 else p.openPrice)
  { positionId := responsePositionId venue p
    symbol := p.symbol
    side := if p.isLong then .long else .short
    size
    notional := p.notional
    collateral := p.collateral
    leverage := p.leverage
    openPrice := p.openPrice
    markPrice := markPrices.get? p.symbol
    unrealizedPnl := responsePnl p size (markPrices.get? p.symbol)
    slPrice := p.slPrice
    tpPrice := p.tpPrice
    liquidationPrice :=
      computeLiquidationPrice p.openPrice p.notional p.collateral p.isLong maintenanceMarginRatio }

/-- The response for some positions. -/
def mapPositionsResponse (venue : String) (positions : List Position) (markPrices : Dict String ℚ)
    (maintenanceMarginRatio : ℚ) : List PositionItem :=
  positions.map (positionItem venue markPrices maintenanceMarginRatio)

/-! ### Positions of either venue -/

/-- A position: in the paper engine under an identifier, or at Ostium at a slot. -/
inductive PositionRef
  | paper (id : String)
  | trade (slot : ℕ × ℕ)
  deriving DecidableEq

/-- The position is open. -/
def World.IsOpen (w : World) : PositionRef → Prop
  | .paper id => w.engine.positions.contains id = true
  | .trade slot => w.trades.contains slot = true

/-- The adapter of the position is started. -/
def World.Serves (w : World) : PositionRef → Prop
  | .paper _ => True
  | .trade _ => w.ostium.client ≠ none

/-- The position that an adapter lists. -/
def Position.ref (p : Position) : AdapterId → PositionRef
  | .paper => .paper p.positionId
  | .ostium => .trade (p.pairId, p.tradeIndex)

/-! ### Reachable states -/

/-- A position that the paper engine can close. -/
structure Position.Closable (p : Position) : Prop where
  collateral : p.collateral ≠ 0
  openPrice : p.openPrice ≠ 0
  costModel : CostModel.forGtradeSymbol p.symbol ≠ none

/-- The slippage is less than the whole price, and a position is filed under its identifier and
can be closed. -/
structure PaperEngine.Sound (e : PaperEngine) : Prop where
  slippage_nonneg : 0 ≤ e.slippageBps
  slippage_lt : e.slippageBps < BASIS_POINTS_DIVISOR
  filed : ∀ id p, e.positions.get? id = some p → p.venuePositionId = some id
  named : ∀ id p, e.positions.get? id = some p → ∃ uuid, id = PaperEngine.newPositionId uuid
  closable : ∀ id p, e.positions.get? id = some p → p.Closable

/-- What holds in every state the calls can reach. -/
structure World.Sound (w : World) : Prop where
  engine : w.engine.Sound
  known : ∀ slot t, w.trades.get? slot = some t → slot.1 ∈ OstiumAdapter.KNOWN_PAIR_IDS
  slot : ∀ slot t, w.trades.get? slot = some t → (t.pairId, t.tradeIndex) = slot
  file : ∀ line ∈ w.ostium.idempotencyFile,
    ∃ slot : ℕ × ℕ, line.2 = OstiumAdapter.makePositionId slot.1 slot.2

theorem PaperEngine.Sound.slippageFactor {e : PaperEngine} (h : e.Sound) :
    0 ≤ e.slippageFactor ∧ e.slippageFactor < 1 := by
  have hdivisor : (0 : ℚ) < BASIS_POINTS_DIVISOR := by norm_num [BASIS_POINTS_DIVISOR]
  exact ⟨div_nonneg h.slippage_nonneg hdivisor.le, (div_lt_one hdivisor).2 h.slippage_lt⟩

/-- With slippage of less than the whole price, an executed price is not zero. -/
theorem PaperEngine.Sound.openExecutedPrice_ne_zero {e : PaperEngine} (h : e.Sound)
    {currentPrice : ℚ} (hprice : 0 < currentPrice) (side : OrderSide) :
    e.openExecutedPrice side currentPrice ≠ 0 := by
  obtain ⟨hnonneg, hlt⟩ := h.slippageFactor
  cases side with
  | buy => exact (mul_pos hprice (by linarith)).ne'
  | sell => exact (mul_pos hprice (by linarith)).ne'

/-- An open keeps the engine sound. -/
theorem PaperEngine.Sound.openPosition {e : PaperEngine} (h : e.Sound) {request : OrderRequest}
    (hcollateral : request.collateral ≠ 0) {currentPrice : ℚ} (hprice : 0 < currentPrice)
    (clientOrderId : String) (timestamp : ℚ) (uuid : String) :
    (e.openPosition request clientOrderId currentPrice timestamp uuid).2.Sound := by
  unfold PaperEngine.openPosition
  dsimp only
  split
  · exact h
  · split
    · exact h
    · rename_i costModel hcost
      have hnew : (e.newPosition request currentPrice timestamp uuid).Closable :=
        ⟨hcollateral, h.openExecutedPrice_ne_zero hprice _, by
          rw [PaperEngine.newPosition, hcost]
          exact Option.some_ne_none _⟩
      refine ⟨h.slippage_nonneg, h.slippage_lt, fun id p hp => ?_, fun id p hp => ?_,
        fun id p hp => ?_⟩ <;> rw [Dict.get?_set] at hp <;> split at hp
      · cases hp
        rw [‹id = _›]
        rfl
      · exact h.filed id p hp
      · exact ⟨uuid, ‹_›⟩
      · exact h.named id p hp
      · cases hp
        exact hnew
      · exact h.closable id p hp

/-- A sound engine stays sound when positions go. -/
theorem PaperEngine.Sound.of_subset {e e' : PaperEngine} (h : e.Sound)
    (hslippage : e'.slippageBps = e.slippageBps)
    (hsub : ∀ id p, e'.positions.get? id = some p → e.positions.get? id = some p) : e'.Sound where
  slippage_nonneg := hslippage ▸ h.slippage_nonneg
  slippage_lt := hslippage ▸ h.slippage_lt
  filed id p hp := h.filed id p (hsub id p hp)
  named id p hp := h.named id p (hsub id p hp)
  closable id p hp := h.closable id p (hsub id p hp)

/-- What a close of a position that can be closed does: it succeeds, and the position goes. -/
theorem PaperEngine.closePosition_of_closable {e : PaperEngine} {id : String} {p : Position}
    (hp : e.positions.get? id = some p) (hclosable : p.Closable) (clientOrderId : String)
    (currentPrice timestamp : ℚ) (closeReason : CloseReason) :
    ∃ r fill costModel price,
      e.closePosition id clientOrderId currentPrice timestamp closeReason =
        (.ok r, (e.credit costModel p price).archive id fill) ∧ r.success = true := by
  obtain ⟨costModel, hcost⟩ := Option.ne_none_iff_exists'.1 hclosable.costModel
  unfold PaperEngine.closePosition
  simp only [hp, hcost, if_neg hclosable.openPrice, if_neg hclosable.collateral]
  exact ⟨_, _, _, _, rfl, rfl⟩

/-- The client fills an order on the pair it was asked for, and reports that pair. -/
def Answer.OnPair (req : OrderOpenRequest) : Answer → Prop
  | .openTrade (.opened slot receipt) =>
      OstiumAdapter.pairOf req.symbol = some slot.1 ∧ receipt.pairId = slot.1
  | .openTrade (.lost slot _) => OstiumAdapter.pairOf req.symbol = some slot.1
  | _ => True

theorem mem_KNOWN_PAIR_IDS_of_pairOf {symbol : String} {pairId : ℕ}
    (h : OstiumAdapter.pairOf symbol = some pairId) : pairId ∈ OstiumAdapter.KNOWN_PAIR_IDS := by
  obtain ⟨l₁, l₂, heq, -⟩ := List.lookup_eq_some_iff.1 h
  rw [OstiumAdapter.KNOWN_PAIR_IDS, heq]
  simp

namespace World.Sound

variable {w : World}

/-- A sound world stays sound when a trade is opened at a known pair. -/
theorem setTrade (h : w.Sound) {req : OrderOpenRequest} {slot : ℕ × ℕ}
    (hpair : OstiumAdapter.pairOf req.symbol = some slot.1) (mid : ℚ) (events : List VenueEvent) :
    World.Sound ({ w with trades := w.trades.set slot (World.tradeOf req slot mid) }.log events) where
  engine := h.engine
  known := by
    intro slot' t ht
    dsimp only [World.log] at ht
    rw [Dict.get?_set] at ht
    split at ht
    · rw [‹slot' = slot›]
      exact mem_KNOWN_PAIR_IDS_of_pairOf hpair
    · exact h.known slot' t ht
  slot := by
    intro slot' t ht
    dsimp only [World.log] at ht
    rw [Dict.get?_set] at ht
    split at ht
    · cases ht
      rw [‹slot' = slot›]
      rfl
    · exact h.slot slot' t ht
  file := h.file

/-- A sound world stays sound when the paper engine opens a position. -/
theorem paperOpen (h : w.Sound) {req : OrderOpenRequest} {mid : ℚ} (hmid : 0 < mid) (now : String)
    (timestamp : ℚ) (uuid : String) : (w.paperOpen req mid now timestamp uuid).2.Sound where
  engine := by
    rw [World.paperOpen_engine]
    refine h.engine.openPosition ?_ hmid _ _ _
    exact req.collateral_pos.ne'
  known := by
    rw [World.paperOpen_trades]
    exact h.known
  slot := by
    rw [World.paperOpen_trades]
    exact h.slot
  file := by
    rw [World.paperOpen_ostium]
    exact h.file

theorem log (h : w.Sound) (events : List VenueEvent) : (w.log events).Sound :=
  ⟨h.engine, h.known, h.slot, h.file⟩

theorem closeTrade (h : w.Sound) (pairId tradeIndex : ℤ) : (w.closeTrade pairId tradeIndex).Sound := by
  unfold World.closeTrade
  split
  · have hsub : ∀ slot t, (w.trades.erase (pairId.toNat, tradeIndex.toNat)).get? slot = some t →
        w.trades.get? slot = some t := by
      intro slot t ht
      rw [Dict.get?_erase] at ht
      split at ht
      · cases ht
      · exact ht
    exact ⟨h.engine, fun slot t ht => h.known slot t (hsub slot t ht),
      fun slot t ht => h.slot slot t (hsub slot t ht), h.file⟩
  · exact h

theorem saveIdempotent (h : w.Sound) (adapter : AdapterId) (req : OrderOpenRequest)
    {result : OrderResult} (hid : adapter = .ostium → result.success = true →
      ∃ slot : ℕ × ℕ, result.positionId = OstiumAdapter.makePositionId slot.1 slot.2) :
    (w.saveIdempotent adapter req result).Sound := by
  unfold World.saveIdempotent
  split
  · split
    · rename_i cid hcid hsave
      refine ⟨h.engine, h.known, h.slot, fun line hline => ?_⟩
      rcases List.mem_append.1 hline with hold | hnew
      · exact h.file line hold
      · rw [List.mem_singleton.1 hnew]
        exact hid rfl hsave.2
    · exact h
  · exact h

end World.Sound

/-! ### Runs -/

namespace TradingCore

variable {core : TradingCore}

/-- What is known of an open on its way: its price is positive, and the trade it opened has an
identifier. -/
def SoundPc : OpenPc → Prop
  | .trading _ _ mid => 0 < mid
  | .traded _ adapter result => adapter = .ostium → result.success = true →
      ∃ slot : ℕ × ℕ, result.positionId = OstiumAdapter.makePositionId slot.1 slot.2
  | _ => True

/-- A step of an open keeps the world sound. -/
theorem OpenStep.sound {req : OrderOpenRequest} {w w' : World} {pc pc' : OpenPc} {a : Answer}
    (h : OpenStep core req w pc a w' pc') (hw : w.Sound) (ha : a.OnPair req) (hpc : SoundPc pc) :
    w'.Sound ∧ SoundPc pc' := by
  cases h with
  | gate bad =>
      refine ⟨hw, ?_⟩
      unfold afterGate
      split
      · trivial
      · split <;> trivial
  | listingFails g hg => exact ⟨hw, trivial⟩
  | listing g hg => exact ⟨hw, trivial⟩
  | guard venue adapter positions =>
      refine ⟨?_, ?_⟩
      · -- the guard changes nothing, or logs that the venue is asked
        rcases afterGuard_world req w venue adapter positions with heq | heq <;> rw [heq]
        · exact hw
        · exact hw.log _
      · unfold afterGuard
        split
        · trivial
        · dsimp only
          split <;> trivial
  | price venue adapter mid =>
      refine ⟨hw, ?_⟩
      unfold afterPrice
      split
      · trivial
      · split
        · exact fun hostium => by cases hostium
        · exact not_le.1 ‹_›
      · trivial
      · split
        · trivial
        · exact not_le.1 ‹_›
  | paperOpen venue mid now timestamp uuid =>
      exact ⟨hw.paperOpen hpc now timestamp uuid, fun hostium => by cases hostium⟩
  | ostiumOpen venue mid answer =>
      cases answer with
      | fails text => exact ⟨hw.log _, fun _ hsuccess => by cases hsuccess⟩
      | opened slot receipt => exact ⟨hw.setTrade ha.1 _ _, fun _ _ => ⟨(receipt.pairId, receipt.tradeIndex), rfl⟩⟩
      | lost slot text => exact ⟨hw.setTrade ha _ _, fun _ hsuccess => by cases hsuccess⟩
  | save venue adapter result => exact ⟨hw.saveIdempotent adapter req hpc, trivial⟩
  | reconciled result g => exact ⟨hw, trivial⟩

/-- A step of a close keeps the world sound. -/
theorem closeStep_sound {req : OrderCloseRequest} {w w' : World} {pc pc' : ClosePc} {a : Answer}
    (h : core.closeStep req w pc a = some (w', pc')) (hw : w.Sound) : w'.Sound := by
  rcases closeStep_world h with rfl | ⟨id, mid, ts, rfl⟩ | ⟨pairId, tradeIndex, rfl⟩
  · exact hw
  · refine ⟨hw.engine.of_subset (PaperEngine.closePosition_slippageBps ..) fun id p hp => ?_,
      hw.known, hw.slot, hw.file⟩
    exact PaperEngine.get?_closePosition hp
  · exact hw.closeTrade pairId tradeIndex

/-- The client fills the orders of a pool on the pairs it was asked for. -/
def FilledOnPair (p : TaskPool World Call) : TaskLabel OrderRequestBody Answer Empty → Prop
  | .resume i a => ∀ req pc, p.tasks[i]? = some (.openOrder req pc) → a.OnPair req
  | _ => True

/-- Every state that calls can reach from a sound one is sound. -/
theorem sound_of_exec {w₀ : World} (hw₀ : w₀.Sound)
    {ls : List (TaskLabel OrderRequestBody Answer Empty)}
    (hfilled : Transition.Meets core.callSystem.step FilledOnPair ⟨w₀, []⟩ ls)
    {p : TaskPool World Call} (h : Transition.exec core.callSystem.step ⟨w₀, []⟩ ls = some p) :
    p.shared.Sound := by
  have hinv : p.Inv World.Sound
      (fun _ c => ∀ req pc, c = .openOrder req pc → SoundPc pc) (fun _ _ => True) := by
    refine TaskSystem.exec_inv ⟨fun _ _ _ => trivial, ?_, ?_, ?_⟩ (TaskPool.inv_of_nil hw₀) hfilled h
    · rintro q r w c hq - henter
      cases henter
      refine ⟨hq.shared, fun req pc hc => ?_, fun u hu => ⟨hq.mem hu, trivial⟩⟩
      cases r with
      | openOrder req' =>
          cases hc
          trivial
      | closeOrder req' => cases hc
    · rintro q i a c w c' hq hP hc hstep
      -- a step is one of an open, or one of a close
      rcases callStep_cases hstep with
        ⟨req, pc, pc', rfl, rfl, hopen⟩ | ⟨req, pc, pc', rfl, rfl, hclose⟩
      · have hnew := hopen.sound hq.shared (hP req pc hc) (hq.task i _ hc req pc rfl)
        refine ⟨hnew.1, fun req' pc'' heq => ?_, fun j u _ hu => ⟨hq.task j u hu, trivial⟩⟩
        cases heq
        exact hnew.2
      · exact ⟨closeStep_sound hclose hq.shared, fun _ _ heq => (by cases heq),
          fun j u _ hu => ⟨hq.task j u hu, trivial⟩⟩
    · rintro q k
      exact k.elim
  exact hinv.shared

end TradingCore
