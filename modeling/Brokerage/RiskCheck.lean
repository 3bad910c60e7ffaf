/-
**The risk check of the paper engine.**

A risk check goes twice over a snapshot of the open positions: first for liquidations, then for the
stops of what is left.  A visit of a position changes that position only, so what becomes of a
position can be read from it, the prices and the margin ratio.

Main definitions:

* `PaperEngine.closeReasonAt` — the reason to close a position at a price, by priority;
* `PaperEngine.closing`, `PaperEngine.left`, `PaperEngine.fillFor` — what becomes of one position;
* `PaperEngine.Swept` — what a sweep leaves.

Main results:

* `PaperEngine.visitPrice_spec`, `PaperEngine.swept` — one visit, and a whole sweep;
* `PaperEngine.checkStopsAndLiquidation_spec` — what a risk check closes, and what it leaves.
-/

import Brokerage.PaperEngine

set_option relaxedAutoImplicit false
set_option autoImplicit false

namespace PaperEngine

/-! ### The triggers -/

/-- The equity of a position at a price is down to the maintenance margin. -/
def LiquidationReached (maintenanceMarginRatio : ℚ) (p : Position) (price : ℚ) : Prop :=
  p.collateral + unrealizedPnlAt p price ≤
    (if p.notional = 0 then p.collateral * p.leverage else p.notional) * maintenanceMarginRatio

/-- The price is at the stop loss, or beyond it. -/
def SlReached (p : Position) (price : ℚ) : Prop :=
  ∃ sl ∈ p.slPrice, if p.isLong then price ≤ sl else sl ≤ price

/-- The price is at the take profit, or beyond it. -/
def TpReached (p : Position) (price : ℚ) : Prop :=
  ∃ tp ∈ p.tpPrice, if p.isLong then tp ≤ price else price ≤ tp

instance (ratio : ℚ) (p : Position) (price : ℚ) : Decidable (LiquidationReached ratio p price) :=
  inferInstanceAs (Decidable (_ ≤ _))

instance (p : Position) (price : ℚ) : Decidable (SlReached p price) :=
  inferInstanceAs (Decidable (∃ sl ∈ p.slPrice, if p.isLong then price ≤ sl else sl ≤ price))

instance (p : Position) (price : ℚ) : Decidable (TpReached p price) :=
  inferInstanceAs (Decidable (∃ tp ∈ p.tpPrice, if p.isLong then tp ≤ price else price ≤ tp))

/-- Why a position is to be closed at a price: liquidation comes first, then the stop loss. -/
def closeReasonAt (ratio : ℚ) (p : Position) (price : ℚ) : Option CloseReason :=
  if LiquidationReached ratio p price then some .liquidation
  else if SlReached p price then some .stopLoss
  else if TpReached p price then some .takeProfit
  else none

/-- The start of the identifier of the order that closes for a reason. -/
def orderPrefix : CloseReason → String
  | .manual => ""
  | .stopLoss => "sl_"
  | .takeProfit => "tp_"
  | .liquidation => "liq_"
  | .ttl => "ttl_"

theorem liquidationHit_eq (ratio : ℚ) (p : Position) (price : ℚ) :
    liquidationHit ratio p price =
      if LiquidationReached ratio p price then some (.liquidation, "liq_") else none := rfl

theorem stopHit_eq (p : Position) (price : ℚ) :
    stopHit p price =
      if SlReached p price then some (.stopLoss, "sl_")
      else if TpReached p price then some (.takeProfit, "tp_")
      else none := by
  obtain ⟨_, _, _, isLong, _, _, _, _, slPrice, tpPrice, _, _, _, _, _⟩ := p
  cases isLong <;> cases slPrice <;> cases tpPrice <;> simp [stopHit, SlReached, TpReached]

/-- The decision of the first pass, and else that of the second. -/
theorem or_stopHit (ratio : ℚ) (p : Position) (price : ℚ) :
    (liquidationHit ratio p price).or (stopHit p price) =
      (closeReasonAt ratio p price).map fun reason => (reason, orderPrefix reason) := by
  rw [liquidationHit_eq, stopHit_eq, closeReasonAt]
  by_cases hliq : LiquidationReached ratio p price
  · simp only [if_pos hliq, Option.some_or, Option.map_some, orderPrefix]
  · simp only [if_neg hliq, Option.none_or]
    by_cases hsl : SlReached p price
    · simp only [if_pos hsl, Option.map_some, orderPrefix]
    · by_cases htp : TpReached p price
      · simp only [if_neg hsl, if_pos htp, Option.map_some, orderPrefix]
      · simp only [if_neg hsl, if_neg htp, Option.map_none]

/-! ### What becomes of one position -/

/-- What is decided at the price of a position. -/
abbrev Decision : Type := Position → ℚ → Option (CloseReason × String)

variable (prices : Dict String ℚ) (hit : Decision)

/-- The close of a position, if its symbol has a price and fees, and the decision is to close. -/
def closing (p : Position) : Option (ℚ × (CloseReason × String) × CostModel) := do
  let price ← prices.get? p.symbol
  let decision ← hit p price
  let costModel ← CostModel.forGtradeSymbol p.symbol
  some (price, decision, costModel)

/-- A position with the price of its symbol. -/
def marked (p : Position) : Position :=
  match prices.get? p.symbol with
  | none => p
  | some price => { p with currentPrice := price }

/-- What is left of a position. -/
def left (p : Position) : Option Position :=
  if (closing prices hit p).isSome then none else some (marked prices p)

/-- The entry of the history for the close of a position. -/
def fillFor (e : PaperEngine) (now : ℚ) (id : String) (p : Position) : Option TradeFill :=
  (closing prices hit p).map fun c =>
    fillOf p id (c.2.1.2 ++ id) (e.closeExecutedPrice p c.1) (exitFee c.2.2 p) now c.2.1.1

/-- The divisions of a close are defined. -/
def Divides (p : Position) : Prop := p.openPrice ≠ 0 ∧ p.collateral ≠ 0

/-- Of the entry of a close, only the slippage is the engine's. -/
theorem fillFor_congr {e e' : PaperEngine} (h : e'.slippageBps = e.slippageBps) (now : ℚ) (id : String)
    (p : Position) : fillFor prices hit e' now id p = fillFor prices hit e now id p := by
  simp only [fillFor, closeExecutedPrice, slippageFactor, h]

variable {prices hit}

theorem closing_eq_none_of_price {p : Position} (h : prices.get? p.symbol = none) :
    closing prices hit p = none := by
  rw [closing, h]
  rfl

/-! ### A visit -/

theorem modifyPosition_of_get? {e : PaperEngine} {id : String} {p : Position}
    (h : e.positions.get? id = some p) (f : Position → Position) :
    e.modifyPosition id f = { e with positions := e.positions.set id (f p) } := by
  rw [modifyPosition, h]

/-- A close of a supported symbol goes through. -/
theorem closePosition_supported {e : PaperEngine} {id : String} {p : Position} {costModel : CostModel}
    (h : e.positions.get? id = some p) (hcost : CostModel.forGtradeSymbol p.symbol = some costModel)
    (hdivides : Divides p) (clientOrderId : String) (price now : ℚ) (reason : CloseReason) :
    e.closePosition id clientOrderId price now reason =
      (.ok (e.closeResult costModel p id clientOrderId (e.closeExecutedPrice p price)),
        (e.credit costModel p (e.closeExecutedPrice p price)).archive id
          (fillOf p id clientOrderId (e.closeExecutedPrice p price) (exitFee costModel p) now
            reason)) := by
  simp only [closePosition, h, hcost, if_neg hdivides.1, if_neg hdivides.2]

/-- A close of an unsupported symbol is refused. -/
theorem closePosition_unsupported {e : PaperEngine} {id : String} {p : Position}
    (h : e.positions.get? id = some p) (hcost : CostModel.forGtradeSymbol p.symbol = none)
    (clientOrderId : String) (price now : ℚ) (reason : CloseReason) :
    ∃ r : OrderResult, r.success = false ∧
      e.closePosition id clientOrderId price now reason = (.ok r, e) := by
  refine ⟨{ success := false, positionId := id, errorMessage := some ?_ }, rfl, ?_⟩
  · exact .unsupportedSymbol (Text.upper p.symbol)
  · simp only [closePosition, h, hcost]

/-- What a visit leaves. -/
structure Visited (prices : Dict String ℚ) (hit : Decision) (now : ℚ) (id : String) (p : Position)
    (e : PaperEngine) (r : Option OrderResult) (e' : PaperEngine) : Prop where
  slippageBps : e'.slippageBps = e.slippageBps
  left : e'.positions.get? id = left prices hit p
  others : ∀ id', id' ≠ id → e'.positions.get? id' = e.positions.get? id'
  history : e'.tradeHistory = e.tradeHistory ++ (fillFor prices hit e now id p).toList
  results : (r.toList.filter (·.success)).map (·.positionId) =
    (fillFor prices hit e now id p).toList.map (·.positionId)

/-- A visit that closes nothing leaves the position with the new price. -/
theorem Visited.of_not_closing {now : ℚ} {e e' : PaperEngine} {id : String} {p : Position}
    {r : Option OrderResult} (hclosing : closing prices hit p = none)
    (hslippage : e'.slippageBps = e.slippageBps)
    (hget : e'.positions.get? id = some (marked prices p))
    (hothers : ∀ id', id' ≠ id → e'.positions.get? id' = e.positions.get? id')
    (hhistory : e'.tradeHistory = e.tradeHistory) (hr : ∀ x ∈ r, x.success = false) :
    Visited prices hit now id p e r e' := by
  refine ⟨hslippage, ?_, hothers, ?_, ?_⟩
  · rw [hget, PaperEngine.left, hclosing]
    rfl
  · rw [hhistory, fillFor, hclosing]
    exact (List.append_nil _).symm
  · rw [fillFor, hclosing]
    cases r with
    | none => rfl
    | some x => simp [hr x rfl]

/-- A visit of an open position whose close is defined. -/
theorem visitPrice_spec {now : ℚ} {e : PaperEngine} {id : String} {p : Position}
    (h : e.positions.get? id = some p) (hdivides : (closing prices hit p).isSome → Divides p) :
    ∃ r e', visitPrice prices now hit e id p = (.ok r, e') ∧
      Visited prices hit now id p e r e' := by
  cases hprice : prices.get? p.symbol with
  | none =>
      have hmarked : marked prices p = p := by rw [marked, hprice]
      exact ⟨none, e, by rw [visitPrice, hprice], .of_not_closing (closing_eq_none_of_price hprice) rfl
        (hmarked.symm ▸ h) (fun _ _ => rfl) rfl fun _ hx => by cases hx⟩
  | some price =>
      set q : Position := { p with currentPrice := price } with hq
      set e₁ : PaperEngine := { e with positions := e.positions.set id q } with he₁
      have hget : e₁.positions.get? id = some q := Dict.get?_set_self _ _ _
      have hothers : ∀ id', id' ≠ id → e₁.positions.get? id' = e.positions.get? id' :=
        fun id' hne => Dict.get?_set_of_ne _ _ hne
      have hvisit : visitPrice prices now hit e id p = e₁.closeFor id price now (hit p price) := by
        rw [visitPrice, hprice]
        simp only [modifyPosition_of_get? h, ← hq, ← he₁]
      have hmarked : marked prices p = q := by rw [marked, hprice]
      cases hhit : hit p price with
      | none =>
          have hclosing : closing prices hit p = none := by
            rw [closing, hprice]
            simp [hhit]
          exact ⟨none, e₁, by rw [hvisit, hhit]; rfl, .of_not_closing hclosing rfl (hmarked ▸ hget)
            hothers rfl fun _ hx => by cases hx⟩
      | some decision =>
          cases hcost : CostModel.forGtradeSymbol p.symbol with
          | none =>
              have hclosing : closing prices hit p = none := by
                rw [closing, hprice]
                simp [hcost]
              obtain ⟨r, hr, hclose⟩ := closePosition_unsupported hget hcost (decision.2 ++ id) price now
                decision.1
              have hrun : visitPrice prices now hit e id p = (.ok (some r), e₁) := by
                rw [hvisit, hhit, closeFor, hclose]
                rfl
              refine ⟨some r, e₁, hrun, .of_not_closing hclosing rfl (hmarked ▸ hget) hothers rfl ?_⟩
              intro x hx
              obtain rfl := Option.some.inj hx
              exact hr
          | some costModel =>
              have hclosing : closing prices hit p = some (price, decision, costModel) := by
                rw [closing, hprice]
                simp [hhit, hcost]
              have hclose := closePosition_supported hget hcost
                (hdivides (by rw [hclosing]; rfl)) (decision.2 ++ id) price now decision.1
              have hrun : visitPrice prices now hit e id p =
                  (.ok (some (e₁.closeResult costModel q id (decision.2 ++ id)
                      (e₁.closeExecutedPrice q price))),
                    (e₁.credit costModel q (e₁.closeExecutedPrice q price)).archive id
                      (fillOf q id (decision.2 ++ id) (e₁.closeExecutedPrice q price)
                        (exitFee costModel q) now decision.1)) := by
                rw [hvisit, hhit, closeFor, hclose]
                rfl
              refine ⟨_, _, hrun, rfl, ?_, fun id' hne => ?_, ?_, ?_⟩
              · rw [left, hclosing]
                exact Dict.get?_erase_self _ _
              · exact (Dict.get?_erase_of_ne _ hne).trans (hothers id' hne)
              · rw [fillFor, hclosing]
                rfl
              · rw [fillFor, hclosing]
                rfl

/-! ### A sweep -/

/-- The entries of the history for the closes of a sweep. -/
def fillsFor (prices : Dict String ℚ) (hit : Decision) (e : PaperEngine) (now : ℚ)
    (entries : List (String × Position)) : List TradeFill :=
  entries.filterMap fun x => fillFor prices hit e now x.1 x.2

/-- What a sweep over a snapshot leaves. -/
structure Swept (prices : Dict String ℚ) (hit : Decision) (now : ℚ)
    (entries : List (String × Position)) (e : PaperEngine) (s : Sweep) : Prop where
  raised : s.raised = none
  slippageBps : s.engine.slippageBps = e.slippageBps
  left : ∀ x ∈ entries, s.engine.positions.get? x.1 = left prices hit x.2
  others : ∀ id, id ∉ entries.map Prod.fst → s.engine.positions.get? id = e.positions.get? id
  history : s.engine.tradeHistory = e.tradeHistory ++ fillsFor prices hit e now entries
  results : (s.closed.filter (·.success)).map (·.positionId) =
    (fillsFor prices hit e now entries).map (·.positionId)

theorem fillsFor_cons (e : PaperEngine) (now : ℚ) (id : String) (p : Position)
    (entries : List (String × Position)) :
    fillsFor prices hit e now ((id, p) :: entries) =
      (fillFor prices hit e now id p).toList ++ fillsFor prices hit e now entries := by
  rw [fillsFor, List.filterMap_cons]
  cases fillFor prices hit e now id p <;> rfl

theorem fillsFor_congr {e e' : PaperEngine} (h : e'.slippageBps = e.slippageBps) (now : ℚ)
    (entries : List (String × Position)) :
    fillsFor prices hit e' now entries = fillsFor prices hit e now entries :=
  List.filterMap_congr fun x _ => fillFor_congr prices hit h now x.1 x.2

/-- A sweep over a snapshot that is still open, by what its visits leave. -/
theorem swept {now : ℚ} {entries : List (String × Position)} (hnodup : (entries.map Prod.fst).Nodup)
    {e : PaperEngine} (hopen : ∀ x ∈ entries, e.positions.get? x.1 = some x.2)
    (hdivides : ∀ x ∈ entries, (closing prices hit x.2).isSome → Divides x.2) :
    Swept prices hit now entries e (sweep (visitPrice prices now hit) e entries) := by
  induction entries generalizing e with
  | nil =>
      rw [sweep]
      exact ⟨rfl, rfl, fun _ hx => absurd hx List.not_mem_nil, fun _ _ => rfl,
        (List.append_nil _).symm, rfl⟩
  | cons x entries ih =>
      obtain ⟨id, p⟩ := x
      rw [List.map_cons, List.nodup_cons] at hnodup
      obtain ⟨r, e', hrun, hvisited⟩ : ∃ r e', visitPrice prices now hit e id p = (.ok r, e') ∧
          Visited prices hit now id p e r e' :=
        visitPrice_spec (hopen _ List.mem_cons_self) (hdivides _ List.mem_cons_self)
      have hne : ∀ y ∈ entries, y.1 ≠ id := by
        rintro y hy rfl
        exact hnodup.1 (List.mem_map.2 ⟨y, hy, rfl⟩)
      have hrest := ih hnodup.2
        (fun y hy => (hvisited.others _ (hne y hy)).trans (hopen y (List.mem_cons_of_mem _ hy)))
        (fun y hy => hdivides y (List.mem_cons_of_mem _ hy))
      rw [sweep, hrun]
      constructor
      · exact hrest.raised
      · exact hrest.slippageBps.trans hvisited.slippageBps
      · intro y hy
        rcases List.mem_cons.1 hy with rfl | hy
        · exact (hrest.others _ hnodup.1).trans hvisited.left
        · exact hrest.left y hy
      · intro id' hid'
        rw [List.map_cons, List.mem_cons, not_or] at hid'
        exact (hrest.others _ hid'.2).trans (hvisited.others _ hid'.1)
      · rw [hrest.history, hvisited.history, fillsFor_cons, fillsFor_congr hvisited.slippageBps,
          List.append_assoc]
      · simp only [List.filter_append, List.map_append]
        rw [hrest.results, hvisited.results, fillsFor_cons, fillsFor_congr hvisited.slippageBps,
          List.map_append]

/-- A sweep over all open positions. -/
theorem swept_positions {now : ℚ} {e : PaperEngine}
    (hdivides : ∀ id p, e.positions.get? id = some p → (closing prices hit p).isSome → Divides p) :
    Swept prices hit now e.positions.entries e
      (sweep (visitPrice prices now hit) e e.positions.entries) :=
  swept e.positions.nodup (fun _ hx => Dict.get?_eq_some_iff.2 hx)
    (fun x hx => hdivides x.1 x.2 (Dict.get?_eq_some_iff.2 hx))

/-- What a sweep over all open positions leaves of each. -/
theorem Swept.get? {now : ℚ} {e : PaperEngine} {s : Sweep}
    (h : Swept prices hit now e.positions.entries e s) (id : String) :
    s.engine.positions.get? id = (e.positions.get? id).bind (PaperEngine.left prices hit) := by
  cases hget : e.positions.get? id with
  | none => rw [h.others id (Dict.get?_eq_none_iff.1 hget), hget, Option.bind_none]
  | some p => rw [h.left (id, p) (Dict.get?_eq_some_iff.1 hget), Option.bind_some]

theorem mem_fillsFor {e : PaperEngine} {now : ℚ} {d : Dict String Position} {f : TradeFill} :
    f ∈ fillsFor prices hit e now d.entries ↔
      ∃ id p, d.get? id = some p ∧ fillFor prices hit e now id p = some f := by
  rw [fillsFor, List.mem_filterMap]
  constructor
  · rintro ⟨⟨id, p⟩, hx, hf⟩
    exact ⟨id, p, Dict.get?_eq_some_iff.2 hx, hf⟩
  · rintro ⟨id, p, hget, hf⟩
    exact ⟨(id, p), Dict.get?_eq_some_iff.1 hget, hf⟩

theorem positionId_of_fillFor {e : PaperEngine} {now : ℚ} {id : String} {p : Position} {f : TradeFill}
    (h : fillFor prices hit e now id p = some f) : f.positionId = id := by
  obtain ⟨c, -, rfl⟩ := Option.map_eq_some_iff.1 h
  rfl

/-- Each position is closed once in a sweep. -/
theorem nodup_fillsFor (e : PaperEngine) (now : ℚ) {entries : List (String × Position)}
    (h : (entries.map Prod.fst).Nodup) :
    ((fillsFor prices hit e now entries).map (·.positionId)).Nodup := by
  have hsub : ((fillsFor prices hit e now entries).map (·.positionId)).Sublist
      (entries.map Prod.fst) := by
    clear h
    induction entries with
    | nil => exact List.Sublist.slnil
    | cons x entries ih =>
        rw [fillsFor_cons, List.map_append, List.map_cons]
        cases hf : fillFor prices hit e now x.1 x.2 with
        | none => exact ih.cons _
        | some f =>
            have hid : f.positionId = x.1 := positionId_of_fillFor hf
            simp only [Option.toList_some, List.map_cons, List.map_nil, hid]
            exact ih.cons_cons _
  exact h.sublist hsub

/-! ### The two passes -/

/-- What a risk check decides at a price. -/
def riskHit (ratio : ℚ) : Decision := fun p price =>
  (closeReasonAt ratio p price).map fun reason => (reason, orderPrefix reason)

/-- A risk check closes a position in its first pass, and else in the second. -/
theorem closing_riskHit (prices : Dict String ℚ) (ratio : ℚ) (p : Position) :
    closing prices (riskHit ratio) p =
      (closing prices (liquidationHit ratio) p).or (closing prices stopHit p) := by
  simp only [closing, riskHit, ← or_stopHit]
  cases prices.get? p.symbol with
  | none => rfl
  | some price =>
      simp only [Option.bind_eq_bind, Option.bind_some]
      cases CostModel.forGtradeSymbol p.symbol with
      | none => simp
      | some costModel => cases liquidationHit ratio p price <;> cases stopHit p price <;> rfl

/-- The price of a position does not matter to a pass. -/
theorem closing_marked (prices : Dict String ℚ) (p : Position) :
    closing prices stopHit (marked prices p) = closing prices stopHit p := by
  rw [marked]
  split
  · rfl
  · rfl

theorem marked_marked (prices : Dict String ℚ) (p : Position) :
    marked prices (marked prices p) = marked prices p := by
  cases hprice : prices.get? p.symbol with
  | none => simp only [marked, hprice]
  | some price => simp only [marked, hprice]

theorem fillFor_marked (prices : Dict String ℚ) (e : PaperEngine) (now : ℚ) (id : String)
    (p : Position) :
    fillFor prices stopHit e now id (marked prices p) = fillFor prices stopHit e now id p := by
  rw [fillFor, fillFor, closing_marked, marked]
  split
  · rfl
  · rfl

theorem divides_marked {prices : Dict String ℚ} {p : Position} :
    Divides (marked prices p) ↔ Divides p := by
  rw [marked]
  split
  · rfl
  · rfl

theorem left_eq_some {p q : Position} (h : left prices hit p = some q) :
    closing prices hit p = none ∧ q = marked prices p := by
  rw [left] at h
  split at h
  · cases h
  · rename_i hnone
    exact ⟨by simpa using hnone, (Option.some.inj h).symm⟩

/-- What the two passes leave of a position. -/
theorem left_bind_left (prices : Dict String ℚ) (ratio : ℚ) (p : Position) :
    (left prices (liquidationHit ratio) p).bind (left prices stopHit) =
      left prices (riskHit ratio) p := by
  rw [left, left, closing_riskHit]
  cases hliq : closing prices (liquidationHit ratio) p with
  | some c => rfl
  | none =>
      rw [Option.none_or, if_neg (by simp), Option.bind_some, left, closing_marked, marked_marked]

/-- The close in a risk check is in the history as the pass that closed the position wrote it. -/
theorem fillFor_riskHit (prices : Dict String ℚ) (ratio : ℚ) (e : PaperEngine) (now : ℚ) (id : String)
    (p : Position) :
    fillFor prices (riskHit ratio) e now id p =
      (fillFor prices (liquidationHit ratio) e now id p).or (fillFor prices stopHit e now id p) := by
  rw [fillFor, closing_riskHit, fillFor, fillFor]
  cases closing prices (liquidationHit ratio) p <;> rfl

/-- What is left by the first pass has no close in it, and the new price. -/
theorem Swept.exists_of_get? {now : ℚ} {e : PaperEngine} {s : Sweep}
    (h : Swept prices hit now e.positions.entries e s) {id : String} {q : Position}
    (hq : s.engine.positions.get? id = some q) :
    ∃ p, e.positions.get? id = some p ∧ closing prices hit p = none ∧ q = marked prices p := by
  rw [h.get?, Option.bind_eq_some_iff] at hq
  obtain ⟨p, hp, hleft⟩ := hq
  exact ⟨p, hp, left_eq_some hleft⟩

variable {now ratio : ℚ} {e : PaperEngine} {liq stops : Sweep}

/-- The entries of the two passes are those of the check. -/
theorem mem_fills_passes (hliq : Swept prices (liquidationHit ratio) now e.positions.entries e liq)
    {f : TradeFill} :
    f ∈ fillsFor prices (liquidationHit ratio) e now e.positions.entries ++
        fillsFor prices stopHit liq.engine now liq.engine.positions.entries ↔
      ∃ id p, e.positions.get? id = some p ∧ fillFor prices (riskHit ratio) e now id p = some f := by
  rw [fillsFor_congr hliq.slippageBps, List.mem_append, mem_fillsFor, mem_fillsFor]
  constructor
  · rintro (⟨id, p, hp, hf⟩ | ⟨id, q, hq, hf⟩)
    · exact ⟨id, p, hp, by rw [fillFor_riskHit, hf, Option.some_or]⟩
    · obtain ⟨p, hp, hnone, rfl⟩ := hliq.exists_of_get? hq
      refine ⟨id, p, hp, ?_⟩
      rw [fillFor_marked] at hf
      rw [fillFor_riskHit, hf, fillFor, hnone, Option.map_none, Option.none_or]
  · rintro ⟨id, p, hp, hf⟩
    rw [fillFor_riskHit, Option.or_eq_some_iff] at hf
    rcases hf with hf | ⟨hnone, hf⟩
    · exact .inl ⟨id, p, hp, hf⟩
    · -- the position is left by the first pass, with the new price
      refine .inr ⟨id, marked prices p, ?_, by rw [fillFor_marked, hf]⟩
      rw [hliq.get?, hp, Option.bind_some, left, if_neg]
      rw [Option.map_eq_none_iff.1 hnone]
      nofun

/-- No position is closed by both passes. -/
theorem nodup_fills_passes (hliq : Swept prices (liquidationHit ratio) now e.positions.entries e liq) :
    ((fillsFor prices (liquidationHit ratio) e now e.positions.entries ++
      fillsFor prices stopHit liq.engine now liq.engine.positions.entries).map
        (·.positionId)).Nodup := by
  rw [List.map_append, List.nodup_append]
  refine ⟨nodup_fillsFor e now e.positions.nodup,
    nodup_fillsFor liq.engine now liq.engine.positions.nodup, ?_⟩
  intro a ha b hb hab
  obtain ⟨f, hf, rfl⟩ := List.mem_map.1 ha
  obtain ⟨g, hg, rfl⟩ := List.mem_map.1 hb
  obtain ⟨id, p, hp, hf⟩ := mem_fillsFor.1 hf
  obtain ⟨id', q, hq, hg⟩ := mem_fillsFor.1 hg
  rw [positionId_of_fillFor hf, positionId_of_fillFor hg] at hab
  subst hab
  obtain ⟨p', hp', hnone, -⟩ := hliq.exists_of_get? hq
  obtain rfl : p = p' := Option.some.inj (hp.symm.trans hp')
  rw [fillFor, hnone] at hf
  cases hf

/-- The entry of a close in a risk check. -/
theorem fillFor_riskHit_eq_some {id : String} {p : Position} {f : TradeFill} :
    fillFor prices (riskHit ratio) e now id p = some f ↔
      ∃ price reason costModel, prices.get? p.symbol = some price ∧
        closeReasonAt ratio p price = some reason ∧
        CostModel.forGtradeSymbol p.symbol = some costModel ∧
        f = fillOf p id (orderPrefix reason ++ id) (e.closeExecutedPrice p price)
          (exitFee costModel p) now reason := by
  simp only [fillFor, closing, riskHit, Option.bind_eq_bind, Option.map_eq_some_iff,
    Option.bind_eq_some_iff, Option.some.injEq]
  constructor
  · rintro ⟨c, ⟨price, hprice, decision, ⟨reason, hreason, rfl⟩, costModel, hcost, rfl⟩, rfl⟩
    exact ⟨price, reason, costModel, hprice, hreason, hcost, rfl⟩
  · rintro ⟨price, reason, costModel, hprice, hreason, hcost, rfl⟩
    exact ⟨_, ⟨price, hprice, _, ⟨reason, hreason, rfl⟩, costModel, hcost, rfl⟩, rfl⟩

/-- A risk check is its two passes, if no close divides by zero. -/
theorem exists_passes (now : ℚ) (hdivides : ∀ id p, e.positions.get? id = some p →
    (closing prices (riskHit ratio) p).isSome → Divides p) :
    ∃ liq stops, Swept prices (liquidationHit ratio) now e.positions.entries e liq ∧
      Swept prices stopHit now liq.engine.positions.entries liq.engine stops ∧
      e.checkStopsAndLiquidation prices now ratio =
        { stops with closed := liq.closed ++ stops.closed } := by
  set liq := sweep (visitPrice prices now (liquidationHit ratio)) e e.positions.entries with hliqdef
  have hliq : Swept prices (liquidationHit ratio) now e.positions.entries e liq := by
    refine swept_positions fun id p hp hclosing => hdivides id p hp ?_
    rw [closing_riskHit, Option.isSome_or, hclosing, Bool.true_or]
  set stops := liq.engine.checkStops prices now with hstopsdef
  have hstops : Swept prices stopHit now liq.engine.positions.entries liq.engine stops := by
    refine swept_positions fun id q hq hclosing => ?_
    obtain ⟨p, hp, -, rfl⟩ := hliq.exists_of_get? hq
    rw [closing_marked] at hclosing
    refine divides_marked.2 (hdivides id p hp ?_)
    rw [closing_riskHit, Option.isSome_or, hclosing, Bool.or_true]
  refine ⟨liq, stops, hliq, hstops, ?_⟩
  rw [checkStopsAndLiquidation]
  simp only [← hliqdef, hliq.raised, ← hstopsdef]

/-- A risk check closes the positions whose symbol has a price and fees and for which there is a
reason, each once and for that reason, and leaves the others with the new price, if no close divides
by zero. -/
theorem checkStopsAndLiquidation_spec (e : PaperEngine) (prices : Dict String ℚ) (now ratio : ℚ)
    (hdivides : ∀ id p, e.positions.get? id = some p →
      (closing prices (riskHit ratio) p).isSome → Divides p) :
    (e.checkStopsAndLiquidation prices now ratio).raised = none ∧
    (∀ id, (e.checkStopsAndLiquidation prices now ratio).engine.positions.get? id =
      (e.positions.get? id).bind (left prices (riskHit ratio))) ∧
    ∃ fills,
      (e.checkStopsAndLiquidation prices now ratio).engine.tradeHistory = e.tradeHistory ++ fills ∧
      (fills.map (·.positionId)).Nodup ∧
      (∀ f, f ∈ fills ↔ ∃ id p price reason costModel, e.positions.get? id = some p ∧
        prices.get? p.symbol = some price ∧ closeReasonAt ratio p price = some reason ∧
        CostModel.forGtradeSymbol p.symbol = some costModel ∧
        f = fillOf p id (orderPrefix reason ++ id) (e.closeExecutedPrice p price)
          (exitFee costModel p) now reason) ∧
      ((e.checkStopsAndLiquidation prices now ratio).closed.filter (·.success)).map (·.positionId) =
        fills.map (·.positionId) := by
  obtain ⟨liq, stops, hliq, hstops, hrun⟩ := exists_passes now hdivides
  rw [hrun]
  refine ⟨hstops.raised, fun id => ?_, _, ?_, nodup_fills_passes hliq, fun f => ?_, ?_⟩
  · calc stops.engine.positions.get? id
        = (liq.engine.positions.get? id).bind (left prices stopHit) := hstops.get? id
      _ = ((e.positions.get? id).bind (left prices (liquidationHit ratio))).bind
          (left prices stopHit) := by rw [hliq.get?]
      _ = (e.positions.get? id).bind (left prices (riskHit ratio)) := by
        rw [Option.bind_assoc]
        exact congrArg _ (funext (left_bind_left prices ratio))
  · rw [hstops.history, hliq.history, List.append_assoc]
  · rw [mem_fills_passes hliq]
    simp only [fillFor_riskHit_eq_some, exists_and_left]
  · rw [List.filter_append, List.map_append, hliq.results, hstops.results, List.map_append]

/-- A long position at price 1, with a stop loss at 3/4. -/
def longAtOne (symbol : String) (leverage : ℚ) : Position where
  pairId := 0
  tradeIndex := 0
  symbol := symbol
  isLong := true
  collateral := 100
  leverage := leverage
  openPrice := 1
  currentPrice := 1
  slPrice := some (3 / 4)

/-- Two positions in EURUSD, the first of which is highly leveraged, and one in a symbol without a
price. -/
def threeLongs : PaperEngine :=
  { init 10000 5 with
    positions := ((Dict.empty.set "a" (longAtOne "EURUSD" 10)).set "b" (longAtOne "EURUSD" 1)).set "c"
      (longAtOne "XAUUSD" 1) }

/-- At the price 1/2 the first is liquidated, the second stopped, and the third left alone. -/
theorem checkStopsAndLiquidation_spec_threeLongs :
    let s := threeLongs.checkStopsAndLiquidation (Dict.empty.set "EURUSD" (1 / 2)) 0 (1 / 20)
    s.raised = none ∧ s.engine.positions.get? "a" = none ∧ s.engine.positions.get? "b" = none ∧
      s.engine.positions.get? "c" = some (longAtOne "XAUUSD" 1) ∧
      s.engine.tradeHistory.map (fun f => (f.positionId, f.closeReason)) =
        [("a", .liquidation), ("b", .stopLoss)] := by
  intro s
  have hdivides : ∀ id p, threeLongs.positions.get? id = some p →
      (closing (Dict.empty.set "EURUSD" (1 / 2)) (riskHit (1 / 20)) p).isSome → Divides p := by
    intro id p hp _
    have hvalues : ∀ q ∈ threeLongs.positions.values, q.openPrice ≠ 0 ∧ q.collateral ≠ 0 := by
      decide
    exact hvalues p (Dict.mem_values_iff.2 ⟨id, hp⟩)
  obtain ⟨hraised, hleft, -⟩ := checkStopsAndLiquidation_spec threeLongs
    (Dict.empty.set "EURUSD" (1 / 2)) 0 (1 / 20) hdivides
  refine ⟨hraised, (hleft "a").trans ?_, (hleft "b").trans ?_, (hleft "c").trans ?_, ?_⟩
  · decide +kernel
  · decide +kernel
  · decide +kernel
  · decide +kernel

/-- A position in a symbol without fees stays open at its stop loss. -/
theorem unsupported_held :
    let e : PaperEngine := { init 10000 5 with positions := Dict.empty.set "p" (longAtOne "DOGE" 1) }
    let s := e.checkStopsAndLiquidation (Dict.empty.set "DOGE" (1 / 2)) 0 (1 / 20)
    SlReached (longAtOne "DOGE" 1) (1 / 2) ∧
      s.engine.positions.get? "p" = some { longAtOne "DOGE" 1 with currentPrice := 1 / 2 } ∧
      s.engine.tradeHistory = [] := by
  decide +kernel

end PaperEngine
