/-
**What web clients see of the paper engine.**

After an open, a close or an update of a trigger the engine builds messages about the position, the
execution and the balance, and broadcasts them over the hub.  An exception on the way is logged and
otherwise ignored.  The functions that build the messages are called with the payload alone, but
they need a sequence number and a time before and after it, so every one of these calls raises; and
the payload of an open position already raises, for want of an attribute.  No message of the engine
reaches the hub.

Main definitions:

* `PaperBroadcast.positionData` — the payload about a position;
* `PaperBroadcast.notify` — what a call of the engine broadcasts;
* `PaperBroadcast.step` — the engine with its hub;
* `PaperBroadcast.view` — the positions as a client folds them out of the messages;
* `PaperBroadcast.Observes` — the client sees the positions of the engine.

Main results:

* `PaperBroadcast.notify_eq` — no call changes the hub;
* `PaperBroadcast.observes_iff` — a client sees the positions if and only if there are none;
* `PaperBroadcast.open_unseen` — an open position that a client does not see.
-/

import Brokerage.PaperLedger
import Brokerage.WebSocketHub

set_option relaxedAutoImplicit false
set_option autoImplicit false

/-- The actions in the life of a position. -/
inductive PositionAction
  | opened
  | closed
  | updated
  deriving DecidableEq

/-- The text of an action. -/
def PositionAction.text : PositionAction → String
  | .opened => "opened"
  | .closed => "closed"
  | .updated => "updated"

namespace PaperBroadcast

/-! ### Payloads -/

/-- A number that may be missing. -/
def optional : Option ℚ → WsValue
  | none => .null
  | some q => .num q

/-- Reading an attribute of a position by its name; of its attributes only those are here that
belong to a payload. -/
def getAttr (p : Position) (name : String) : Except BroadcastError WsValue :=
  if name = "symbol" then .ok (.str p.symbol)
  else if name = "collateral" then .ok (.num p.collateral)
  else if name = "leverage" then .ok (.num p.leverage)
  else if name = "open_price" then .ok (.num p.openPrice)
  else if name = "current_price" then .ok (.num p.currentPrice)
  else if name = "sl_price" then .ok (optional p.slPrice)
  else if name = "tp_price" then .ok (optional p.tpPrice)
  else if name = "unrealized_pnl" then .ok (optional p.unrealizedPnl)
  else .error (.noAttribute name)

/-- The payload about a position: of one that is closed there is only the identifier. -/
def positionData (position : Option Position) (positionId : String) (action : PositionAction) :
    Except BroadcastError WsValue :=
  match position with
  | none => .ok (.dict [("position_id", .str positionId), ("action", .str action.text)])
  | some p => do
      let symbol ← getAttr p "symbol"
      let collateral ← getAttr p "collateral"
      let leverage ← getAttr p "leverage"
      let openPrice ← getAttr p "open_price"
      let currentPrice ← getAttr p "current_price"
      let slPrice ← getAttr p "sl_price"
      let tpPrice ← getAttr p "tp_price"
      let unrealizedPnl ← getAttr p "unrealized_pnl"
      let unrealizedPnlPercent ← getAttr p "unrealized_pnl_percent"
      pure (.dict [("position_id", .str positionId), ("action", .str action.text),
        ("symbol", symbol), ("side", .str (if p.isLong then "buy" else "sell")),
        ("collateral", collateral), ("leverage", leverage), ("open_price", openPrice),
        ("current_price", currentPrice), ("sl_price", slPrice), ("tp_price", tpPrice),
        ("unrealized_pnl", unrealizedPnl), ("unrealized_pnl_percent", unrealizedPnlPercent)])

/-- The payload about an execution; an open has no profit. -/
def executionData (positionId symbol : String) (action : PositionAction) (price fee : ℚ)
    (pnl : Option ℚ) : WsValue :=
  .dict ([("position_id", .str positionId), ("symbol", .str symbol), ("action", .str action.text),
    ("price", .num price), ("fee", .num fee)] ++ (pnl.map fun q => ("pnl", .num q)).toList)

/-- The payload about the balance. -/
def balanceData (e : PaperEngine) : WsValue :=
  .dict [("usdc", .num e.balance), ("available_margin", .num e.balance),
    ("used_margin", .num (e.positions.values.map Position.collateral).sum)]

/-! ### Broadcasting -/

/-- Broadcasting a message on a channel, if it could be built; an exception is ignored. -/
def broadcast (h : WebSocketHub) (channel : String) : Except BroadcastError WSMessage → WebSocketHub
  | .error _ => h
  | .ok message => h.broadcast channel message

/-- Broadcasting what became of a position. -/
def broadcastPositionEvent (e : PaperEngine) (h : WebSocketHub) (positionId : String)
    (action : PositionAction) : WebSocketHub :=
  broadcast h "positions" do
    let data ← positionData (e.positions.get? positionId) positionId action
    WSMessage.createPositionMessage [data]

/-- Broadcasting an execution. -/
def broadcastExecutionEvent (h : WebSocketHub) (positionId symbol : String)
    (action : PositionAction) (price fee : ℚ) (pnl : Option ℚ) : WebSocketHub :=
  broadcast h "execution"
    (WSMessage.createExecutionMessage [executionData positionId symbol action price fee pnl])

/-- Broadcasting the balance. -/
def broadcastBalanceEvent (e : PaperEngine) (h : WebSocketHub) : WebSocketHub :=
  broadcast h "balance" (WSMessage.createBalanceMessage [balanceData e])

/-- The three messages about an order that was executed, with the engine it left. -/
def announce (e : PaperEngine) (h : WebSocketHub) (symbol : String) (action : PositionAction)
    (r : OrderResult) : WebSocketHub :=
  let h := broadcastPositionEvent e h r.positionId action
  let h := broadcastExecutionEvent h r.positionId symbol action (r.executedPrice.getD 0)
    (r.fee.getD 0) r.realizedPnl
  broadcastBalanceEvent e h

/-- An order announces its messages if it is executed. -/
def announceIf (e : PaperEngine) (h : WebSocketHub) (symbol : String) (action : PositionAction)
    (r : OrderResult) : WebSocketHub :=
  if r.success then announce e h symbol action r else h

/-- The messages of a sweep: those of the closes it performs, one after the other. -/
def notifySweep (visit : PaperEngine → String → Position →
      Except EngineError (Option OrderResult) × PaperEngine) :
    PaperEngine → WebSocketHub → List (String × Position) → WebSocketHub
  | _, h, [] => h
  | e, h, (positionId, position) :: rest =>
      match visit e positionId position with
      | (.error _, _) => h
      | (.ok none, e') => notifySweep visit e' h rest
      | (.ok (some r), e') => notifySweep visit e' (announceIf e' h position.symbol .closed r) rest

/-- The messages of the stop-loss and take-profit sweep. -/
def notifyStops (e : PaperEngine) (h : WebSocketHub) (prices : Dict String ℚ) (now : ℚ) :
    WebSocketHub :=
  notifySweep (PaperEngine.visitPrice prices now PaperEngine.stopHit) e h e.positions.entries

/-- The messages of a call of the engine. -/
def notify (e : PaperEngine) (h : WebSocketHub) : PaperEngine.Call → WebSocketHub
  | .openPosition request clientOrderId currentPrice timestamp uuid =>
      let (r, e') := e.openPosition request clientOrderId currentPrice timestamp uuid
      announceIf e' h request.symbol .opened r
  | .closePosition positionId clientOrderId currentPrice timestamp closeReason =>
      match e.positions.get? positionId,
        e.closePosition positionId clientOrderId currentPrice timestamp closeReason with
      | some position, (.ok r, e') => announceIf e' h position.symbol .closed r
      | _, _ => h
  | .updateSl positionId newSl =>
      match e.updateSl positionId newSl with
      | (.error _, _) => h
      | (.ok (), e') => broadcastPositionEvent e' h positionId .updated
  | .updateTp positionId newTp =>
      match e.updateTp positionId newTp with
      | (.error _, _) => h
      | (.ok (), e') => broadcastPositionEvent e' h positionId .updated
  | .checkStops prices now => notifyStops e h prices now
  | .checkStopsAndLiquidation prices now maintenanceMarginRatio =>
      let visit := PaperEngine.visitPrice prices now
        (PaperEngine.liquidationHit maintenanceMarginRatio)
      let h := notifySweep visit e h e.positions.entries
      let liquidations := PaperEngine.sweep visit e e.positions.entries
      match liquidations.raised with
      | some _ => h
      | none => notifyStops liquidations.engine h prices now
  | .checkTtl now ttlS => notifySweep (PaperEngine.visitTtl now ttlS) e h e.positions.entries

/-- The engine and its hub. -/
structure Service where
  engine : PaperEngine
  hub : WebSocketHub

/-- A call of the engine. -/
def step (s : Service) (c : PaperEngine.Call) : Option Service :=
  some ⟨(c.run s.engine).engine, notify s.engine s.hub c⟩

/-! ### The client -/

/-- What a client keeps of a position: its triggers. -/
abbrev Triggers := WsValue × WsValue

/-- A message about a position, as the client reads it: the action, the identifier and the
triggers. -/
def readMessage (m : WSMessage) : Option (String × String × Triggers) :=
  match m.data with
  | none => none
  | some data =>
      match data.get? "action", data.get? "position" with
      | some (.str action), some position =>
          match position.get? "position_id" with
          | some (.str positionId) =>
              some (action, positionId, (position.get? "sl_price").getD .null,
                (position.get? "tp_price").getD .null)
          | _ => none
      | _, _ => none

/-- Folding a message into the positions: an open adds, an update replaces, a close removes. -/
def viewMessage (v : Dict String Triggers) (m : WSMessage) : Dict String Triggers :=
  match readMessage m with
  | none => v
  | some (action, positionId, triggers) =>
      if action = "closed" then v.erase positionId
      else if action = "opened" ∨ action = "updated" then v.set positionId triggers
      else v

/-- The positions as a client folds them out of the messages on the channel. -/
def view (h : WebSocketHub) (client : String) : Dict String Triggers :=
  (h.received client "positions").foldl viewMessage Dict.empty

/-- The client sees the positions of the engine with their triggers. -/
def Observes (s : Service) (client : String) : Prop :=
  ∀ positionId, (view s.hub client).get? positionId =
    (s.engine.positions.get? positionId).map fun p => (optional p.slPrice, optional p.tpPrice)

/-- The client is connected and subscribed to the positions, and has not been sent any yet. -/
structure Watches (h : WebSocketHub) (client : String) : Prop where
  connected : client ∈ h.connections
  subscribed : client ∈ h.subscribers "positions"
  fresh : ∀ positionId, (view h client).get? positionId = none

/-! ### The messages of the engine -/

/-- No message about a position is broadcast: of an open one the payload raises, of a closed one
the building of the message. -/
theorem broadcastPositionEvent_eq (e : PaperEngine) (h : WebSocketHub) (positionId : String)
    (action : PositionAction) : broadcastPositionEvent e h positionId action = h := by
  rw [broadcastPositionEvent]
  cases e.positions.get? positionId <;> rfl

/-- An executed order reaches the hub with none of its messages. -/
theorem announceIf_eq (e : PaperEngine) (h : WebSocketHub) (symbol : String)
    (action : PositionAction) (r : OrderResult) : announceIf e h symbol action r = h := by
  rw [announceIf]
  split
  · rw [announce, broadcastPositionEvent_eq]
    rfl
  · rfl

/-- Nor does a sweep. -/
theorem notifySweep_eq (visit : PaperEngine → String → Position →
      Except EngineError (Option OrderResult) × PaperEngine) (positions : List (String × Position))
    (e : PaperEngine) (h : WebSocketHub) : notifySweep visit e h positions = h := by
  induction positions generalizing e with
  | nil => rfl
  | cons entry positions ih =>
      rw [notifySweep]
      split
      · rfl
      · exact ih _
      · rw [announceIf_eq]
        exact ih _

/-- No call of the engine changes the hub. -/
theorem notify_eq (e : PaperEngine) (h : WebSocketHub) (c : PaperEngine.Call) : notify e h c = h := by
  cases c with
  | openPosition request clientOrderId currentPrice timestamp uuid => exact announceIf_eq _ _ _ _ _
  | closePosition positionId clientOrderId currentPrice timestamp closeReason =>
      rw [notify]
      -- only if a position was closed is there something to announce
      split
      · exact announceIf_eq _ _ _ _ _
      · rfl
  | updateSl positionId newSl =>
      rw [notify]
      split
      · rfl
      · exact broadcastPositionEvent_eq _ _ _ _
  | updateTp positionId newTp =>
      rw [notify]
      split
      · rfl
      · exact broadcastPositionEvent_eq _ _ _ _
  | checkStops prices now => exact notifySweep_eq _ _ _ _
  | checkStopsAndLiquidation prices now maintenanceMarginRatio =>
      rw [notify]
      simp only [notifySweep_eq]
      split
      · rfl
      · exact notifySweep_eq _ _ _ _
  | checkTtl now ttlS => exact notifySweep_eq _ _ _ _

/-- After every run a client that watches from the start sees the positions of the engine if and
only if the engine has none. -/
theorem observes_iff {h : WebSocketHub} {client : String} (hwatches : Watches h client)
    {initialBalance slippageBps : ℚ} {calls : List PaperEngine.Call} {s : Service}
    (hrun : Transition.exec step ⟨PaperEngine.init initialBalance slippageBps, h⟩ calls = some s) :
    Observes s client ↔ s.engine.positions.keys = [] := by
  have hhub : s.hub = h := by
    refine Transition.exec_invariant (I := fun s => s.hub = h) ?_ rfl hrun
    intro s c t hs hstep
    obtain rfl := Option.some.inj hstep
    exact (notify_eq s.engine s.hub c).trans hs
  have hview : ∀ positionId, (view s.hub client).get? positionId = none := by
    rw [hhub]
    exact hwatches.fresh
  constructor
  · intro hobserves
    refine List.eq_nil_iff_forall_not_mem.2 fun positionId => ?_
    rw [← Dict.get?_eq_none_iff, ← Option.map_eq_none_iff]
    exact (hobserves positionId).symm.trans (hview positionId)
  · intro hempty positionId
    have hnone : s.engine.positions.get? positionId = none := by
      rw [Dict.get?_eq_none_iff, hempty]
      exact List.not_mem_nil
    rw [hview, hnone, Option.map_none]

/-! ### Runs -/

/-- A hub with one client, which is subscribed to the positions. -/
def watchedHub : WebSocketHub :=
  ((WebSocketHub.init 1000).connect "client").subscribe "client" "positions" 0

theorem watches_watchedHub : Watches watchedHub "client" where
  connected := by decide
  subscribed := by decide
  fresh positionId := by
    have hview : view watchedHub "client" = Dict.empty := rfl
    rw [hview, Dict.get?_empty]

/-- An open of a position with a stop loss. -/
def openWithStop : PaperEngine.Call :=
  .openPosition { PaperEngine.btcOrder 100 with slPrice := some 39000 } "c" 40000 0 "a"

/-- The service after some calls of a new engine. -/
def runCalls (calls : List PaperEngine.Call) : Option Service :=
  Transition.exec step ⟨PaperEngine.init 10000 5, watchedHub⟩ calls

/-- When the position is closed again, the client sees what there is. -/
theorem observes_iff_closed :
    ∃ s, runCalls [openWithStop, .closePosition "paper_a" "c" 40000 1 .manual] = some s ∧
      Observes s "client" := by
  have hrun : (runCalls [openWithStop, .closePosition "paper_a" "c" 40000 1 .manual]).map
      (fun s => s.engine.positions.keys) = some [] := by
    decide +kernel
  obtain ⟨s, hs, hkeys⟩ := Option.map_eq_some_iff.1 hrun
  exact ⟨s, hs, (observes_iff watches_watchedHub hs).2 hkeys⟩

/-- The client does not see the open position. -/
theorem open_unseen :
    ∃ s, runCalls [openWithStop] = some s ∧ s.engine.positions.keys = ["paper_a"] ∧
      (view s.hub "client").keys = [] ∧ ¬ Observes s "client" := by
  refine ⟨_, rfl, by decide, by decide, fun hobserves => ?_⟩
  have hposition := congrArg Option.isSome (hobserves "paper_a")
  exact absurd hposition (by decide)

end PaperBroadcast
