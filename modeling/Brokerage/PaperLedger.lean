/-
**Conservation of the paper ledger.**

A run of the paper engine is a list of calls of its methods.  Next to the engine the run keeps the
results of the orders that were executed, including those of the closes that a sweep performs, and
from them the entry fees that were paid and the profits that were realized.  The main theorem says
that balance and locked collateral always add up to what these results account for, and that every
position that was opened is either open or in the history, once.

The steps of the argument are about the engine alone: `PaperEngine.Settles` says that a piece of
code turned collateral into balance at the profits it reported and moved identifiers from the open
positions to the history without losing or doubling one.  It holds of a close on each of its exits,
composes, and so holds of the sweeps.

Main definitions:

* `PaperEngine.Call`, `PaperEngine.Call.run` — a call of a method and what it does;
* `PaperEngine.Ledger`, `PaperEngine.Ledger.step` — the engine with the executed orders so far;
* `PaperEngine.Settles` — what closing positions may do to the engine;
* `PaperEngine.Ledger.Inv` — the invariant of the runs.

Main results:

* `PaperEngine.Settles.closePosition`, `PaperEngine.Settles.sweep` — closes and sweeps settle;
* `PaperEngine.Ledger.step_inv` — every call keeps the invariant;
* `PaperEngine.ledger_conservation` — the conservation law in every reachable state.
-/

import Brokerage.PaperEngine
import Brokerage.Transition

set_option relaxedAutoImplicit false
set_option autoImplicit false

namespace PaperEngine

/-! ### Calls and ledgers -/

/-- A call of a method of the engine.  The draws of `uuid4` and the readings of the clock are part
of the call. -/
inductive Call
  | openPosition (request : OrderRequest) (clientOrderId : String) (currentPrice timestamp : ℚ)
      (uuid : String)
  | closePosition (positionId clientOrderId : String) (currentPrice timestamp : ℚ)
      (closeReason : CloseReason)
  | updateSl (positionId : String) (newSl : Option ℚ)
  | updateTp (positionId : String) (newTp : Option ℚ)
  | checkStops (prices : Dict String ℚ) (now : ℚ)
  | checkStopsAndLiquidation (prices : Dict String ℚ) (now maintenanceMarginRatio : ℚ)
  | checkTtl (now ttlS : ℚ)

/-- The identifier digits drawn for a call. -/
def Call.uuid? : Call → Option String
  | .openPosition _ _ _ _ uuid => some uuid
  | _ => none

/-- What a call did: the results of its orders, whether the call itself failed, and the engine. -/
structure Effect where
  opened : List OrderResult
  closed : List OrderResult
  failed : Bool
  engine : PaperEngine

/-- Running a call.  The result of a close that a sweep performs is an order of the sweep. -/
def Call.run (e : PaperEngine) : Call → Effect
  | .openPosition request clientOrderId currentPrice timestamp uuid =>
      let (r, e') := e.openPosition request clientOrderId currentPrice timestamp uuid
      { opened := [r], closed := [], failed := !r.success, engine := e' }
  | .closePosition positionId clientOrderId currentPrice timestamp closeReason =>
      match e.closePosition positionId clientOrderId currentPrice timestamp closeReason with
      | (.ok r, e') => { opened := [], closed := [r], failed := !r.success, engine := e' }
      | (.error _, e') => { opened := [], closed := [], failed := true, engine := e' }
  | .updateSl positionId newSl =>
      let (r, e') := e.updateSl positionId newSl
      { opened := [], closed := [], failed := !r.isOk, engine := e' }
  | .updateTp positionId newTp =>
      let (r, e') := e.updateTp positionId newTp
      { opened := [], closed := [], failed := !r.isOk, engine := e' }
  | .checkStops prices now =>
      let s := e.checkStops prices now
      { opened := [], closed := s.closed, failed := false, engine := s.engine }
  | .checkStopsAndLiquidation prices now maintenanceMarginRatio =>
      let s := e.checkStopsAndLiquidation prices now maintenanceMarginRatio
      { opened := [], closed := s.closed, failed := false, engine := s.engine }
  | .checkTtl now ttlS =>
      let s := e.checkTtl now ttlS
      { opened := [], closed := s.closed, failed := false, engine := s.engine }

/-- The engine together with the results of all opens and all closes executed so far. -/
structure Ledger where
  engine : PaperEngine
  opened : List OrderResult
  closed : List OrderResult

namespace Ledger

/-- The ledger of a new engine. -/
def init (initialBalance slippageBps : ℚ) : Ledger where
  engine := PaperEngine.init initialBalance slippageBps
  opened := []
  closed := []

/-- Running a call and recording the orders it executed. -/
def step (l : Ledger) (c : Call) : Option Ledger :=
  let effect := c.run l.engine
  some {
    engine := effect.engine
    opened := l.opened ++ effect.opened.filter (·.success)
    closed := l.closed ++ effect.closed.filter (·.success) }

/-- The entry fees of the executed opens. -/
def entryFees (l : Ledger) : ℚ := (l.opened.filterMap (·.fee)).sum

/-- The profits realized by the executed closes. -/
def realizedPnl (l : Ledger) : ℚ := (l.closed.filterMap (·.realizedPnl)).sum

end Ledger

/-! ### Settling positions -/

/-- Balance and locked collateral. -/
def net (e : PaperEngine) : ℚ := e.balance + (e.positions.values.map Position.collateral).sum

/-- The identifiers of the open positions, then those of the history. -/
def ids (e : PaperEngine) : List String :=
  e.positions.keys ++ e.tradeHistory.map TradeFill.positionId

/-- The size of every open position is its collateral times its leverage. -/
def Sized (e : PaperEngine) : Prop :=
  ∀ id p, e.positions.get? id = some p → p.notional = p.collateral * p.leverage

/-- The profits reported by the executed closes among some results. -/
def profits (closed : List OrderResult) : ℚ :=
  ((closed.filter (·.success)).filterMap (·.realizedPnl)).sum

@[simp] theorem profits_nil : profits [] = 0 := rfl

theorem profits_append (xs ys : List OrderResult) :
    profits (xs ++ ys) = profits xs + profits ys := by
  simp [profits, List.filter_append, List.filterMap_append, List.sum_append]

/-- Going from `e` to `e'`, positions were closed with the results `closed`: the sum of balance and
collateral grew by the reported profits, and no identifier was lost or doubled. -/
structure Settles (closed : List OrderResult) (e e' : PaperEngine) : Prop where
  net_eq : net e' = net e + profits closed
  ids_perm : (ids e').Perm (ids e)
  sized : Sized e'

namespace Settles

theorem refl {e : PaperEngine} (he : Sized e) : Settles [] e e where
  net_eq := by simp
  ids_perm := List.Perm.refl _
  sized := he

theorem trans {xs ys : List OrderResult} {e e' e'' : PaperEngine} (h : Settles xs e e')
    (h' : Settles ys e' e'') : Settles (xs ++ ys) e e'' where
  net_eq := by rw [h'.net_eq, h.net_eq, profits_append, add_assoc]
  ids_perm := h'.ids_perm.trans h.ids_perm
  sized := h'.sized

/-- A failed order in front of the results reports no profit. -/
theorem cons_failed {r : OrderResult} {xs : List OrderResult} {e e' : PaperEngine}
    (hr : r.success = false) (h : Settles xs e e') : Settles (r :: xs) e e' where
  net_eq := by rw [h.net_eq, profits, profits, List.filter_cons_of_neg (by simp [hr])]
  ids_perm := h.ids_perm
  sized := h.sized

/-- Writing to a field that holds no money settles nothing. -/
theorem modifyPosition {e : PaperEngine} (he : Sized e) (id : String) {f : Position → Position}
    (hcol : ∀ p, (f p).collateral = p.collateral) (hlev : ∀ p, (f p).leverage = p.leverage)
    (hnot : ∀ p, (f p).notional = p.notional) : Settles [] e (e.modifyPosition id f) := by
  unfold PaperEngine.modifyPosition
  cases hp : e.positions.get? id with
  | none => exact refl he
  | some p =>
      have hkeys : (e.positions.set id (f p)).keys = e.positions.keys := by
        rw [Dict.keys_set, if_pos (Dict.mem_keys_of_get? hp)]
      constructor
      · have hsum := Dict.sum_values_set Position.collateral (w := f p) hp
        simp only [net, profits_nil, hcol] at hsum ⊢
        linarith
      · simp [ids, hkeys]
      · intro id' q hq
        rw [Dict.get?_set] at hq
        split at hq
        · obtain rfl : f p = q := by simpa using hq
          rw [hnot, hcol, hlev]
          exact he id p hp
        · exact he id' q hq

/-- A position without collateral is closed at no profit: it has no size, so it gains nothing and
costs nothing. -/
theorem netPnl_of_collateral_eq_zero {costModel : CostModel} {p : Position} {executedPrice : ℚ}
    (hp : p.notional = p.collateral * p.leverage) (hcol : p.collateral = 0) :
    netPnl costModel p executedPrice = 0 := by
  have hnot : p.notional = 0 := by rw [hp, hcol, zero_mul]
  simp [netPnl, grossPnl, exitFee, hnot, hcol]

theorem credit_of_collateral_eq_zero {e : PaperEngine} (he : Sized e) {id : String}
    {costModel : CostModel} {p : Position} {executedPrice : ℚ}
    (hp : e.positions.get? id = some p) (hcol : p.collateral = 0) :
    e.credit costModel p executedPrice = e := by
  simp [credit, netPnl_of_collateral_eq_zero (he id p hp) hcol, hcol]

/-- Crediting a position and moving it to the history settles it. -/
theorem archive {e : PaperEngine} (he : Sized e) {id clientOrderId : String}
    {costModel : CostModel} {p : Position} {executedPrice : ℚ} {fill : TradeFill}
    (hp : e.positions.get? id = some p) (hfill : fill.positionId = id) :
    Settles [e.closeResult costModel p id clientOrderId executedPrice] e
      ((e.credit costModel p executedPrice).archive id fill) := by
  constructor
  · have hsum := Dict.sum_values_erase Position.collateral hp
    simp only [net, PaperEngine.archive, credit, hsum]
    -- what the position held comes back with its profit
    have hprofit : profits [e.closeResult costModel p id clientOrderId executedPrice] =
        netPnl costModel p executedPrice := by
      simp [profits, closeResult]
    rw [hprofit]
    ring
  · have hcons : (id :: e.positions.keys.erase id).Perm e.positions.keys :=
      (List.perm_cons_erase (Dict.mem_keys_of_get? hp)).symm
    simp only [ids, PaperEngine.archive, credit, Dict.keys_erase, List.map_append, List.map_cons,
      List.map_nil, hfill]
    -- the identifier moves from the keys to the end of the history
    calc e.positions.keys.erase id ++ (e.tradeHistory.map TradeFill.positionId ++ [id])
        _ = (e.positions.keys.erase id ++ e.tradeHistory.map TradeFill.positionId) ++ [id] := by
          rw [List.append_assoc]
        List.Perm _ (id :: (e.positions.keys.erase id ++
            e.tradeHistory.map TradeFill.positionId)) := List.perm_append_singleton _ _
        List.Perm _ (e.positions.keys ++ e.tradeHistory.map TradeFill.positionId) :=
          hcons.append_right _
  · intro id' q hq
    simp only [PaperEngine.archive, credit, Dict.get?_erase] at hq
    split at hq
    · cases hq
    · exact he id' q hq

/-- A close settles, on each of its exits; one that raised reports no result. -/
theorem closePosition {e : PaperEngine} (he : Sized e) (id clientOrderId : String)
    (currentPrice timestamp : ℚ) (closeReason : CloseReason) :
    Settles (e.closePosition id clientOrderId currentPrice timestamp closeReason).1.toOption.toList e
      (e.closePosition id clientOrderId currentPrice timestamp closeReason).2 := by
  rcases closePosition_cases e id clientOrderId currentPrice timestamp closeReason with
    ⟨r, hr, h⟩ | h | ⟨p, costModel, executedPrice, hp, hcol, h⟩ |
    ⟨p, costModel, executedPrice, fill, hp, hfill, -, h⟩
  · rw [h]
    exact cons_failed hr (refl he)
  · rw [h]
    exact refl he
  · rw [h, credit_of_collateral_eq_zero he hp hcol]
    exact refl he
  · rw [h]
    exact archive he hp hfill

/-- A decision, carried out, settles. -/
theorem closeFor {e : PaperEngine} (he : Sized e) (id : String) (currentPrice now : ℚ)
    (decision : Option (CloseReason × String)) :
    Settles ((e.closeFor id currentPrice now decision).1.toOption.bind fun r => r).toList e
      (e.closeFor id currentPrice now decision).2 := by
  cases decision with
  | none => exact refl he
  | some d =>
      have h := closePosition he id (d.2 ++ id) currentPrice now d.1
      simp only [PaperEngine.closeFor]
      cases hr : (e.closePosition id (d.2 ++ id) currentPrice now d.1).1 <;>
        rw [hr] at h <;> exact h

/-- A loop settles if its visits do: the results of the visits add up, and an exception only cuts
the loop short. -/
theorem sweep {visit : PaperEngine → String → Position →
      Except EngineError (Option OrderResult) × PaperEngine}
    (hvisit : ∀ e id p, Sized e →
      Settles ((visit e id p).1.toOption.bind fun r => r).toList e (visit e id p).2)
    (entries : List (String × Position)) :
    ∀ e, Sized e → Settles (sweep visit e entries).closed e (sweep visit e entries).engine := by
  induction entries with
  | nil => exact fun e he => refl he
  | cons entry rest ih =>
      intro e he
      obtain ⟨id, p⟩ := entry
      have hv := hvisit e id p he
      rw [PaperEngine.sweep]
      rcases h : visit e id p with ⟨_ | r, e'⟩ <;> rw [h] at hv
      · exact hv
      · exact hv.trans (ih e' hv.sized)

theorem visitPrice {prices : Dict String ℚ} {now : ℚ}
    {hit : Position → ℚ → Option (CloseReason × String)} (e : PaperEngine) (id : String)
    (p : Position) (he : Sized e) :
    Settles ((visitPrice prices now hit e id p).1.toOption.bind fun r => r).toList e
      (visitPrice prices now hit e id p).2 := by
  unfold PaperEngine.visitPrice
  cases prices.get? p.symbol with
  | none => exact refl he
  | some currentPrice =>
      have hmod := modifyPosition he id (f := fun q => { q with currentPrice := currentPrice })
        (fun _ => rfl) (fun _ => rfl) (fun _ => rfl)
      exact hmod.trans (closeFor hmod.sized id currentPrice now _)

theorem checkStops {e : PaperEngine} (he : Sized e) (prices : Dict String ℚ) (now : ℚ) :
    Settles (e.checkStops prices now).closed e (e.checkStops prices now).engine :=
  sweep visitPrice _ e he

theorem checkStopsAndLiquidation {e : PaperEngine} (he : Sized e) (prices : Dict String ℚ)
    (now ratio : ℚ) :
    Settles (e.checkStopsAndLiquidation prices now ratio).closed e
      (e.checkStopsAndLiquidation prices now ratio).engine := by
  have hliq := sweep (@visitPrice prices now (liquidationHit ratio)) e.positions.entries e he
  simp only [PaperEngine.checkStopsAndLiquidation]
  split
  · exact hliq
  · exact hliq.trans (checkStops hliq.sized prices now)

theorem checkTtl {e : PaperEngine} (he : Sized e) (now ttlS : ℚ) :
    Settles (e.checkTtl now ttlS).closed e (e.checkTtl now ttlS).engine :=
  sweep (fun _ id _ he' => closeFor he' id _ now _) _ e he

/-- Moving a trigger settles nothing. -/
theorem updateTrigger {e : PaperEngine} (he : Sized e) (id : String) {f : Position → Position}
    (hcol : ∀ p, (f p).collateral = p.collateral) (hlev : ∀ p, (f p).leverage = p.leverage)
    (hnot : ∀ p, (f p).notional = p.notional) : Settles [] e (e.updateTrigger id f).2 := by
  unfold PaperEngine.updateTrigger
  split
  · exact modifyPosition he id hcol hlev hnot
  · exact refl he

end Settles

/-! ### The invariant of the runs -/

namespace Ledger

/-- The state of a run that started with `initialBalance`. -/
structure Inv (initialBalance : ℚ) (l : Ledger) : Prop where
  /-- Balance and locked collateral are what the executed orders account for. -/
  conserved : net l.engine = initialBalance - l.entryFees + l.realizedPnl
  /-- The opened identifiers are those of the open positions and of the history, each once. -/
  accounted : (ids l.engine).Perm (l.opened.map (·.positionId))
  /-- No identifier was given twice. -/
  distinct : (l.opened.map (·.positionId)).Nodup
  sized : Sized l.engine

theorem inv_init (initialBalance slippageBps : ℚ) :
    Inv initialBalance (init initialBalance slippageBps) where
  conserved := by simp [init, PaperEngine.init, net, entryFees, realizedPnl]
  accounted := List.Perm.refl _
  distinct := List.nodup_nil
  sized := by
    intro id p hp
    simp [init, PaperEngine.init] at hp

/-- The digits drawn for a call give an identifier that no opened position has. -/
def Fresh (l : Ledger) (c : Call) : Prop :=
  ∀ uuid, c.uuid? = some uuid → newPositionId uuid ∉ l.opened.map (·.positionId)

/-- A call that opens nothing and settles positions keeps the invariant. -/
theorem inv_of_settles {initialBalance : ℚ} {l : Ledger} (hl : l.Inv initialBalance)
    {closed : List OrderResult} {e' : PaperEngine} (h : Settles closed l.engine e') :
    Inv initialBalance
      { engine := e', opened := l.opened, closed := l.closed ++ closed.filter (·.success) } where
  conserved := by
    have hsum : realizedPnl ⟨e', l.opened, l.closed ++ closed.filter (·.success)⟩ =
        l.realizedPnl + profits closed := by
      simp [realizedPnl, profits, List.filterMap_append, List.sum_append]
    have hfees : entryFees ⟨e', l.opened, l.closed ++ closed.filter (·.success)⟩ = l.entryFees :=
      rfl
    rw [hsum, hfees, h.net_eq, hl.conserved, add_assoc]
  accounted := h.ids_perm.trans hl.accounted
  distinct := hl.distinct
  sized := h.sized

/-- An open keeps the invariant. -/
theorem inv_openPosition {initialBalance : ℚ} {l : Ledger} (hl : l.Inv initialBalance)
    {request : OrderRequest} {clientOrderId : String} {currentPrice timestamp : ℚ} {uuid : String}
    (hfresh : newPositionId uuid ∉ l.opened.map (·.positionId)) :
    Inv initialBalance
      { engine := (l.engine.openPosition request clientOrderId currentPrice timestamp uuid).2
        opened := l.opened ++
          [(l.engine.openPosition request clientOrderId currentPrice timestamp uuid).1].filter
            (·.success)
        closed := l.closed } := by
  rcases openPosition_cases l.engine request clientOrderId currentPrice timestamp uuid with
    ⟨hr, he⟩ | ⟨fee, hr, hid, hfee, he⟩
  · rw [he, List.filter_cons_of_neg (by simp [hr]), List.filter_nil, List.append_nil]
    exact hl
  · set r := (l.engine.openPosition request clientOrderId currentPrice timestamp uuid).1 with hrdef
    -- the identifier was never given, so it is not among the open positions
    have hkey : newPositionId uuid ∉ l.engine.positions.keys := fun hmem =>
      hfresh (hl.accounted.subset (List.mem_append_left _ hmem))
    rw [he, List.filter_cons_of_pos (by simpa using hr), List.filter_nil]
    constructor
    · have hc := hl.conserved
      simp only [net, Dict.values_set_of_not_mem _ hkey, entryFees, realizedPnl,
        List.filterMap_append, List.map_append, List.sum_append] at hc ⊢
      simp only [List.map_cons, List.map_nil, List.filterMap_cons, List.filterMap_nil, hfee,
        List.sum_cons, List.sum_nil, newPosition]
      linarith
    · have hkeys : (l.engine.positions.set (newPositionId uuid)
          (l.engine.newPosition request currentPrice timestamp uuid)).keys =
          l.engine.positions.keys ++ [newPositionId uuid] := by
        rw [Dict.keys_set, if_neg hkey]
      simp only [ids, hkeys, List.map_append, List.map_cons, List.map_nil, hid, List.append_assoc,
        List.singleton_append]
      -- the new key stands between the old keys and the history
      exact List.perm_middle.trans
        ((hl.accounted.cons _).trans (List.perm_append_singleton _ _).symm)
    · rw [List.map_append, List.map_cons, List.map_nil, hid, List.nodup_append]
      refine ⟨hl.distinct, List.nodup_singleton _, ?_⟩
      intro a ha b hb
      obtain rfl := List.mem_singleton.1 hb
      rintro rfl
      exact hfresh ha
    · intro id p hp
      simp only [Dict.get?_set] at hp
      split at hp
      · obtain rfl : l.engine.newPosition request currentPrice timestamp uuid = p := by
          simpa using hp
        rfl
      · exact hl.sized id p hp

/-- Every call keeps the invariant. -/
theorem step_inv {initialBalance : ℚ} {l l' : Ledger} {c : Call} (hl : l.Inv initialBalance)
    (hfresh : l.Fresh c) (h : l.step c = some l') : l'.Inv initialBalance := by
  obtain rfl := Option.some.inj h
  cases c with
  | openPosition request clientOrderId currentPrice timestamp uuid =>
      simpa only [Call.run, List.filter_nil, List.append_nil] using inv_openPosition hl (hfresh uuid rfl)
  | closePosition id clientOrderId currentPrice timestamp closeReason =>
      have hset := Settles.closePosition hl.sized id clientOrderId currentPrice timestamp closeReason
      simp only [Call.run]
      rcases hc : l.engine.closePosition id clientOrderId currentPrice timestamp closeReason with
        ⟨_ | r, e'⟩ <;> rw [hc] at hset <;>
        simpa only [List.filter_nil, List.append_nil, Except.toOption, Option.toList] using
          inv_of_settles hl hset
  | updateSl id newSl =>
      have hset : Settles [] l.engine (l.engine.updateSl id newSl).2 :=
        Settles.updateTrigger hl.sized id (fun _ => rfl) (fun _ => rfl) (fun _ => rfl)
      simpa only [Call.run, List.filter_nil, List.append_nil] using inv_of_settles hl hset
  | updateTp id newTp =>
      have hset : Settles [] l.engine (l.engine.updateTp id newTp).2 :=
        Settles.updateTrigger hl.sized id (fun _ => rfl) (fun _ => rfl) (fun _ => rfl)
      simpa only [Call.run, List.filter_nil, List.append_nil] using inv_of_settles hl hset
  | checkStops prices now =>
      simpa only [Call.run, List.filter_nil, List.append_nil] using
        inv_of_settles hl (Settles.checkStops hl.sized prices now)
  | checkStopsAndLiquidation prices now ratio =>
      simpa only [Call.run, List.filter_nil, List.append_nil] using
        inv_of_settles hl (Settles.checkStopsAndLiquidation hl.sized prices now ratio)
  | checkTtl now ttlS =>
      simpa only [Call.run, List.filter_nil, List.append_nil] using
        inv_of_settles hl (Settles.checkTtl hl.sized now ttlS)

/-! ### Fresh identifiers -/

theorem newPositionId_injective {u v : String} (h : newPositionId u = newPositionId v) : u = v := by
  have hl := congrArg String.toList h
  simp only [newPositionId, String.toList_append, List.append_cancel_left_eq] at hl
  exact String.toList_inj.1 hl

/-- The only identifier a call can add is the one drawn for it. -/
theorem mem_opened_of_step {l l' : Ledger} {c : Call} (h : l.step c = some l') {id : String}
    (hid : id ∈ l'.opened.map (·.positionId)) :
    id ∈ l.opened.map (·.positionId) ∨ ∃ uuid, c.uuid? = some uuid ∧ id = newPositionId uuid := by
  obtain rfl := Option.some.inj h
  cases c with
  | openPosition request clientOrderId currentPrice timestamp uuid =>
      rcases openPosition_cases l.engine request clientOrderId currentPrice timestamp uuid with
        ⟨hr, -⟩ | ⟨fee, hr, hpid, -, -⟩
      · left
        simpa [Call.run, hr] using hid
      · simp only [Call.run, List.filter_cons_of_pos hr, List.filter_nil, List.map_append,
          List.map_cons, List.map_nil, List.mem_append, List.mem_singleton, hpid] at hid
        exact hid.imp_right fun h => ⟨uuid, rfl, h⟩
  | closePosition id' clientOrderId currentPrice timestamp closeReason =>
      left
      simp only [Call.run] at hid
      rcases hc : l.engine.closePosition id' clientOrderId currentPrice timestamp closeReason with
        ⟨_ | r, e'⟩ <;> rw [hc] at hid <;> simpa using hid
  | _ =>
      left
      simpa [Call.run] using hid

/-- Distinct draws give fresh identifiers, call after call. -/
theorem meets_fresh {calls : List Call} (huuid : (calls.filterMap Call.uuid?).Nodup) {l : Ledger}
    (hl : ∀ uuid ∈ calls.filterMap Call.uuid?, newPositionId uuid ∉ l.opened.map (·.positionId)) :
    Transition.Meets step Fresh l calls := by
  induction calls generalizing l with
  | nil => trivial
  | cons c calls ih =>
      obtain ⟨l', hstep⟩ : ∃ l', l.step c = some l' := ⟨_, rfl⟩
      refine ⟨fun uuid hu => hl uuid (by simp [hu]), ?_⟩
      simp only [hstep]
      have hsub : (calls.filterMap Call.uuid?).Sublist ((c :: calls).filterMap Call.uuid?) :=
        (List.sublist_cons_self c calls).filterMap _
      refine ih (huuid.sublist hsub) fun uuid hu hmem => ?_
      rcases mem_opened_of_step hstep hmem with hold | ⟨uuid', hc, heq⟩
      · exact hl uuid (hsub.subset hu) hold
      · -- the draw of `c` would occur a second time
        obtain rfl := newPositionId_injective heq
        rw [List.filterMap_cons_some hc, List.nodup_cons] at huuid
        exact huuid.1 hu

end Ledger

theorem updateTrigger_of_failed {e : PaperEngine} {id : String} {f : Position → Position}
    (h : (!(e.updateTrigger id f).1.isOk) = true) : (e.updateTrigger id f).2 = e := by
  unfold updateTrigger at h ⊢
  split at h
  · cases h
  · rename_i hnot
    simp [hnot]

/-- A failed call leaves the engine as it was. -/
theorem Call.run_engine_of_failed {e : PaperEngine} (he : Sized e) (c : Call)
    (hfailed : (c.run e).failed = true) : (c.run e).engine = e := by
  cases c with
  | openPosition request clientOrderId currentPrice timestamp uuid =>
      rcases openPosition_cases e request clientOrderId currentPrice timestamp uuid with
        ⟨-, h⟩ | ⟨fee, hr, -⟩
      · exact h
      · simp [Call.run, hr] at hfailed
  | closePosition id clientOrderId currentPrice timestamp closeReason =>
      rcases closePosition_cases e id clientOrderId currentPrice timestamp closeReason with
        ⟨r, hr, h⟩ | h | ⟨p, costModel, executedPrice, hp, hcol, h⟩ |
        ⟨p, costModel, executedPrice, fill, -, -, -, h⟩
      · simp only [Call.run, h]
      · simp only [Call.run, h]
      · simp only [Call.run, h]
        exact Settles.credit_of_collateral_eq_zero he hp hcol
      · simp [Call.run, h, closeResult] at hfailed
  | updateSl id newSl => exact updateTrigger_of_failed hfailed
  | updateTp id newTp => exact updateTrigger_of_failed hfailed
  | checkStops prices now => cases hfailed
  | checkStopsAndLiquidation prices now ratio => cases hfailed
  | checkTtl now ttlS => cases hfailed

/-! ### Conservation -/

/-- Every reachable ledger satisfies the invariant, when the draws of `uuid4` are distinct. -/
theorem Ledger.inv_of_exec {initialBalance slippageBps : ℚ} {calls : List Call}
    (huuid : (calls.filterMap Call.uuid?).Nodup) {l : Ledger}
    (h : Transition.exec Ledger.step (Ledger.init initialBalance slippageBps) calls = some l) :
    l.Inv initialBalance :=
  Transition.exec_invariant_of_meets (I := Ledger.Inv initialBalance)
    (fun _ _ _ hl hfresh hstep => Ledger.step_inv hl hfresh hstep)
    (Ledger.inv_init initialBalance slippageBps)
    (Ledger.meets_fresh huuid fun _ _ hmem => by simp [Ledger.init] at hmem) h

/-- An opened identifier is open or in the history, once in all. -/
theorem Ledger.Inv.open_or_archived {initialBalance : ℚ} {l : Ledger} (hl : l.Inv initialBalance)
    {r : OrderResult} (hr : r ∈ l.opened) :
    (r.positionId ∈ l.engine.positions.keys ∧
        (l.engine.tradeHistory.map TradeFill.positionId).count r.positionId = 0) ∨
      (r.positionId ∉ l.engine.positions.keys ∧
        (l.engine.tradeHistory.map TradeFill.positionId).count r.positionId = 1) := by
  have hone : (l.opened.map (·.positionId)).count r.positionId = 1 :=
    List.count_eq_one_of_mem hl.distinct (List.mem_map_of_mem hr)
  have hcount := hl.accounted.count_eq r.positionId
  rw [ids, List.count_append, hone] at hcount
  by_cases hkey : r.positionId ∈ l.engine.positions.keys
  · left
    rw [List.count_eq_one_of_mem l.engine.positions.nodup_keys hkey] at hcount
    exact ⟨hkey, by omega⟩
  · right
    rw [List.count_eq_zero_of_not_mem hkey] at hcount
    exact ⟨hkey, by omega⟩

/-- The conservation law of the paper ledger, in every reachable state. -/
theorem ledger_conservation (initialBalance slippageBps : ℚ) (calls : List Call)
    (huuid : (calls.filterMap Call.uuid?).Nodup) {l : Ledger}
    (h : Transition.exec Ledger.step (Ledger.init initialBalance slippageBps) calls = some l) :
    l.engine.balance + (l.engine.positions.values.map Position.collateral).sum =
        initialBalance - l.entryFees + l.realizedPnl ∧
      (∀ r ∈ l.opened,
        (r.positionId ∈ l.engine.positions.keys ∧
            (l.engine.tradeHistory.map TradeFill.positionId).count r.positionId = 0) ∨
          (r.positionId ∉ l.engine.positions.keys ∧
            (l.engine.tradeHistory.map TradeFill.positionId).count r.positionId = 1)) ∧
      ∀ c : Call, (c.run l.engine).failed = true → (c.run l.engine).engine = l.engine := by
  have hinv := Ledger.inv_of_exec huuid h
  exact ⟨hinv.conserved, fun r hr => hinv.open_or_archived hr,
    fun c hc => c.run_engine_of_failed hinv.sized hc⟩

/-- A long position is opened, a second open is refused, and the stop loss closes the first. -/
def openThenStop : List Call :=
  [ .openPosition ⟨"EURUSD", .buy, 100, 10, some 1, none⟩ "a" (11 / 10) 0 "0001",
    .openPosition ⟨"XAUUSD", .sell, 100000, 10, none, none⟩ "b" 2000 1 "0002",
    .checkStops (Dict.empty.set "EURUSD" (9 / 10)) 2 ]

theorem ledger_conservation_openThenStop :
    ∃ l, Transition.exec Ledger.step (Ledger.init 10000 5) openThenStop = some l ∧
      (l.opened.length = 1 ∧ l.closed.length = 1) ∧
      l.engine.balance + (l.engine.positions.values.map Position.collateral).sum =
        10000 - l.entryFees + l.realizedPnl :=
  ⟨_, rfl, by decide +kernel, (ledger_conservation 10000 5 openThenStop (by decide) rfl).1⟩

end PaperEngine
