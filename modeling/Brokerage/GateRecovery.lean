/-
**Degraded symbols of the data layer, and their recovery.**

Every update computes the values of each symbol and degrades those whose last candle is too old or
that lack too many minutes.  A symbol that was degraded because minutes were missing recovers once
both values are within their thresholds; one whose last candle was too old never does, and is not
written any more.

Main definitions:

* `DataLayerProdService.World` — the degraded symbols, the metrics and the status;
* `DataLayerProdService.updateGateMetrics` — an update;
* `DataLayerProdService.run` — a run of the service;
* `DataLayerProdService.Recovered` — the symbols whose values are within their thresholds recovered;
* `DataLayerProdService.NoneStale` — none of them is degraded because its last candle was too old.

Main results:

* `DataLayerProdService.get?_degraded_updateGateMetrics` — what an update does to a symbol;
* `DataLayerProdService.stale_forever` — a symbol whose last candle was too old stays degraded;
* `DataLayerProdService.recovered_iff` — when the symbols recover in a run.
-/

import Brokerage.Dict
import Brokerage.GateMetrics

set_option relaxedAutoImplicit false
set_option autoImplicit false

namespace DataLayerProdService

open MarketHours (Reason)
open GateMetrics

/-! ### The service -/

/-- Why a symbol is degraded: candles that were fetched are wrong, or a gate. -/
inductive DegradeReason
  | prefetch (duplicates tsStepErrors : ℕ)
  | writer (duplicates tsStepErrors : ℕ)
  | staleSeconds (staleS staleSeconds : ℤ)
  | missingMinutes24h (missing24h maxMissingPer24h : ℤ)
  deriving DecidableEq

/-- The reason starts with `stale_seconds=`. -/
def DegradeReason.isStale : DegradeReason → Bool
  | staleSeconds _ _ => true
  | _ => false

/-- The reason starts with `missing_minutes_24h=`. -/
def DegradeReason.isMissing : DegradeReason → Bool
  | missingMinutes24h _ _ => true
  | _ => false

/-- `symbol_state`. -/
inductive SymbolState
  | active
  | degraded
  deriving DecidableEq

/-- The metrics of a symbol. -/
structure SymbolMetrics where
  symbolState : SymbolState := .active
  duplicates : ℕ := 0
  tsStepErrors : ℕ := 0
  degradeReason : Option DegradeReason := none
  values : GateValues := ⟨0, 0, 0, 0, true, .open_, 1440, 0⟩

/-- `data_layer_status`. -/
inductive Status
  | initializing
  | warmingUp (observedMin warmupMinutes : ℤ)
  | ready
  | degraded
  deriving DecidableEq

/-- The degraded symbols with their reasons, the metrics, and the status. -/
structure World where
  degraded : Dict String DegradeReason
  metrics : Dict String SymbolMetrics
  status : Status

/-- Before the first update. -/
def World.new : World := ⟨Dict.empty, Dict.empty, .initializing⟩

/-- `_get_or_create`. -/
def World.metricsOf (w : World) (symbol : String) : SymbolMetrics :=
  (w.metrics.get? symbol).getD {}

theorem World.metricsOf_set (w : World) (symbol : String) (m : SymbolMetrics) (s : String) :
    ({ w with metrics := w.metrics.set symbol m } : World).metricsOf s =
      if s = symbol then m else w.metricsOf s := by
  rw [World.metricsOf, World.metricsOf]
  dsimp only
  rw [Dict.get?_set]
  split <;> rfl

/-- `set_symbol_state`: a change of the state forgets the values of the gates. -/
def World.setSymbolState (w : World) (symbol : String) (state : SymbolState)
    (reason : Option DegradeReason) (duplicates tsStepErrors : ℕ) : World :=
  let m := w.metricsOf symbol
  { w with
    metrics := w.metrics.set symbol
      { m with
        symbolState := state
        degradeReason := reason
        duplicates := duplicates
        tsStepErrors := tsStepErrors
        values := { m.values with staleSeconds := 0, missingMinutes24h := 0, maxGapS := 0 } } }

def World.markDegraded (w : World) (symbol : String) (reason : DegradeReason)
    (duplicates tsStepErrors : ℕ) : World :=
  { w with degraded := w.degraded.set symbol reason }.setSymbolState symbol .degraded (some reason)
    duplicates tsStepErrors

/-- A symbol is active again. -/
def World.recover (w : World) (symbol : String) : World :=
  { w with degraded := w.degraded.erase symbol }.setSymbolState symbol .active none 0 0

/-! ### An update -/

/-- What an update meets: the clock, the hours, and the store's answers. -/
structure GateInput where
  clock : Clock
  cal : MarketCalendar
  lastTimestamp : String → Option ℤ
  missingCount : String → Option ℕ

variable (cfg : GateConfig) (serviceStartTs : ℤ) (symbols : List String)

/-- The values of a symbol, if it has a candle. -/
def valuesOf (input : GateInput) (symbol : String) : Option GateValues :=
  (input.lastTimestamp symbol).map fun lastTs =>
    gateValues cfg input.cal serviceStartTs input.clock symbol lastTs (input.missingCount symbol)

/-- What the gates do with a symbol. -/
def applyGates (w : World) (symbol : String) (v : GateValues) : World :=
  match w.degraded.get? symbol with
  | none =>
      if cfg.staleSeconds < v.staleSeconds then
        w.markDegraded symbol (.staleSeconds v.staleSeconds cfg.staleSeconds) 0 0
      else if v.marketOpen ∧ v.marketStateReason = .open_ ∧
          cfg.maxMissingPer24h < v.missingMinutes24h ∧ inWarmup cfg v = false then
        w.markDegraded symbol (.missingMinutes24h v.missingMinutes24h cfg.maxMissingPer24h) 0 0
      else w
  | some reason =>
      if reason.isMissing ∧ v.missingMinutes24h ≤ cfg.maxMissingPer24h ∧
          v.staleSeconds ≤ cfg.staleSeconds then
        w.recover symbol
      else w

/-- The loop's body. -/
def updateSymbol (input : GateInput) (w : World) (symbol : String) : World :=
  match valuesOf cfg serviceStartTs input symbol with
  | none => w
  | some v =>
      let m := w.metricsOf symbol
      applyGates cfg { w with metrics := w.metrics.set symbol { m with values := v } } symbol v

/-- The status after the loop. -/
def lifecycle (w : World) : Status :=
  if w.degraded.keys ≠ [] then .degraded
  else
    let observedMin := symbols.foldl
      (fun least s => min least (w.metricsOf s).values.observedOpenMinutes24h) 1440
    if observedMin < cfg.warmupMinutes then .warmingUp observedMin cfg.warmupMinutes else .ready

def updateGateMetrics (input : GateInput) (w : World) : World :=
  let w := symbols.foldl (updateSymbol cfg serviceStartTs input) w
  { w with status := lifecycle cfg symbols w }

/-! ### A run -/

/-- An update, or the writer, or the prefetch, refuses the candles of a symbol. -/
inductive Event
  | update (input : GateInput)
  | refuse (symbol : String) (prefetching : Bool) (duplicates tsStepErrors : ℕ)

/-- What an event does; only symbols that are not degraded are fetched. -/
def step (w : World) : Event → World
  | .update input => updateGateMetrics cfg serviceStartTs symbols input w
  | .refuse symbol prefetching duplicates tsStepErrors =>
      if symbol ∈ symbols ∧ w.degraded.get? symbol = none then
        w.markDegraded symbol
          (if prefetching then .prefetch duplicates tsStepErrors else .writer duplicates tsStepErrors)
          duplicates tsStepErrors
      else w

/-- The world after some events. -/
def run (events : List Event) : World := events.foldl (step cfg serviceStartTs symbols) World.new

/-! ### Recovery -/

/-- The values of a symbol of the service are within their thresholds. -/
def Within (input : GateInput) (symbol : String) : Prop :=
  symbol ∈ symbols ∧ ∃ v, valuesOf cfg serviceStartTs input symbol = some v ∧
    v.staleSeconds ≤ cfg.staleSeconds ∧ v.missingMinutes24h ≤ cfg.maxMissingPer24h

/-- After an update no symbol whose values are within their thresholds is degraded because of a
gate, and the status is not that of degraded symbols because of one. -/
structure Recovered (input : GateInput) (w : World) : Prop where
  symbol : ∀ symbol reason, Within cfg serviceStartTs symbols input symbol →
    w.degraded.get? symbol = some reason → reason.isStale = false ∧ reason.isMissing = false
  status : w.status = .degraded → ∃ symbol reason, w.degraded.get? symbol = some reason ∧
    (Within cfg serviceStartTs symbols input symbol →
      reason.isStale = false ∧ reason.isMissing = false)

/-- Before an update no symbol whose values are within their thresholds is degraded because its last
candle was too old. -/
def NoneStale (input : GateInput) (w : World) : Prop :=
  ∀ symbol reason, Within cfg serviceStartTs symbols input symbol →
    w.degraded.get? symbol = some reason → reason.isStale = false

variable {cfg serviceStartTs symbols}

/-! ### What an update does to a symbol -/

variable (cfg) in
/-- The reason of a symbol after its values were seen. -/
def nextReason (v : GateValues) (before : Option DegradeReason) : Option DegradeReason :=
  match before with
  | none =>
      if cfg.staleSeconds < v.staleSeconds then some (.staleSeconds v.staleSeconds cfg.staleSeconds)
      else if v.marketOpen ∧ v.marketStateReason = .open_ ∧
          cfg.maxMissingPer24h < v.missingMinutes24h ∧ inWarmup cfg v = false then
        some (.missingMinutes24h v.missingMinutes24h cfg.maxMissingPer24h)
      else none
  | some reason =>
      if reason.isMissing ∧ v.missingMinutes24h ≤ cfg.maxMissingPer24h ∧
          v.staleSeconds ≤ cfg.staleSeconds then none
      else some reason

/-- The gates change the reason of their symbol only. -/
theorem get?_degraded_applyGates (w : World) (symbol : String) (v : GateValues) (s : String) :
    (applyGates cfg w symbol v).degraded.get? s =
      if s = symbol then nextReason cfg v (w.degraded.get? symbol) else w.degraded.get? s := by
  rw [applyGates]
  cases hbefore : w.degraded.get? symbol with
  | none =>
      simp only [nextReason]
      by_cases hs : s = symbol
      · subst hs
        rw [if_pos rfl]
        split
        · exact Dict.get?_set_self _ _ _
        · split
          · exact Dict.get?_set_self _ _ _
          · exact hbefore
      · rw [if_neg hs]
        split
        · exact Dict.get?_set_of_ne _ _ hs
        · split
          · exact Dict.get?_set_of_ne _ _ hs
          · rfl
  | some reason =>
      simp only [nextReason]
      by_cases hs : s = symbol
      · subst hs
        rw [if_pos rfl]
        split
        · exact Dict.get?_erase_self _ _
        · exact hbefore
      · rw [if_neg hs]
        split
        · exact Dict.get?_erase_of_ne _ hs
        · rfl

/-- A reason that is not of missing minutes stays. -/
theorem nextReason_of_not_missing (v : GateValues) {reason : DegradeReason}
    (h : reason.isMissing = false) : nextReason cfg v (some reason) = some reason := by
  refine if_neg fun hrecover => ?_
  rw [h] at hrecover
  exact Bool.false_ne_true hrecover.1

/-- Values that were seen once more change nothing. -/
theorem nextReason_nextReason (v : GateValues) (before : Option DegradeReason) :
    nextReason cfg v (nextReason cfg v before) = nextReason cfg v before := by
  cases before with
  | none =>
      by_cases hstale : cfg.staleSeconds < v.staleSeconds
      · have hmark : nextReason cfg v none =
            some (.staleSeconds v.staleSeconds cfg.staleSeconds) := if_pos hstale
        rw [hmark]
        exact nextReason_of_not_missing v rfl
      · by_cases hmissing : v.marketOpen ∧ v.marketStateReason = .open_ ∧
            cfg.maxMissingPer24h < v.missingMinutes24h ∧ inWarmup cfg v = false
        · have hmark : nextReason cfg v none =
              some (.missingMinutes24h v.missingMinutes24h cfg.maxMissingPer24h) :=
            (if_neg hstale).trans (if_pos hmissing)
          rw [hmark]
          exact if_neg fun h => not_lt.2 h.2.1 hmissing.2.2.1
        · have hnone : nextReason cfg v none = none := (if_neg hstale).trans (if_neg hmissing)
          rw [hnone, hnone]
  | some reason =>
      by_cases hrecover : reason.isMissing ∧ v.missingMinutes24h ≤ cfg.maxMissingPer24h ∧
          v.staleSeconds ≤ cfg.staleSeconds
      · have hnone : nextReason cfg v (some reason) = none := if_pos hrecover
        rw [hnone]
        exact (if_neg (not_lt.2 hrecover.2.2)).trans
          (if_neg fun h => not_lt.2 hrecover.2.1 h.2.2.1)
      · have hstays : nextReason cfg v (some reason) = some reason := if_neg hrecover
        rw [hstays, hstays]

/-- The loop's body changes the reason of its symbol only. -/
theorem get?_degraded_updateSymbol (input : GateInput) (w : World) (symbol s : String) :
    (updateSymbol cfg serviceStartTs input w symbol).degraded.get? s =
      match valuesOf cfg serviceStartTs input s with
      | none => w.degraded.get? s
      | some v => if s = symbol then nextReason cfg v (w.degraded.get? s) else w.degraded.get? s := by
  rw [updateSymbol]
  by_cases hs : s = symbol
  · subst hs
    cases valuesOf cfg serviceStartTs input s with
    | none => rfl
    | some v =>
        dsimp only
        rw [get?_degraded_applyGates]
  · cases valuesOf cfg serviceStartTs input symbol with
    | none =>
        dsimp only
        split
        · rfl
        · rw [if_neg hs]
    | some v =>
        dsimp only
        rw [get?_degraded_applyGates, if_neg hs]
        split
        · rfl
        · rw [if_neg hs]

/-- What an update does to a symbol: to one of the service, what its values say. -/
theorem get?_degraded_updateGateMetrics (input : GateInput) (w : World) (s : String) :
    (updateGateMetrics cfg serviceStartTs symbols input w).degraded.get? s =
      match valuesOf cfg serviceStartTs input s with
      | none => w.degraded.get? s
      | some v => if s ∈ symbols then nextReason cfg v (w.degraded.get? s) else w.degraded.get? s := by
  change (symbols.foldl (updateSymbol cfg serviceStartTs input) w).degraded.get? s = _
  induction symbols generalizing w with
  | nil =>
      split
      · rfl
      · rfl
  | cons symbol symbols ih =>
      rw [List.foldl_cons, ih, get?_degraded_updateSymbol]
      cases valuesOf cfg serviceStartTs input s with
      | none => rfl
      | some v =>
          by_cases hs : s = symbol
          · simp only [hs, List.mem_cons, true_or, if_true, nextReason_nextReason, ite_self]
          · simp only [List.mem_cons, hs, false_or, if_false]

/-- After an update a symbol whose values are within their thresholds is degraded only if it was,
and not because minutes were missing. -/
theorem degraded_of_within {input : GateInput} {w : World} {symbol : String}
    (h : Within cfg serviceStartTs symbols input symbol) {reason : DegradeReason} :
    (updateGateMetrics cfg serviceStartTs symbols input w).degraded.get? symbol = some reason ↔
      w.degraded.get? symbol = some reason ∧ reason.isMissing = false := by
  obtain ⟨hmem, v, hv, hstale, hmissing⟩ := h
  rw [get?_degraded_updateGateMetrics, hv]
  dsimp only
  rw [if_pos hmem]
  cases w.degraded.get? symbol with
  | none =>
      have hnone : nextReason cfg v none = none :=
        (if_neg (not_lt.2 hstale)).trans (if_neg fun h => not_lt.2 hmissing h.2.2.1)
      rw [hnone]
      exact ⟨(fun h => by cases h), fun h => by cases h.1⟩
  | some before =>
      cases hbefore : before.isMissing with
      | false =>
          rw [nextReason_of_not_missing v hbefore]
          refine ⟨fun h => ⟨h, ?_⟩, fun h => h.1⟩
          rw [← Option.some.inj h, hbefore]
      | true =>
          have hnone : nextReason cfg v (some before) = none := if_pos ⟨hbefore, hmissing, hstale⟩
          rw [hnone]
          refine ⟨(fun h => by cases h), fun h => ?_⟩
          rw [← Option.some.inj h.1, hbefore] at h
          cases h.2

/-- A symbol whose last candle was too old once stays degraded for it. -/
theorem stale_forever {w : World} {symbol : String} {reason : DegradeReason}
    (h : w.degraded.get? symbol = some reason) (hstale : reason.isStale = true) (events : List Event) :
    (events.foldl (step cfg serviceStartTs symbols) w).degraded.get? symbol = some reason := by
  induction events generalizing w with
  | nil => exact h
  | cons event events ih =>
      refine ih ?_
      cases event with
      | update input =>
          have hmissing : reason.isMissing = false := by
            cases reason with
            | staleSeconds => rfl
            | _ => cases hstale
          rw [step, get?_degraded_updateGateMetrics]
          split
          · exact h
          · split
            · rw [h]
              exact nextReason_of_not_missing _ hmissing
            · exact h
      | refuse s prefetching duplicates tsStepErrors =>
          rw [step]
          split
          · rename_i hs
            have hne : symbol ≠ s := fun heq => by
              rw [← heq, h] at hs
              cases hs.2
            exact (Dict.get?_set_of_ne _ _ hne).trans h
          · exact h

/-- The symbols recover in an update exactly if none of those to recover is degraded because its
last candle was too old. -/
theorem recovered_update_iff (input : GateInput) (w : World) :
    Recovered cfg serviceStartTs symbols input
        (updateGateMetrics cfg serviceStartTs symbols input w) ↔
      NoneStale cfg serviceStartTs symbols input w := by
  constructor
  · intro h symbol reason hwithin hreason
    cases hmissing : reason.isMissing with
    | false => exact (h.symbol symbol reason hwithin ((degraded_of_within hwithin).2 ⟨hreason, hmissing⟩)).1
    | true =>
        cases reason with
        | missingMinutes24h => rfl
        | _ => cases hmissing
  · intro h
    have hsymbol : ∀ symbol reason, Within cfg serviceStartTs symbols input symbol →
        (updateGateMetrics cfg serviceStartTs symbols input w).degraded.get? symbol = some reason →
          reason.isStale = false ∧ reason.isMissing = false := by
      intro symbol reason hwithin hreason
      obtain ⟨hbefore, hmissing⟩ := (degraded_of_within hwithin).1 hreason
      exact ⟨h symbol reason hwithin hbefore, hmissing⟩
    refine ⟨hsymbol, fun hstatus => ?_⟩
    -- some symbol is degraded
    have hkeys : (symbols.foldl (updateSymbol cfg serviceStartTs input) w).degraded.keys ≠ [] := by
      intro hnil
      have hlifecycle : lifecycle cfg symbols
          (symbols.foldl (updateSymbol cfg serviceStartTs input) w) = .degraded := hstatus
      rw [lifecycle, if_neg (not_not.2 hnil)] at hlifecycle
      dsimp only at hlifecycle
      split at hlifecycle <;> cases hlifecycle
    obtain ⟨symbol, hmem⟩ := List.exists_mem_of_ne_nil _ hkeys
    rw [Dict.mem_keys_iff_contains, Dict.contains, Option.isSome_iff_exists] at hmem
    obtain ⟨reason, hreason⟩ := hmem
    exact ⟨symbol, reason, hreason, fun hwithin => hsymbol symbol reason hwithin hreason⟩

/-- In a run the symbols recover in every update exactly if no update finds one to recover that is
degraded because its last candle was too old. -/
theorem recovered_iff (events : List Event) :
    (∀ before input after, events = before ++ .update input :: after →
      Recovered cfg serviceStartTs symbols input
        (run cfg serviceStartTs symbols (before ++ [.update input]))) ↔
      ∀ before input after, events = before ++ .update input :: after →
        NoneStale cfg serviceStartTs symbols input (run cfg serviceStartTs symbols before) := by
  refine forall_congr' fun before => forall_congr' fun input => forall_congr' fun after =>
    imp_congr_right fun _ => ?_
  rw [run, List.foldl_append]
  exact recovered_update_iff input _

/-! ### An outage -/

/-- Tuesday, 3 February 2026, noon. -/
def noon : Clock := ⟨1770120000000000, by decide +kernel, by decide +kernel⟩

/-- Eleven minutes later. -/
def later : Clock := ⟨1770120660000000, by decide +kernel, by decide +kernel⟩

/-- Nothing came for ten minutes. -/
def outage : GateInput := ⟨noon, .fx245, fun _ => some 1770119400, fun _ => some 9⟩

/-- The feed is back, and only those minutes are missing. -/
def feedBack : GateInput := ⟨later, .fx245, fun _ => some 1770120600, fun _ => some 9⟩

theorem outage_stale :
    (run ⟨120, 180, 10, 180⟩ 1770000000 ["EURUSD"] [.update outage]).degraded.get? "EURUSD" =
      some (.staleSeconds 540 180) := by
  have hvalue : (gateValues ⟨120, 180, 10, 180⟩ .fx245 1770000000 noon "EURUSD" 1770119400
      (some 9)).staleSeconds = 540 := by
    decide
  change (updateGateMetrics _ _ _ outage World.new).degraded.get? "EURUSD" = _
  rw [get?_degraded_updateGateMetrics]
  have hvalues : valuesOf ⟨120, 180, 10, 180⟩ 1770000000 outage "EURUSD" =
      some (gateValues ⟨120, 180, 10, 180⟩ .fx245 1770000000 noon "EURUSD" 1770119400 (some 9)) := rfl
  rw [hvalues]
  dsimp only
  have hnew : World.new.degraded.get? "EURUSD" = none := rfl
  rw [if_pos (List.mem_singleton.2 rfl), hnew, nextReason, hvalue]
  rfl

theorem feedBack_within :
    Within ⟨120, 180, 10, 180⟩ 1770000000 ["EURUSD"] feedBack "EURUSD" := by
  refine ⟨List.mem_singleton.2 rfl, _, rfl, by decide, ?_⟩
  obtain ⟨-, -, hmin, hmax⟩ := later.window_spec
  change (missingAndClosed (some 9) (MarketCalendar.fx245.closedCounter "EURUSD"
    later.window24hStartTs later.nowTs)).1 ≤ 10
  rw [MarketCalendar.closedCounter_eq _ _ (by decide) hmin hmax, missingAndClosed]
  omega

/-- After an outage of ten minutes the symbol stays degraded, although nothing is wrong any more. -/
theorem outage_stuck :
    ¬ ∀ before input after,
      [.update outage, .update feedBack] = before ++ Event.update input :: after →
        Recovered ⟨120, 180, 10, 180⟩ 1770000000 ["EURUSD"] input
          (run ⟨120, 180, 10, 180⟩ 1770000000 ["EURUSD"] (before ++ [.update input])) := by
  intro h
  have hrecovered := h [.update outage] feedBack [] rfl
  rw [run, List.foldl_append] at hrecovered
  have hstale := (hrecovered.symbol "EURUSD" _ feedBack_within
    (stale_forever outage_stale rfl [.update feedBack])).1
  exact Bool.true_eq_false_eq_False hstale

end DataLayerProdService
