/-
**The gate at startup, and the health that is told.**

When the service has started, its metrics are updated and every symbol is judged once more by them;
the process may start only if none fails.  The metrics tell the same as the degraded symbols do,
whatever happened before: most of what the gate asks was asked by the update already, and it refuses
more only for a symbol whose market is not told to be open.  The health endpoint reads the same
metrics.

Main definitions:

* `DataLayerProdService.runStartupGateCheck` — the gate;
* `DataLayerProdService.getHealth` — the health that is told;
* `DataLayerProdService.Judged` — metrics that tell what the gates decided;
* `DataLayerProdService.Mirrored` — the metrics of all symbols do.

Main results:

* `DataLayerProdService.mirrored_run` — in every run the metrics tell what the gates decided;
* `DataLayerProdService.startupGate_iff` — when the gate lets the process start;
* `DataLayerProdService.Mirrored.health` — when the health is that of degraded symbols.
-/

import Brokerage.GateRecovery

set_option relaxedAutoImplicit false
set_option autoImplicit false

namespace DataLayerProdService

open GateMetrics

/-! ### The gate -/

/-- The text of a reason. -/
def DegradeReason.text : DegradeReason → String
  | prefetch duplicates tsStepErrors =>
      "prefetch duplicates=" ++ toString duplicates ++ " ts_step_errors=" ++ toString tsStepErrors
  | writer duplicates tsStepErrors =>
      "writer duplicates=" ++ toString duplicates ++ " ts_step_errors=" ++ toString tsStepErrors
  | staleSeconds staleS limit => "stale_seconds=" ++ toString staleS ++ " > " ++ toString limit
  | missingMinutes24h missing24h limit =>
      "missing_minutes_24h=" ++ toString missing24h ++ " > " ++ toString limit

/-- Why the gate refuses a symbol. -/
inductive GateFailure
  | degraded (reason : Option DegradeReason)
  | refused (duplicates tsStepErrors : ℕ)
  | stale (seconds limit : ℤ)
  | missing (minutes limit : ℤ)
  | gap (seconds limit : ℤ)
  deriving DecidableEq

/-- The text that is raised. -/
def GateFailure.text (symbol : String) : GateFailure → String
  | degraded (some reason) => reason.text
  | degraded none => "symbol " ++ symbol ++ " DEGRADED"
  | refused duplicates tsStepErrors =>
      "symbol " ++ symbol ++ " duplicates=" ++ toString duplicates ++ " ts_step_errors=" ++
        toString tsStepErrors
  | stale seconds limit =>
      "symbol " ++ symbol ++ " stale_seconds=" ++ toString seconds ++ " > " ++ toString limit
  | missing minutes limit =>
      "symbol " ++ symbol ++ " missing_minutes_24h=" ++ toString minutes ++ " > " ++ toString limit
  | gap seconds limit =>
      "symbol " ++ symbol ++ " max_gap_s=" ++ toString seconds ++ " > " ++ toString limit

variable (cfg : GateConfig) (serviceStartTs : ℤ) (symbols : List String)

/-- The loop's body: what is wrong with a symbol, by its metrics. -/
def checkSymbol (m : SymbolMetrics) : Option GateFailure :=
  if m.symbolState = .degraded then some (.degraded m.degradeReason)
  else if 0 < m.duplicates ∨ 0 < m.tsStepErrors then some (.refused m.duplicates m.tsStepErrors)
  else if m.values.marketOpen ∧ cfg.staleSeconds < m.values.staleSeconds then
    some (.stale m.values.staleSeconds cfg.staleSeconds)
  else if inWarmup cfg m.values = false ∧ cfg.maxMissingPer24h < m.values.missingMinutes24h then
    some (.missing m.values.missingMinutes24h cfg.maxMissingPer24h)
  else if cfg.maxGapS < m.values.maxGapS then some (.gap m.values.maxGapS cfg.maxGapS)
  else none

/-- The gate: an update, and the first symbol that fails. -/
def runStartupGateCheck (input : GateInput) (w : World) : World × Option (String × GateFailure) :=
  let w := updateGateMetrics cfg serviceStartTs symbols input w
  (w, symbols.findSome? fun symbol =>
    (checkSymbol cfg (w.metricsOf symbol)).map fun f => (symbol, f))

/-- `get_health`: whether the status is `degraded`, when the gate and the data layer are set. -/
def getHealth (startupGate enabled : Bool) (metrics : Dict String SymbolMetrics) : Bool :=
  startupGate && enabled && metrics.values.any fun m => m.symbolState = .degraded

/-! ### What the metrics tell -/

/-- The metrics of a symbol tell whether it is degraded, and why; if it is not, they are within what
the gates ask. -/
structure Judged (degraded : Option DegradeReason) (m : SymbolMetrics) : Prop where
  state : m.symbolState = if degraded = none then .active else .degraded
  reason : m.degradeReason = degraded
  counts : degraded = none → m.duplicates = 0 ∧ m.tsStepErrors = 0
  stale : degraded = none → m.values.staleSeconds ≤ cfg.staleSeconds
  missing : degraded = none → m.values.marketOpen = true → m.values.marketStateReason = .open_ →
    inWarmup cfg m.values = false → m.values.missingMinutes24h ≤ cfg.maxMissingPer24h
  gap : degraded = none → m.values.maxGapS ≤ cfg.maxGapS

/-- The metrics of all symbols do, and only those of the service are degraded. -/
structure Mirrored (w : World) : Prop where
  judged : ∀ s, Judged cfg (w.degraded.get? s) (w.metricsOf s)
  mem : ∀ s reason, w.degraded.get? s = some reason → s ∈ symbols

/-- Thresholds that are not negative. -/
structure Thresholds : Prop where
  stale : 0 ≤ cfg.staleSeconds
  missing : 0 ≤ cfg.maxMissingPer24h
  gap : 0 ≤ cfg.maxGapS

variable {cfg serviceStartTs symbols} {w : World} {symbol : String}

/-- The metrics of all symbols but one tell what the gates decided. -/
structure MirroredBut (cfg : GateConfig) (symbols : List String) (w : World) (symbol : String) :
    Prop where
  judged : ∀ s, s ≠ symbol → Judged cfg (w.degraded.get? s) (w.metricsOf s)
  mem : ∀ s reason, s ≠ symbol → w.degraded.get? s = some reason → s ∈ symbols

namespace MirroredBut

theorem setMetrics (h : Mirrored cfg symbols w) (symbol : String) (m : SymbolMetrics) :
    MirroredBut cfg symbols { w with metrics := w.metrics.set symbol m } symbol where
  judged s hs := by
    rw [World.metricsOf_set, if_neg hs]
    exact h.judged s
  mem s reason _ := h.mem s reason

/-- A symbol is degraded. -/
theorem markDegraded (h : MirroredBut cfg symbols w symbol) (hsymbol : symbol ∈ symbols)
    (reason : DegradeReason) (duplicates tsStepErrors : ℕ) :
    Mirrored cfg symbols (w.markDegraded symbol reason duplicates tsStepErrors) where
  judged s := by
    rw [World.markDegraded, World.setSymbolState, World.metricsOf_set]
    dsimp only
    rw [Dict.get?_set]
    split
    · exact ⟨rfl, rfl, by simp, by simp, by simp, by simp⟩
    · exact h.judged s ‹_›
  mem s reason' hs := by
    by_cases heq : s = symbol
    · exact heq ▸ hsymbol
    · exact h.mem s reason' heq ((Dict.get?_set_of_ne _ _ heq).symm.trans hs)

/-- A symbol recovers. -/
theorem recover (h : MirroredBut cfg symbols w symbol) (hcfg : Thresholds cfg) :
    Mirrored cfg symbols (w.recover symbol) where
  judged s := by
    rw [World.recover, World.setSymbolState, World.metricsOf_set]
    dsimp only
    rw [Dict.get?_erase]
    split
    · exact ⟨rfl, rfl, fun _ => ⟨rfl, rfl⟩, fun _ => hcfg.stale, fun _ _ _ _ => hcfg.missing,
        fun _ => hcfg.gap⟩
    · exact h.judged s ‹_›
  mem s reason hs := by
    by_cases heq : s = symbol
    · subst heq
      have hnone : (w.recover s).degraded.get? s = none := Dict.get?_erase_self _ _
      rw [hnone] at hs
      cases hs
    · exact h.mem s reason heq ((Dict.get?_erase_of_ne _ heq).symm.trans hs)

/-- What the metrics of the symbol itself tell. -/
theorem insert (h : MirroredBut cfg symbols w symbol) (hsymbol : symbol ∈ symbols)
    (hjudged : Judged cfg (w.degraded.get? symbol) (w.metricsOf symbol)) :
    Mirrored cfg symbols w where
  judged s := by
    by_cases heq : s = symbol
    · exact heq ▸ hjudged
    · exact h.judged s heq
  mem s reason hs := by
    by_cases heq : s = symbol
    · exact heq ▸ hsymbol
    · exact h.mem s reason heq hs

end MirroredBut

/-! ### Runs -/

/-- The gap that is computed is never above its threshold. -/
theorem maxGapS_le (hcfg : Thresholds cfg) {input : GateInput} {v : GateValues}
    (hv : valuesOf cfg serviceStartTs input symbol = some v) : v.maxGapS ≤ cfg.maxGapS := by
  rw [valuesOf, Option.map_eq_some_iff] at hv
  obtain ⟨lastTs, -, rfl⟩ := hv
  change (if _ then min cfg.maxGapS _ else 0) ≤ cfg.maxGapS
  split
  · exact min_le_left _ _
  · exact hcfg.gap

/-- The loop's body. -/
theorem Mirrored.updateSymbol (h : Mirrored cfg symbols w) (hcfg : Thresholds cfg)
    (hsymbol : symbol ∈ symbols) (input : GateInput) :
    Mirrored cfg symbols (updateSymbol cfg serviceStartTs input w symbol) := by
  rw [DataLayerProdService.updateSymbol]
  cases hv : valuesOf cfg serviceStartTs input symbol with
  | none => exact h
  | some v =>
      have hjudged := h.judged symbol
      have hbut := MirroredBut.setMetrics h symbol { w.metricsOf symbol with values := v }
      have hmetrics : ({ w with
          metrics := w.metrics.set symbol { w.metricsOf symbol with values := v } } : World).metricsOf
            symbol = { w.metricsOf symbol with values := v } := by
        rw [World.metricsOf_set, if_pos rfl]
      dsimp only
      rw [applyGates]
      dsimp only
      cases hdegraded : w.degraded.get? symbol with
      | none =>
          rw [hdegraded] at hjudged
          dsimp only
          split
          · exact hbut.markDegraded hsymbol _ 0 0
          · rename_i hstale
            split
            · exact hbut.markDegraded hsymbol _ 0 0
            · rename_i hmissing
              refine hbut.insert hsymbol ?_
              rw [hmetrics]
              dsimp only
              rw [hdegraded]
              exact ⟨hjudged.state, hjudged.reason, hjudged.counts, fun _ => not_lt.1 hstale,
                fun _ hopen hreason hwarm => not_lt.1 fun hlt => hmissing ⟨hopen, hreason, hlt, hwarm⟩,
                fun _ => maxGapS_le hcfg hv⟩
      | some reason =>
          rw [hdegraded] at hjudged
          dsimp only
          split
          · exact hbut.recover hcfg
          · refine hbut.insert hsymbol ?_
            rw [hmetrics]
            dsimp only
            rw [hdegraded]
            exact ⟨hjudged.state, hjudged.reason, by simp, by simp, by simp, by simp⟩

theorem Mirrored.updateGateMetrics (h : Mirrored cfg symbols w) (hcfg : Thresholds cfg)
    (input : GateInput) :
    Mirrored cfg symbols (updateGateMetrics cfg serviceStartTs symbols input w) := by
  have hloop : ∀ l : List String, (∀ s ∈ l, s ∈ symbols) → ∀ w, Mirrored cfg symbols w →
      Mirrored cfg symbols
        (l.foldl (DataLayerProdService.updateSymbol cfg serviceStartTs input) w) := by
    intro l
    induction l with
    | nil => exact fun _ w hw => hw
    | cons s l ih =>
        intro hl w hw
        exact ih (fun s' hs' => hl s' (List.mem_cons_of_mem s hs')) _
          (hw.updateSymbol hcfg (hl s List.mem_cons_self) input)
  exact ⟨(hloop symbols (fun _ hs => hs) w h).judged, (hloop symbols (fun _ hs => hs) w h).mem⟩

/-- Before the first update. -/
theorem mirrored_new (hcfg : Thresholds cfg) : Mirrored cfg symbols World.new where
  judged _ := ⟨rfl, rfl, fun _ => ⟨rfl, rfl⟩, fun _ => hcfg.stale, fun _ _ _ _ => hcfg.missing,
    fun _ => hcfg.gap⟩
  mem s reason hs := by cases hs

theorem Mirrored.step (h : Mirrored cfg symbols w) (hcfg : Thresholds cfg) (e : Event) :
    Mirrored cfg symbols (step cfg serviceStartTs symbols w e) := by
  cases e with
  | update input => exact h.updateGateMetrics hcfg input
  | refuse s prefetching duplicates tsStepErrors =>
      rw [DataLayerProdService.step]
      split
      · rename_i hs
        have hbut : MirroredBut cfg symbols w s :=
          ⟨fun s' _ => h.judged s', fun s' reason _ => h.mem s' reason⟩
        exact hbut.markDegraded hs.1 _ duplicates tsStepErrors
      · exact h

/-- In every run the metrics tell what the gates decided. -/
theorem mirrored_run (hcfg : Thresholds cfg) (events : List Event) :
    Mirrored cfg symbols (run cfg serviceStartTs symbols events) := by
  rw [run]
  induction events using List.reverseRecOn with
  | nil => exact mirrored_new hcfg
  | append_singleton events e ih =>
      rw [List.foldl_append]
      exact ih.step hcfg e

/-! ### The gate and the health -/

/-- A symbol that is not degraded fails only if minutes are missing while its market is not told to
be open. -/
theorem Judged.check {degraded : Option DegradeReason} {m : SymbolMetrics}
    (h : Judged cfg degraded m) :
    checkSymbol cfg m = none ↔ degraded = none ∧
      (¬ (m.values.marketOpen = true ∧ m.values.marketStateReason = .open_) →
        inWarmup cfg m.values = false → m.values.missingMinutes24h ≤ cfg.maxMissingPer24h) := by
  rw [checkSymbol]
  cases degraded with
  | some reason => simp [h.state]
  | none =>
      obtain ⟨hduplicates, hsteps⟩ := h.counts rfl
      have hstale := h.stale rfl
      have hmissing := h.missing rfl
      have hgap := h.gap rfl
      rw [h.state, if_neg (by simp), if_neg (by omega), if_neg (fun hlt => not_lt.2 hstale hlt.2)]
      constructor
      · intro hcheck
        refine ⟨rfl, fun _ hwarm => not_lt.1 fun hlt => ?_⟩
        rw [if_pos ⟨hwarm, hlt⟩] at hcheck
        cases hcheck
      · rintro ⟨-, hclosed⟩
        rw [if_neg, if_neg (not_lt.2 hgap)]
        rintro ⟨hwarm, hlt⟩
        by_cases hopen : m.values.marketOpen = true ∧ m.values.marketStateReason = .open_
        · exact not_lt.2 (hmissing hopen.1 hopen.2 hwarm) hlt
        · exact not_lt.2 (hclosed hopen hwarm) hlt

/-- After an update the status is that of degraded symbols exactly if there are some. -/
theorem status_eq_degraded_iff (input : GateInput) (w : World) :
    (updateGateMetrics cfg serviceStartTs symbols input w).status = .degraded ↔
      ∃ s, (updateGateMetrics cfg serviceStartTs symbols input w).degraded.get? s ≠ none := by
  rw [updateGateMetrics]
  dsimp only
  generalize symbols.foldl (DataLayerProdService.updateSymbol cfg serviceStartTs input) w = w'
  have hkeys : w'.degraded.keys ≠ [] ↔ ∃ s, w'.degraded.get? s ≠ none := by
    constructor
    · intro h
      obtain ⟨s, hs⟩ := List.exists_mem_of_ne_nil _ h
      exact ⟨s, fun hnone => Dict.get?_eq_none_iff.1 hnone hs⟩
    · rintro ⟨s, hs⟩ hnil
      refine hs (Dict.get?_eq_none_iff.2 ?_)
      rw [hnil]
      exact List.not_mem_nil
  rw [← hkeys, lifecycle]
  split
  · exact iff_of_true rfl ‹_›
  · refine iff_of_false ?_ ‹_›
    dsimp only
    split
    · simp
    · simp

/-- The health is that of degraded symbols exactly if there are some. -/
theorem Mirrored.health (h : Mirrored cfg symbols w) :
    getHealth true true w.metrics = true ↔ ∃ s, w.degraded.get? s ≠ none := by
  have hstate : ∀ s, (w.metricsOf s).symbolState = .degraded ↔ w.degraded.get? s ≠ none := by
    intro s
    rw [(h.judged s).state]
    split
    · exact iff_of_false (by simp) (not_not.2 ‹_›)
    · exact iff_of_true rfl ‹_›
  rw [getHealth, Bool.true_and, Bool.true_and, List.any_eq_true]
  constructor
  · rintro ⟨m, hm, hdegraded⟩
    obtain ⟨s, hs⟩ := Dict.mem_values_iff.1 hm
    refine ⟨s, (hstate s).1 ?_⟩
    rw [World.metricsOf, hs]
    exact of_decide_eq_true hdegraded
  · rintro ⟨s, hs⟩
    have hdegraded := (hstate s).2 hs
    cases hm : w.metrics.get? s with
    | none =>
        rw [World.metricsOf, hm] at hdegraded
        cases hdegraded
    | some m =>
        rw [World.metricsOf, hm] at hdegraded
        exact ⟨m, Dict.mem_values_iff.2 ⟨s, hm⟩, decide_eq_true hdegraded⟩

/-- Whatever happened before, the gate lets the process start exactly if the status is not that of
degraded symbols and none whose market is not told to be open lacks too many minutes; and the health
that is told is that of the status. -/
theorem startupGate_iff (hcfg : Thresholds cfg) (events : List Event) (input : GateInput) :
    let w := (runStartupGateCheck cfg serviceStartTs symbols input
      (run cfg serviceStartTs symbols events)).1
    ((runStartupGateCheck cfg serviceStartTs symbols input
        (run cfg serviceStartTs symbols events)).2 = none ↔
      w.status ≠ .degraded ∧ ∀ s ∈ symbols,
        ¬ ((w.metricsOf s).values.marketOpen = true ∧
            (w.metricsOf s).values.marketStateReason = .open_) →
          inWarmup cfg (w.metricsOf s).values = false →
            (w.metricsOf s).values.missingMinutes24h ≤ cfg.maxMissingPer24h) ∧
      (getHealth true true w.metrics = true ↔ w.status = .degraded) := by
  have hrun : Mirrored cfg symbols (run cfg serviceStartTs symbols events) :=
    mirrored_run hcfg events
  have hmirrored : Mirrored cfg symbols (updateGateMetrics cfg serviceStartTs symbols input
      (run cfg serviceStartTs symbols events)) := hrun.updateGateMetrics hcfg input
  have hstatus : (updateGateMetrics cfg serviceStartTs symbols input
      (run cfg serviceStartTs symbols events)).status = .degraded ↔ _ :=
    status_eq_degraded_iff input (run cfg serviceStartTs symbols events)
  rw [runStartupGateCheck]
  dsimp only
  refine ⟨?_, hmirrored.health.trans hstatus.symm⟩
  rw [List.findSome?_eq_none_iff, Ne, hstatus]
  generalize updateGateMetrics cfg serviceStartTs symbols input _ = w at hmirrored
  simp only [Option.map_eq_none_iff, (hmirrored.judged _).check]
  constructor
  · intro h
    refine ⟨?_, fun s hs => (h s hs).2⟩
    rintro ⟨s, hs⟩
    obtain ⟨reason, hreason⟩ := Option.ne_none_iff_exists'.1 hs
    exact hs (h s (hmirrored.mem s reason hreason)).1
  · rintro ⟨hnone, hclosed⟩ s hs
    exact ⟨by_contra fun hdegraded => hnone ⟨s, hdegraded⟩, hclosed s hs⟩

/-- A start after the outage. -/
theorem startupGate_iff_outage :
    let w := (runStartupGateCheck ⟨120, 180, 1, 180⟩ 1770000000 ["EURUSD"] feedBack
      (run ⟨120, 180, 1, 180⟩ 1770000000 ["EURUSD"] [.update outage])).1
    ((runStartupGateCheck ⟨120, 180, 1, 180⟩ 1770000000 ["EURUSD"] feedBack
        (run ⟨120, 180, 1, 180⟩ 1770000000 ["EURUSD"] [.update outage])).2 = none ↔
      w.status ≠ .degraded ∧ ∀ s ∈ ["EURUSD"],
        ¬ ((w.metricsOf s).values.marketOpen = true ∧
            (w.metricsOf s).values.marketStateReason = .open_) →
          inWarmup ⟨120, 180, 1, 180⟩ (w.metricsOf s).values = false →
            (w.metricsOf s).values.missingMinutes24h ≤ 1) ∧
      (getHealth true true w.metrics = true ↔ w.status = .degraded) :=
  startupGate_iff ⟨by decide, by decide, by decide⟩ [.update outage] feedBack

end DataLayerProdService
