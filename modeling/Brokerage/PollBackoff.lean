/-
**The backoff of a symbol whose polls fail.**

From its third failure in a row on, a symbol is polled later.  Two functions write the time of its
next poll one after the other: `markDegraded` sets it to the clock and the base, and
`increaseBackoff` then doubles what is left until that time.  What was left of the earlier waits is
overwritten by the first one, so that the wait is about twice the base, however often a poll failed.

The polls of a run are recorded with the time of the next poll after each of them.

Main definitions:

* `OstiumIngest.PollRecord`, `OstiumIngest.trace` — what is seen of the polls of a symbol in a run;
* `OstiumIngest.Grows` — what the waits of a run should do;
* `OstiumIngest.Backed` — only a symbol that is degraded by its polls has to wait.

Main results:

* `OstiumIngest.pollLoopBody_eq` — the polls are a part of a cycle;
* `OstiumIngest.backed_step`, `OstiumIngest.faithful_trace` — the waits in a run;
* `OstiumIngest.grows_iff` — exactly when the waits of a run grow;
* `OstiumIngest.four_failures` — a run in which they do not.
-/

import Brokerage.OstiumIngest

set_option relaxedAutoImplicit false
set_option autoImplicit false

open OstiumCandleIngestService

namespace OstiumIngest

/-! ### The polls of a run -/

/-- What is seen of a poll: a failure while the market is open, with the number of failures in a row,
the clock of the cycle, the clock at the failure and the time of the next poll after it; or an
accepted tick, with the time of the next poll. -/
inductive PollRecord
  | failed (failures : ℕ) (nowTs clock : ℤ) (backoffUntil : Option ℤ)
  | accepted (backoffUntil : Option ℤ)
  deriving DecidableEq

section Records

variable {S : Type} (z : Zones) (sink : CandleSink S) (cfg : IngestConfig) (symbol : String)

/-- What is seen of a poll of the symbol, between two states: of failures, the third one in a row and
those after it. -/
def recordOf (nowTs : ℤ) (poll : Poll) (w w' : IngestWorld S) : Option PollRecord :=
  match poll.fetched with
  | .price timestamp _ =>
      if w.service.invalidTick cfg symbol timestamp nowTs then none
      else some (.accepted (w'.service.symbolBackoffUntil symbol))
  | .failed clock =>
      if cfg.marketOpen symbol nowTs ∧ 3 ≤ w'.service.consecutivePollFailures symbol then
        some (.failed (w'.service.consecutivePollFailures symbol) nowTs clock
          (w'.service.symbolBackoffUntil symbol))
      else none
  | .cancelled => none

/-- What is seen of the polls of a cycle. -/
def pollRecords (nowTs : ℤ) (polls : ℕ → Poll) : List (String × ℕ) → IngestWorld S → List PollRecord
  | [], _ => []
  | p :: ps, w =>
      match pollSymbol cfg nowTs p.1 (polls p.2) w with
      | .ok _ w' =>
          (if p.1 = symbol then recordOf cfg symbol nowTs (polls p.2) w w' else none).toList ++
            pollRecords nowTs polls ps w'
      | .error _ _ => []

/-- The part of a cycle before its polls, with the symbols that are polled, and those that are polled
while their market is closed. -/
def beforePolls (c : PollCycle) : IngestStep S (List String × List String) := do
  let w ← get
  let active := w.service.activeSymbols
  let prevPaused := w.service.pausedSymbols
  let paused := active.filter fun s => !cfg.marketOpen s c.nowTs
  modifyService fun s => { s with pausedSymbols := paused }
  (paused.filter fun s => s ∉ prevPaused).forM (flushClosedMinutes z sink cfg c.nowTs)
  let w ← get
  pure (active.filter fun s => w.service.isPolled s paused c.nowTs,
    active.filter fun s => w.service.isHeartbeat cfg s paused c.nowTs)

/-- The part of a cycle after its polls. -/
def afterPolls (c : PollCycle) (pollSymbols heartbeatSymbols : List String) : IngestStep S Unit := do
  heartbeatSymbols.zipIdx.forM fun p => heartbeatPoll c.nowTs p.1 (c.heartbeats p.2)
  pollSymbols.forM (flushClosedMinutes z sink cfg c.nowTs)
  let w ← get
  w.service.symbols.forM (updateGateMetrics cfg c)

/-- The polls are a part of a cycle. -/
theorem pollLoopBody_eq (c : PollCycle) : pollLoopBody z sink cfg c = (do
    let selected ← beforePolls z sink cfg c
    selected.1.zipIdx.forM fun p => pollSymbol cfg c.nowTs p.1 (c.polls p.2)
    afterPolls z sink cfg c selected.1 selected.2) := by
  simp only [pollLoopBody, beforePolls, afterPolls, bind_assoc, pure_bind]

/-- What is seen of the polls of a cycle. -/
def cycleRecords (c : PollCycle) (w : IngestWorld S) : List PollRecord :=
  match beforePolls z sink cfg c w with
  | .ok selected w₁ => pollRecords cfg symbol c.nowTs c.polls selected.1.zipIdx w₁
  | .error _ _ => []

/-- What is seen of the polls of a symbol in a run. -/
def trace : IngestWorld S → List IngestEvent → List PollRecord
  | _, [] => []
  | w, .cycle c :: events =>
      cycleRecords z sink cfg symbol c w ++ trace (w.step z sink cfg (.cycle c)) events
  | w, .updateSymbols symbols :: events =>
      trace (w.step z sink cfg (.updateSymbols symbols)) events

end Records

/-! ### What the waits should do -/

section Waits

variable (cfg : IngestConfig)

/-- The next wait after one more failure is not shorter, and twice the last one up to the maximum. -/
def GrowsTo : PollRecord → PollRecord → Prop
  | .failed n now _ u, .failed m now' _ u' =>
      m = n + 1 → ∀ d d', u = some (now + d) → u' = some (now' + d') →
        d ≤ d' ∧ d' = min (2 * d) cfg.backoffMaxS
  | _, _ => True

/-- The waits after failures are not longer than the maximum and grow up to it, and there is none
after an accepted tick. -/
structure Grows (records : List PollRecord) : Prop where
  bounded : ∀ n now clock u, .failed n now clock u ∈ records →
    ∃ d, u = some (now + d) ∧ d ≤ cfg.backoffMaxS
  growing : records.IsChain (GrowsTo cfg)
  cleared : ∀ u, .accepted u ∈ records → u = none

/-- What is doubled after a failure: the base, or what is left of it from the clock at the failure,
if that is more. -/
def doubled (now clock : ℤ) : ℤ := max (max 0 (clock + cfg.backoffBaseS - now)) cfg.backoffBaseS

/-- After two failures in a row the maximum is reached, with one more doubling at most; or twice as
much is doubled the second time, as the clock was so late. -/
def Doubles : PollRecord → PollRecord → Prop
  | .failed n now clock _, .failed m now' clock' _ =>
      m = n + 1 → 0 ≤ cfg.backoffMaxS ∧
        ((cfg.backoffMaxS ≤ 4 * doubled cfg now clock ∧
            cfg.backoffMaxS ≤ 2 * doubled cfg now' clock') ∨
          doubled cfg now' clock' = 2 * doubled cfg now clock)
  | _, _ => True

/-- What a poll leaves: the wait after a failure is computed from the clocks and the settings alone,
and there is none after an accepted tick. -/
def Faithful : PollRecord → Prop
  | .failed _ now clock u => u = some (now + min (2 * doubled cfg now clock) cfg.backoffMaxS)
  | .accepted u => u = none

theorem growsTo_iff {r r' : PollRecord} (h : Faithful cfg r) (h' : Faithful cfg r') :
    GrowsTo cfg r r' ↔ Doubles cfg r r' := by
  cases r with
  | accepted u => exact Iff.rfl
  | failed n now clock u =>
      cases r' with
      | accepted u' => exact Iff.rfl
      | failed m now' clock' u' =>
          obtain rfl := h
          obtain rfl := h'
          have hnonneg : 0 ≤ doubled cfg now clock :=
            (le_max_left _ _).trans (le_max_left _ _)
          have hnonneg' : 0 ≤ doubled cfg now' clock' :=
            (le_max_left _ _).trans (le_max_left _ _)
          simp only [GrowsTo, Doubles, Option.some.injEq, add_right_inj]
          refine imp_congr_right fun _ => ⟨fun hgrows => ?_, fun hdoubles => ?_⟩
          · have hwaits := hgrows _ _ rfl rfl
            omega
          · rintro d d' rfl rfl
            omega

/-- The waits of some polls grow, if and only if the condition holds from each failure to the
next. -/
theorem grows_iff_isChain {records : List PollRecord} (h : ∀ r ∈ records, Faithful cfg r) :
    Grows cfg records ↔ records.IsChain (Doubles cfg) := by
  have hchain : records.IsChain (GrowsTo cfg) ↔ records.IsChain (Doubles cfg) :=
    List.IsChain.iff_of_mem_imp fun r r' hr hr' => growsTo_iff cfg (h r hr) (h r' hr')
  refine ⟨fun hgrows => hchain.1 hgrows.growing, fun hdoubles => ⟨?_, hchain.2 hdoubles, ?_⟩⟩
  · intro n now clock u hmem
    exact ⟨_, h _ hmem, min_le_right _ _⟩
  · exact fun u hmem => h _ hmem

end Waits

/-! ### Who has to wait -/

/-- Only a symbol that is degraded by its polls has to wait. -/
def Backed (s : OstiumCandleIngestService) : Prop :=
  ∀ symbol, (s.symbolBackoffUntil symbol).isSome →
    ∃ n, s.degradedReason symbol = some (.pollFailures n)

section Backed

variable {cfg : IngestConfig} {s : OstiumCandleIngestService} {symbol : String}

theorem backed_new (symbols : List String) : Backed (OstiumCandleIngestService.new symbols) :=
  fun _ h => by cases h

/-- A symbol that is not degraded by its polls does not have to wait. -/
theorem Backed.eq_none (h : Backed s)
    (hreason : ∀ n, s.degradedReason symbol ≠ some (.pollFailures n)) :
    s.symbolBackoffUntil symbol = none := by
  by_contra hne
  obtain ⟨n, hn⟩ := h symbol (Option.isSome_iff_ne_none.2 hne)
  exact hreason n hn

theorem Backed.autorecover (h : Backed s) : Backed (s.autorecover symbol) := by
  intro symbol' hsome
  by_cases heq : symbol' = symbol
  · subst heq
    simp [OstiumCandleIngestService.autorecover] at hsome
  · simp only [OstiumCandleIngestService.autorecover, Function.update_of_ne heq] at hsome ⊢
    exact h symbol' hsome

/-- A symbol that is not degraded can be degraded for another reason. -/
theorem Backed.markDegraded (h : Backed s) (hnone : s.degradedReason symbol = none)
    {reason : DegradeReason} (hreason : ∀ n, reason ≠ .pollFailures n) (clock : ℤ) :
    Backed (s.markDegraded cfg symbol reason clock) := by
  have huntil : (s.markDegraded cfg symbol reason clock).symbolBackoffUntil = s.symbolBackoffUntil := by
    cases reason with
    | pollFailures n => exact absurd rfl (hreason n)
    | staleSeconds _ => rfl
    | missingMinutes24h _ => rfl
    | ostiumDuplicates _ _ => rfl
  intro symbol' hsome
  rw [huntil] at hsome
  have hne : symbol' ≠ symbol := by
    rintro rfl
    rw [h.eq_none fun n hn => (by cases hnone.symm.trans hn)] at hsome
    cases hsome
  simp only [OstiumCandleIngestService.markDegraded, Function.update_of_ne hne]
  exact h symbol' hsome

theorem Backed.applyVerdict (h : Backed s) (clock : ℤ) (verdict : Verdict) :
    Backed (s.applyVerdict cfg symbol clock verdict) := by
  cases verdict with
  | keep => exact h
  | raises => exact h
  | stale seconds =>
      rw [OstiumCandleIngestService.applyVerdict]
      split
      · exact h.markDegraded ‹_› (by simp) clock
      · exact h
  | missing minutes =>
      rw [OstiumCandleIngestService.applyVerdict]
      split
      · exact h.markDegraded ‹_› (by simp) clock
      · exact h
  | recovered =>
      rw [OstiumCandleIngestService.applyVerdict]
      split
      · exact h.autorecover
      · exact h

theorem Backed.updateSymbols (h : Backed s) (symbols : List String) :
    Backed (s.updateSymbols symbols) := h

theorem Backed.reloads (h : Backed s) (reloads : List (List String)) :
    Backed (reloads.foldl OstiumCandleIngestService.updateSymbols s) := by
  induction reloads generalizing s with
  | nil => exact h
  | cons symbols reloads ih => exact ih (h.updateSymbols symbols)

/-- The failures in a row, and the time of the next poll, after a failure. -/
theorem pollFailed_spec (s : OstiumCandleIngestService) (symbol : String) (nowTs clock : ℤ) :
    3 ≤ (s.pollFailed cfg symbol nowTs clock).consecutivePollFailures symbol →
      cfg.marketOpen symbol nowTs = true →
      (s.pollFailed cfg symbol nowTs clock).symbolBackoffUntil symbol =
        some (nowTs + min (2 * doubled cfg nowTs clock) cfg.backoffMaxS) := by
  intro hfailures hopen
  rw [pollFailed, if_pos hopen] at hfailures ⊢
  dsimp only at hfailures ⊢
  split
  · simp only [increaseBackoff, OstiumCandleIngestService.markDegraded, Function.update_self,
      Option.getD_some, doubled, mul_comm]
  · rename_i hfew
    rw [if_neg hfew] at hfailures
    simp only [Function.update_self] at hfailures
    exact absurd hfailures hfew

theorem Backed.pollFailed (h : Backed s) (nowTs clock : ℤ) :
    Backed (s.pollFailed cfg symbol nowTs clock) := by
  rw [OstiumCandleIngestService.pollFailed]
  split
  · dsimp only
    split
    · intro symbol' hsome
      by_cases heq : symbol' = symbol
      · subst heq
        exact ⟨_, Function.update_self _ _ _⟩
      · simp only [increaseBackoff, OstiumCandleIngestService.markDegraded,
          Function.update_of_ne heq] at hsome ⊢
        exact h symbol' hsome
    · exact h
  · exact h

/-- An accepted tick ends the wait of its symbol. -/
theorem Backed.keepTick (h : Backed s) (tick : IngestTick) :
    Backed (s.keepTick cfg symbol tick) ∧
      (s.keepTick cfg symbol tick).symbolBackoffUntil symbol = none := by
  set t : OstiumCandleIngestService :=
    if cfg.marketOpen symbol (minuteStart tick.ts) then
      { s with ticks :=
          Function.update s.ticks symbol ((s.ticks symbol).append (minuteStart tick.ts) tick) }
    else s with htdef
  have ht : Backed t := by
    rw [htdef]
    split
    · exact h
    · exact h
  have hkeep : s.keepTick cfg symbol tick =
      if t.isTransientDegradation symbol then t.autorecover symbol else t := rfl
  rw [hkeep]
  split
  · exact ⟨ht.autorecover, Function.update_self _ _ _⟩
  · rename_i hnot
    refine ⟨ht, ht.eq_none fun n hn => hnot ?_⟩
    rw [isTransientDegradation, hn]

end Backed

/-! ### Runs -/

section Runs

variable {S : Type} {z : Zones} {sink : CandleSink S} {cfg : IngestConfig} {symbol : String}

/-- A part of a cycle leaves a service in which only degraded symbols wait. -/
abbrev KeepsBacked {α : Type} (x : IngestStep S α) : Prop :=
  Ensures (fun w => Backed w.service) x (fun _ w => Backed w.service) (fun w => Backed w.service)

/-- A change of the service that keeps it so. -/
theorem ensures_modifyService_backed {f : OstiumCandleIngestService → OstiumCandleIngestService}
    (hf : ∀ s, Backed s → Backed (f s)) : KeepsBacked (S := S) (modifyService f) :=
  Ensures.modify fun w hw => hf w.service hw

/-- A price leaves a service in which only degraded symbols wait, and no wait after it is accepted. -/
theorem backed_onPrice {w : IngestWorld S} (hw : Backed w.service) (symbol : String) (nowTs : ℤ)
    (tick : IngestTick) :
    Backed (w.onPrice cfg symbol nowTs tick).service ∧
      (w.service.invalidTick cfg symbol tick.ts nowTs = false →
        (w.onPrice cfg symbol nowTs tick).service.symbolBackoffUntil symbol = none) := by
  set polled : OstiumCandleIngestService := { w.service with
    consecutivePollFailures := Function.update w.service.consecutivePollFailures symbol 0 }
  have hinvalid : polled.invalidTick cfg symbol tick.ts nowTs =
      w.service.invalidTick cfg symbol tick.ts nowTs := rfl
  by_cases h : w.service.invalidTick cfg symbol tick.ts nowTs = true
  · have hprice : w.onPrice cfg symbol nowTs tick = { w with service := polled } := by
      rw [IngestWorld.onPrice, acceptTickTimestamp, if_pos (hinvalid.trans h)]
    rw [hprice, h]
    exact ⟨hw, fun hnot => by cases hnot⟩
  · set accepted : OstiumCandleIngestService := { polled with
      lastIngestedTickTs := Function.update polled.lastIngestedTickTs symbol (some tick.ts) }
    have hprice : (w.onPrice cfg symbol nowTs tick).service = accepted.keepTick cfg symbol tick := by
      rw [IngestWorld.onPrice, acceptTickTimestamp, if_neg (hinvalid ▸ h)]
    have haccepted : Backed accepted := hw
    rw [hprice]
    exact ⟨(haccepted.keepTick tick).1, fun _ => (haccepted.keepTick tick).2⟩

theorem ensures_pollSymbol_backed (nowTs : ℤ) (symbol : String) (poll : Poll) :
    KeepsBacked (S := S) (pollSymbol cfg nowTs symbol poll) := by
  refine (ensures_modifyService_backed fun s hs => hs.reloads poll.reloads).bind fun _ => ?_
  cases poll.fetched with
  | price timestamp price => exact Ensures.modify fun w hw => (backed_onPrice hw _ _ _).1
  | failed clock => exact ensures_modifyService_backed fun s hs => hs.pollFailed nowTs clock
  | cancelled => exact Ensures.raise fun _ hw => hw

/-- Writing candles degrades no symbol: one candle is neither a duplicate nor a wrong step. -/
theorem ensures_writeCandles_backed (symbol : String) (nowTs : ℤ)
    (candlesData : List (ℤ × PriceBar)) :
    KeepsBacked (writeCandles z sink cfg symbol nowTs candlesData) := by
  induction candlesData with
  | nil => exact Ensures.pure fun w hw => hw
  | cons p more ih =>
      obtain ⟨ts, bar⟩ := p
      rw [writeCandles]
      split
      · exact Ensures.raise fun _ hw => hw
      · split
        · exact Ensures.raise fun _ hw => hw
        · rename_i report hreport
          obtain ⟨hduplicates, hsteps⟩ := GapValidator.validate_singleton z hreport
          rw [hduplicates, hsteps, if_neg (by simp)]
          refine Ensures.bind (Q := fun _ w => Backed w.service) ?_ fun _ => ih
          refine Ensures.bind (Q := fun _ w => Backed w.service) ?_ fun _ => Ensures.ite
            (fun _ => Ensures.raise fun _ hw => hw) fun _ => Ensures.pure fun w hw => hw
          exact Ensures.modifyGet fun w hw => hw

theorem ensures_flushClosedMinutes_backed (nowTs : ℤ) (symbol : String) :
    KeepsBacked (flushClosedMinutes z sink cfg nowTs symbol) := by
  refine Ensures.get_bind fun w₀ hw₀ => ?_
  refine (Ensures.bind (ensures_writeCandles_backed symbol nowTs _) fun written => ?_).consequence
    (fun w hw => hw ▸ hw₀) fun _ _ h => h
  refine Ensures.ite (fun _ => ?_) fun _ => Ensures.pure fun w hw => hw
  rw [removeFlushed]
  split
  · exact Ensures.pure fun w hw => hw
  · exact ensures_modifyService_backed fun s hs => hs

theorem ensures_beforePolls_backed (c : PollCycle) : KeepsBacked (beforePolls z sink cfg c) := by
  refine Ensures.get_bind fun w₀ hw₀ => ?_
  refine (Ensures.bind (Q := fun _ w => Backed w.service) ?_ fun _ => ?_).consequence
    (fun w hw => hw ▸ hw₀) fun _ _ h => h
  · exact ensures_modifyService_backed fun s hs => hs
  refine (Ensures.forM fun symbol _ => ensures_flushClosedMinutes_backed c.nowTs symbol).bind
    fun _ => ?_
  exact Ensures.get_bind fun w₁ hw₁ => Ensures.pure fun w hw => hw ▸ hw₁

theorem ensures_afterPolls_backed (c : PollCycle) (pollSymbols heartbeatSymbols : List String) :
    KeepsBacked (afterPolls z sink cfg c pollSymbols heartbeatSymbols) := by
  have hheartbeat : ∀ p : String × ℕ,
      KeepsBacked (S := S) (heartbeatPoll c.nowTs p.1 (c.heartbeats p.2)) := by
    intro p
    refine (ensures_modifyService_backed fun s hs => hs.reloads _).bind fun _ => ?_
    exact Ensures.ite (fun _ => Ensures.raise fun _ hw => hw) fun _ =>
      ensures_modifyService_backed fun s hs => hs
  have hmetrics : ∀ symbol, KeepsBacked (S := S) (updateGateMetrics cfg c symbol) := by
    intro symbol
    exact Ensures.ite (fun _ => Ensures.raise fun _ hw => hw) fun _ =>
      ensures_modifyService_backed fun s hs => hs.applyVerdict c.clock _
  refine (Ensures.forM fun p _ => hheartbeat p).bind fun _ => ?_
  refine (Ensures.forM fun symbol _ => ensures_flushClosedMinutes_backed c.nowTs symbol).bind
    fun _ => ?_
  refine Ensures.get_bind fun w hw => ?_
  exact Ensures.consequence (Ensures.forM fun symbol _ => hmetrics symbol) (fun w' hw' => hw' ▸ hw)
    fun _ _ h => h

/-- A cycle leaves a service in which only degraded symbols wait. -/
theorem ensures_pollLoopBody_backed (c : PollCycle) : KeepsBacked (pollLoopBody z sink cfg c) := by
  rw [pollLoopBody_eq]
  refine (ensures_beforePolls_backed c).bind fun selected => ?_
  refine (Ensures.forM fun p _ => ensures_pollSymbol_backed c.nowTs p.1 (c.polls p.2)).bind fun _ => ?_
  exact ensures_afterPolls_backed c selected.1 selected.2

/-- A step of a run keeps the service so. -/
theorem backed_step {w : IngestWorld S} (hw : Backed w.service) (event : IngestEvent) :
    Backed (w.step z sink cfg event).service := by
  cases event with
  | cycle c => exact (ensures_pollLoopBody_backed c).after hw
  | updateSymbols symbols => exact hw.updateSymbols symbols

/-- What is seen of a poll of the symbol is as the poll leaves it. -/
theorem faithful_recordOf {w w' : IngestWorld S} (hw : Backed w.service) {nowTs : ℤ} {poll : Poll}
    (h : pollSymbol cfg nowTs symbol poll w = .ok () w') {r : PollRecord}
    (hr : recordOf cfg symbol nowTs poll w w' = some r) : Faithful cfg r := by
  set reloaded : IngestWorld S :=
    { w with service := poll.reloads.foldl OstiumCandleIngestService.updateSymbols w.service }
  have hreloaded : Backed reloaded.service := hw.reloads poll.reloads
  cases hfetched : poll.fetched with
  | cancelled =>
      rw [recordOf, hfetched] at hr
      cases hr
  | failed clock =>
      have hw' : w' = { reloaded with
          service := reloaded.service.pollFailed cfg symbol nowTs clock } := by
        have hrun : pollSymbol cfg nowTs symbol poll w = .ok () { reloaded with
            service := reloaded.service.pollFailed cfg symbol nowTs clock } := by
          rw [pollSymbol, hfetched]
          rfl
        rw [hrun] at h
        cases h
        rfl
      rw [recordOf, hfetched, hw'] at hr
      dsimp only at hr
      split at hr
      · rename_i hcounted
        obtain rfl := Option.some.inj hr
        exact pollFailed_spec _ _ _ _ hcounted.2 hcounted.1
      · cases hr
  | price timestamp price =>
      have hw' : w' = reloaded.onPrice cfg symbol nowTs ⟨timestamp, price⟩ := by
        have hrun : pollSymbol cfg nowTs symbol poll w =
            .ok () (reloaded.onPrice cfg symbol nowTs ⟨timestamp, price⟩) := by
          rw [pollSymbol, hfetched]
          rfl
        rw [hrun] at h
        cases h
        rfl
      have hlast : reloaded.service.invalidTick cfg symbol timestamp nowTs =
          w.service.invalidTick cfg symbol timestamp nowTs := by
        rw [invalidTick, invalidTick, (sameTicks_reloads poll.reloads).last]
      rw [recordOf, hfetched, hw'] at hr
      dsimp only at hr
      split at hr
      · cases hr
      · rename_i hvalid
        obtain rfl := Option.some.inj hr
        exact (backed_onPrice hreloaded symbol nowTs ⟨timestamp, price⟩).2
          (hlast.trans (Bool.eq_false_iff.2 hvalid))

theorem faithful_pollRecords {nowTs : ℤ} {polls : ℕ → Poll} {ps : List (String × ℕ)}
    {w : IngestWorld S} (hw : Backed w.service) :
    ∀ r ∈ pollRecords cfg symbol nowTs polls ps w, Faithful cfg r := by
  induction ps generalizing w with
  | nil => exact fun r hr => absurd hr List.not_mem_nil
  | cons p ps ih =>
      intro r hr
      rw [pollRecords] at hr
      cases hrun : pollSymbol cfg nowTs p.1 (polls p.2) w with
      | error e w' =>
          rw [hrun] at hr
          exact absurd hr List.not_mem_nil
      | ok a w' =>
          have hkeeps : KeepsBacked (S := S) (pollSymbol cfg nowTs p.1 (polls p.2)) :=
            ensures_pollSymbol_backed nowTs p.1 (polls p.2)
          have hw' := hkeeps w hw
          rw [hrun] at hr hw'
          rcases List.mem_append.1 hr with hr | hr
          · split at hr
            · rename_i hsymbol
              rw [hsymbol] at hrun
              exact faithful_recordOf hw hrun (Option.mem_toList.1 hr)
            · exact absurd hr List.not_mem_nil
          · exact ih hw' r hr

/-- What is seen of the polls of a run is as the polls leave it. -/
theorem faithful_trace {w : IngestWorld S} (hw : Backed w.service) (events : List IngestEvent) :
    ∀ r ∈ trace z sink cfg symbol w events, Faithful cfg r := by
  induction events generalizing w with
  | nil => exact fun r hr => absurd hr List.not_mem_nil
  | cons event events ih =>
      intro r hr
      have hrest : r ∈ trace z sink cfg symbol (w.step z sink cfg event) events → Faithful cfg r :=
        ih (backed_step hw event) r
      cases event with
      | updateSymbols symbols => exact hrest hr
      | cycle c =>
          rcases List.mem_append.1 hr with hr | hr
          · rw [cycleRecords] at hr
            have hkeeps : KeepsBacked (beforePolls z sink cfg c) := ensures_beforePolls_backed c
            have hbefore := hkeeps w hw
            cases hrun : beforePolls z sink cfg c w with
            | error e w₁ =>
                rw [hrun] at hr
                exact absurd hr List.not_mem_nil
            | ok selected w₁ =>
                rw [hrun] at hr hbefore
                exact faithful_pollRecords hbefore r hr
          · exact hrest hr

/-- In a run of the service the waits of a symbol grow, if and only if the condition holds from each
failure to the next. -/
theorem grows_iff (z : Zones) (sink : CandleSink S) (cfg : IngestConfig) (symbols : List String)
    (store : S) (events : List IngestEvent) (symbol : String) :
    Grows cfg (trace z sink cfg symbol (.new symbols store) events) ↔
      (trace z sink cfg symbol (.new symbols store) events).IsChain (Doubles cfg) :=
  grows_iff_isChain cfg (faithful_trace (backed_new symbols) events)

end Runs

/-! ### Four failures -/

/-- The default settings of the backoff, in a market that is always open. -/
def alwaysOpen : IngestConfig where
  pollIntervalS := 2
  heartbeatIntervalS := 300
  staleSeconds := 180
  backoffBaseS := 2
  backoffMaxS := 60
  marketOpen _ _ := true

/-- A cycle in the afternoon of which the poll fails at once. -/
def failingCycle (seconds : Fin 3600) : PollCycle where
  nowTs := 1770732000 + seconds
  minyear := by
    have hmin : monthStart 12 ≤ 1770732000000000 := by decide +kernel
    omega
  maxyear := by
    have hmax : 1770732000000000 + 3600000000 < monthStart 120000 := by decide +kernel
    have hlt := seconds.isLt
    omega
  polls _ := ⟨[], .failed (1770732000 + seconds)⟩
  heartbeats _ := ⟨[], .failed (1770732000 + seconds)⟩
  verdicts _ := .keep
  clock := 1770732000 + seconds

/-- A store that takes every candle. -/
def anyCandle : CandleSink Unit := ⟨fun _ _ _ => ((), some true)⟩

/-- The third and the fourth failure in a row are both followed by a wait of four seconds. -/
theorem four_failures :
    trace Zones.fallBack anyCandle alwaysOpen "EURUSD" (.new ["EURUSD"] ())
      [.cycle (failingCycle 0), .cycle (failingCycle 10), .cycle (failingCycle 20),
        .cycle (failingCycle 30)] =
      [.failed 3 1770732020 1770732020 (some 1770732024),
        .failed 4 1770732030 1770732030 (some 1770732034)] ∧
    ¬ Grows alwaysOpen (trace Zones.fallBack anyCandle alwaysOpen "EURUSD" (.new ["EURUSD"] ())
      [.cycle (failingCycle 0), .cycle (failingCycle 10), .cycle (failingCycle 20),
        .cycle (failingCycle 30)]) := by
  have htrace : trace Zones.fallBack anyCandle alwaysOpen "EURUSD" (.new ["EURUSD"] ())
      [.cycle (failingCycle 0), .cycle (failingCycle 10), .cycle (failingCycle 20),
        .cycle (failingCycle 30)] =
      [.failed 3 1770732020 1770732020 (some 1770732024),
        .failed 4 1770732030 1770732030 (some 1770732034)] := by
    decide +kernel
  refine ⟨htrace, fun h => ?_⟩
  have hgrowing := h.growing
  rw [htrace, List.isChain_pair] at hgrowing
  obtain ⟨-, hdouble⟩ := hgrowing rfl 4 4 rfl rfl
  exact absurd hdouble (by decide)

end OstiumIngest
