/-
**What the data layer writes.**

The prefetch asks for a window once, and the writer for the last closed minute each time.  What is
answered for a symbol is validated as a whole: candles in which a timestamp comes twice, or a step
is not a minute, are refused, and the symbol is degraded.  A degraded symbol is passed over, and
only one that lacked minutes becomes active again.  So nothing that was refused is ever written, and
a symbol whose candles were refused once is not written any more.

Main definitions:

* `DataLayerProdService.handOver` — candles that were answered are written, or refused;
* `DataLayerProdService.prefetch`, `DataLayerProdService.writerTick` — a prefetch, and a round of
  the writer;
* `DataLayerProdService.Layer.run` — a run of the service with its store;
* `DataLayerProdService.Clean` — candles that are not refused.

Main results:

* `DataLayerProdService.passed_over` — a round does not write a degraded symbol;
* `DataLayerProdService.run_quarantine` — a symbol whose candles were refused is never written
  again;
* `DataLayerProdService.run_writes_clean` — every run writes clean answers only.
-/

import Brokerage.Backfill
import Brokerage.GateRecovery

set_option relaxedAutoImplicit false
set_option autoImplicit false

namespace DataLayerProdService

open CandleStore (Files)
open GateMetrics (GateConfig)

/-! ### The rounds -/

/-- The service with the files of its symbols.  The store files a candle under the symbol that the
candle carries; here that is the symbol it was asked for. -/
structure Layer where
  world : World
  files : String → Files

/-- What the provider answers for each symbol, with candles of that symbol; a request may raise. -/
abbrev Answers := String → Option (List Candle)

/-- Whether candles are refused. -/
def refused (report : ValidationReport) : Bool :=
  0 < report.duplicateCount ∨ 0 < report.tsStepErrors

/-- Candles are appended one by one, until one raises. -/
def appendAll (z : Zones) (files : Files) : List Candle → Files
  | [] => files
  | c :: cs =>
      match CandleStore.append z files c with
      | none => files
      | some (files', _) => appendAll z files' cs

/-- What was answered for a symbol is validated and written, or refused; exceptions are passed
over. -/
def handOver (z : Zones) (start end_ : AwareDatetime) (reason : ℕ → ℕ → DegradeReason)
    (write : Files → List Candle → Files) (l : Layer) (symbol : String)
    (answer : Option (List Candle)) : Layer :=
  match answer with
  | none => l
  | some [] => l
  | some (c :: cs) =>
      match GapValidator.validate z (c :: cs) start end_ with
      | none => l
      | some report =>
          if refused report then
            let duplicates := report.duplicateCount.toNat
            let reason := reason duplicates report.tsStepErrors
            { l with world := l.world.markDegraded symbol reason duplicates report.tsStepErrors }
          else
            { l with files := Function.update l.files symbol (write (l.files symbol) (c :: cs)) }

variable (z : Zones) (cfg : GateConfig) (serviceStartTs : ℤ) (symbols : List String)

/-- The prefetch of a symbol. -/
def prefetchSymbol (start end_ : AwareDatetime) (answers : Answers) (l : Layer) (symbol : String) :
    Layer :=
  if (l.world.degraded.get? symbol).isSome then l
  else
    handOver z start end_ .prefetch (fun files cs => (CandleStore.patch z files cs).1) l symbol
      (answers symbol)

/-- `_run_prefetch`. -/
def prefetch (start end_ : AwareDatetime) (answers : Answers) (l : Layer) : Layer :=
  symbols.foldl (prefetchSymbol z start end_ answers) l

/-- The minute of a symbol is asked for if it is later than its last timestamp; looking for that,
and for the end of the minute, may raise. -/
def writeNextIfMissing (storeNow target : AwareDatetime) (answers : Answers) (l : Layer)
    (symbol : String) : Option Layer :=
  match CandleStore.getLastTimestamp z (l.files symbol) storeNow with
  | none => none
  | some lastStored =>
      if lastStored.elim false fun last => z.le target last then some l
      else
        (target.add? minuteMicros).map fun end_ =>
          handOver z target end_ .writer (appendAll z) l symbol (answers symbol)

/-- The symbols of a round of the writer, until an exception ends it. -/
def writeSymbols (storeNow target : AwareDatetime) (answers : Answers) :
    List String → Layer → Layer × Bool
  | [], l => (l, true)
  | symbol :: more, l =>
      if (l.world.degraded.get? symbol).isSome then writeSymbols storeNow target answers more l
      else
        match writeNextIfMissing z storeNow target answers l symbol with
        | none => (l, false)
        | some l' => writeSymbols storeNow target answers more l'

/-- A round of the writer; the gates come after the symbols. -/
def writerTick (storeNow target : AwareDatetime) (answers : Answers) (input : GateInput)
    (l : Layer) :
    Layer :=
  let written := writeSymbols z storeNow target answers symbols l
  if written.2 then
    { written.1 with
      world := updateGateMetrics cfg serviceStartTs symbols input written.1.world }
  else written.1

/-! ### A run -/

/-- A prefetch, a round of the writer, or a round of the gates alone. -/
inductive LayerEvent
  | prefetch (start end_ : AwareDatetime) (answers : Answers)
  | tick (storeNow target : AwareDatetime) (answers : Answers) (input : GateInput)
  | gates (input : GateInput)

def Layer.step (l : Layer) : LayerEvent → Layer
  | .prefetch start end_ answers => DataLayerProdService.prefetch z symbols start end_ answers l
  | .tick storeNow target answers input =>
      writerTick z cfg serviceStartTs symbols storeNow target answers input l
  | .gates input => { l with world := updateGateMetrics cfg serviceStartTs symbols input l.world }

/-- The service after some rounds. -/
def Layer.run (l : Layer) (events : List LayerEvent) : Layer :=
  events.foldl (Layer.step z cfg serviceStartTs symbols) l

/-- The answer for a symbol in a round. -/
def LayerEvent.answer (symbol : String) : LayerEvent → Option (List Candle)
  | .prefetch _ _ answers => answers symbol
  | .tick _ _ answers _ => answers symbol
  | .gates _ => none

/-! ### Clean candles -/

/-- No timestamp comes twice, and every step is a minute. -/
structure Clean (cs : List Candle) : Prop where
  distinct : (cs.map Candle.timestamp).Pairwise fun s t => z.eq s t = false
  steps : ∀ p ∈ GapValidator.steps cs, z.sub p.2.timestamp p.1.timestamp = minuteMicros

/-- A write of an answer, as a whole or candle by candle. -/
def CleanWrite (answered : List Candle → Prop) (files files' : Files) : Prop :=
  ∃ cs, answered cs ∧ Clean z cs ∧
    (files' = (CandleStore.patch z files cs).1 ∨ files' = appendAll z files cs)

variable {z cfg serviceStartTs symbols} {l : Layer} {symbol : String}

/-- As many timestamps as candles are left only if none comes twice. -/
theorem pairwise_of_unique (ts seen : List AwareDatetime) :
    (ts.foldl (fun seen t => if seen.any fun s => z.eq s t then seen else seen ++ [t]) seen).length ≤
        seen.length + ts.length ∧
      (seen.length + ts.length ≤ (ts.foldl (fun seen t =>
          if seen.any fun s => z.eq s t then seen else seen ++ [t]) seen).length →
        ts.Pairwise (fun s t => z.eq s t = false) ∧ ∀ s ∈ seen, ∀ t ∈ ts, z.eq s t = false) := by
  induction ts generalizing seen with
  | nil => exact ⟨le_rfl, fun _ => ⟨List.Pairwise.nil, fun s _ t ht => by cases ht⟩⟩
  | cons t ts ih =>
      rw [List.foldl_cons, List.length_cons]
      split
      · -- the timestamp was seen
        obtain ⟨hle, -⟩ := ih seen
        exact ⟨by omega, fun h => absurd (h.trans hle) (by omega)⟩
      · rename_i hnew
        obtain ⟨hle, hpairwise⟩ := ih (seen ++ [t])
        rw [List.length_append, List.length_singleton] at hle hpairwise
        refine ⟨by omega, fun h => ?_⟩
        obtain ⟨hts, hseen⟩ := hpairwise (by omega)
        refine ⟨List.pairwise_cons.2 ⟨fun u hu => ?_, hts⟩, fun s hs u hu => ?_⟩
        · exact hseen t (List.mem_append_right _ (List.mem_singleton_self t)) u hu
        · rcases List.mem_cons.1 hu with rfl | hu
          · exact Bool.eq_false_iff.2 fun heq => hnew (List.any_eq_true.2 ⟨s, hs, heq⟩)
          · exact hseen s (List.mem_append_left _ hs) u hu

/-- What is not refused is clean. -/
theorem clean_of_not_refused {c : Candle} {cs : List Candle} {start end_ : AwareDatetime}
    {report : ValidationReport} (h : GapValidator.validate z (c :: cs) start end_ = some report)
    (hpass : refused report = false) : Clean z (c :: cs) := by
  obtain ⟨gaps, -, rfl⟩ := Option.map_eq_some_iff.1 h
  obtain ⟨hduplicates, hsteps⟩ := not_or.1 (of_decide_eq_false hpass)
  dsimp only at hduplicates hsteps
  constructor
  · refine ((pairwise_of_unique (z := z) ((c :: cs).map Candle.timestamp) []).2 ?_).1
    rw [List.length_nil, List.length_map, Nat.zero_add]
    rw [GapValidator.uniqueTimestamps] at hduplicates
    omega
  · intro p hp
    have hzero := Nat.eq_zero_of_not_pos hsteps
    rw [List.countP_eq_zero] at hzero
    simpa using hzero p hp

/-! ### What is done with an answer -/

/-- Nothing, or the symbol is degraded, or a clean answer is written. -/
theorem handOver_cases (start end_ : AwareDatetime) (reason : ℕ → ℕ → DegradeReason)
    (write : Files → List Candle → Files) (l : Layer) (symbol : String)
    (answer : Option (List Candle)) :
    handOver z start end_ reason write l symbol answer = l ∨
      (∃ duplicates tsStepErrors, handOver z start end_ reason write l symbol answer =
        { l with world := l.world.markDegraded symbol (reason duplicates tsStepErrors) duplicates
                  tsStepErrors }) ∨
      ∃ cs, answer = some cs ∧ Clean z cs ∧ handOver z start end_ reason write l symbol answer =
        { l with files := Function.update l.files symbol (write (l.files symbol) cs) } := by
  cases answer with
  | none => exact Or.inl rfl
  | some cs =>
      cases cs with
      | nil => exact Or.inl rfl
      | cons c cs =>
          rw [handOver]
          dsimp only
          cases hreport : GapValidator.validate z (c :: cs) start end_ with
          | none => exact Or.inl rfl
          | some report =>
              dsimp only
              split
              · exact Or.inr (Or.inl ⟨_, _, rfl⟩)
              · rename_i hpass
                exact Or.inr (Or.inr ⟨_, rfl,
                  clean_of_not_refused hreport (Bool.eq_false_iff.2 hpass), rfl⟩)

/-- The symbol is degraded for a reason, and its files are these. -/
def Passed (symbol : String) (reason : DegradeReason) (files : Files) (l : Layer) : Prop :=
  l.world.degraded.get? symbol = some reason ∧ l.files symbol = files

variable {reason : DegradeReason} {files : Files}

/-- Handing over what was answered for another symbol. -/
theorem Passed.handOver (h : Passed symbol reason files l) {s : String} (hne : symbol ≠ s)
    (start end_ : AwareDatetime) (why : ℕ → ℕ → DegradeReason) (write : Files → List Candle → Files)
    (answer : Option (List Candle)) :
    Passed symbol reason files (handOver z start end_ why write l s answer) := by
  rcases handOver_cases (z := z) start end_ why write l s answer with
    hl | ⟨d, t, hl⟩ | ⟨cs, -, -, hl⟩
  · rw [hl]
    exact h
  · rw [hl]
    exact ⟨(Dict.get?_set_of_ne _ _ hne).trans h.1, h.2⟩
  · rw [hl]
    exact ⟨h.1, (Function.update_of_ne hne ..).trans h.2⟩

theorem ne_of_not_degraded (h : Passed symbol reason files l) {s : String}
    (hs : ¬ (l.world.degraded.get? s).isSome = true) : symbol ≠ s := by
  rintro rfl
  rw [h.1] at hs
  exact hs rfl

theorem Passed.prefetch (h : Passed symbol reason files l) (start end_ : AwareDatetime)
    (answers : Answers) : Passed symbol reason files (prefetch z symbols start end_ answers l) := by
  rw [DataLayerProdService.prefetch]
  induction symbols generalizing l with
  | nil => exact h
  | cons s symbols ih =>
      rw [List.foldl_cons]
      refine ih ?_
      rw [prefetchSymbol]
      split
      · exact h
      · rename_i hs
        exact h.handOver (ne_of_not_degraded h hs) _ _ _ _ _

theorem Passed.writeSymbols (h : Passed symbol reason files l) (storeNow target : AwareDatetime)
    (answers : Answers) :
    Passed symbol reason files (writeSymbols z storeNow target answers symbols l).1 := by
  induction symbols generalizing l with
  | nil => exact h
  | cons s symbols ih =>
      rw [DataLayerProdService.writeSymbols]
      split
      · exact ih h
      · rename_i hs
        cases hwrite : writeNextIfMissing z storeNow target answers l s with
        | none => exact h
        | some l' =>
            dsimp only
            refine ih ?_
            rw [writeNextIfMissing] at hwrite
            split at hwrite
            · cases hwrite
            · split at hwrite
              · obtain rfl := Option.some.inj hwrite
                exact h
              · obtain ⟨end_, -, rfl⟩ := Option.map_eq_some_iff.1 hwrite
                exact h.handOver (ne_of_not_degraded h hs) _ _ _ _ _

theorem files_writerTick (storeNow target : AwareDatetime) (answers : Answers) (input : GateInput) :
    (writerTick z cfg serviceStartTs symbols storeNow target answers input l).files =
      (writeSymbols z storeNow target answers symbols l).1.files := by
  rw [writerTick]
  dsimp only
  split_ifs <;> rfl

/-- A round does not write a symbol that is degraded when it begins. -/
theorem passed_over (h : l.world.degraded.get? symbol = some reason) (e : LayerEvent) :
    (l.step z cfg serviceStartTs symbols e).files symbol = l.files symbol := by
  have hpassed : Passed symbol reason (l.files symbol) l := ⟨h, rfl⟩
  cases e with
  | prefetch start end_ answers => exact (hpassed.prefetch start end_ answers).2
  | tick storeNow target answers input =>
      rw [Layer.step, files_writerTick]
      exact (hpassed.writeSymbols storeNow target answers).2
  | gates input => rfl

/-! ### Symbols that are not written any more -/

/-- The gates leave a symbol that is degraded for another reason than missing minutes. -/
theorem Passed.gates (h : Passed symbol reason files l) (hreason : reason.isMissing = false)
    (input : GateInput) : Passed symbol reason files
      { l with world := updateGateMetrics cfg serviceStartTs symbols input l.world } := by
  refine ⟨?_, h.2⟩
  dsimp only
  rw [get?_degraded_updateGateMetrics, h.1]
  split
  · rfl
  · split
    · exact nextReason_of_not_missing _ hreason
    · rfl

theorem Passed.step (h : Passed symbol reason files l) (hreason : reason.isMissing = false)
    (e : LayerEvent) : Passed symbol reason files (l.step z cfg serviceStartTs symbols e) := by
  cases e with
  | prefetch start end_ answers => exact h.prefetch start end_ answers
  | tick storeNow target answers input =>
      have hwritten : Passed symbol reason files
          (DataLayerProdService.writeSymbols z storeNow target answers symbols l).1 :=
        h.writeSymbols storeNow target answers
      rw [Layer.step, writerTick]
      dsimp only
      split
      · exact hwritten.gates hreason input
      · exact hwritten
  | gates input => exact h.gates hreason input

/-- A symbol whose candles were refused once, or whose last candle was too old, stays degraded, and
nothing is written to its files any more, whatever is answered and whatever the gates find. -/
theorem run_quarantine {z : Zones} {cfg : GateConfig} {serviceStartTs : ℤ} {symbols : List String}
    {l : Layer} {symbol : String} {reason : DegradeReason}
    (h : l.world.degraded.get? symbol = some reason) (hreason : reason.isMissing = false)
    (events : List LayerEvent) :
    (l.run z cfg serviceStartTs symbols events).world.degraded.get? symbol = some reason ∧
      (l.run z cfg serviceStartTs symbols events).files symbol = l.files symbol := by
  have hpassed : Passed symbol reason (l.files symbol) l := ⟨h, rfl⟩
  rw [Layer.run]
  generalize l.files symbol = files at hpassed ⊢
  induction events generalizing l with
  | nil => exact hpassed
  | cons e events ih =>
      have hstep : Passed symbol reason files (l.step z cfg serviceStartTs symbols e) :=
        hpassed.step hreason e
      exact ih hstep.1 hstep

/-- Two candles of one timestamp. -/
def twice : Answers := fun _ =>
  some [CandleStore.flat CandleStore.utcNoon 1, CandleStore.flat CandleStore.utcNoon 2]

/-- Another prefetch, and a round of the gates. -/
def afterwards : List LayerEvent :=
  [.prefetch CandleStore.utcNoon Backfill.afterNoon
    (fun _ => some [CandleStore.flat CandleStore.utcNoon 1]), .gates feedBack]

theorem run_quarantine_twice :
    let l := prefetch CandleStore.winter ["EURUSD"] CandleStore.utcNoon Backfill.afterNoon twice
      ⟨World.new, fun _ => Dict.empty⟩
    (l.run CandleStore.winter ⟨120, 180, 10, 180⟩ 1770000000 ["EURUSD"]
        afterwards).world.degraded.get? "EURUSD" = some (.prefetch 1 1) ∧
      (l.run CandleStore.winter ⟨120, 180, 10, 180⟩ 1770000000 ["EURUSD"]
        afterwards).files "EURUSD" = l.files "EURUSD" :=
  run_quarantine (by decide +kernel) rfl afterwards

/-! ### What is written -/

theorem handOver_writes {start end_ : AwareDatetime} {why : ℕ → ℕ → DegradeReason}
    {write : Files → List Candle → Files}
    (hwrite : ∀ files cs, write files cs = (CandleStore.patch z files cs).1 ∨
      write files cs = appendAll z files cs) (answers : Answers) (s : String) :
    Relation.ReflTransGen (CleanWrite z fun cs => answers symbol = some cs) (l.files symbol)
      ((handOver z start end_ why write l s (answers s)).files symbol) := by
  rcases handOver_cases (z := z) start end_ why write l s (answers s) with
    hl | ⟨d, t, hl⟩ | ⟨cs, hcs, hclean, hl⟩
  · rw [hl]
  · rw [hl]
  · rw [hl]
    by_cases hs : symbol = s
    · subst hs
      refine Relation.ReflTransGen.single ⟨cs, hcs, hclean, ?_⟩
      dsimp only
      rw [Function.update_self]
      exact hwrite _ _
    · dsimp only
      rw [Function.update_of_ne hs]

theorem prefetch_writes (start end_ : AwareDatetime) (answers : Answers) :
    Relation.ReflTransGen (CleanWrite z fun cs => answers symbol = some cs) (l.files symbol)
      ((prefetch z symbols start end_ answers l).files symbol) := by
  rw [prefetch]
  induction symbols generalizing l with
  | nil => exact Relation.ReflTransGen.refl
  | cons s symbols ih =>
      rw [List.foldl_cons]
      refine Relation.ReflTransGen.trans ?_ ih
      rw [prefetchSymbol]
      split
      · exact Relation.ReflTransGen.refl
      · exact handOver_writes (fun files cs => Or.inl rfl) answers s

theorem writeSymbols_writes (storeNow target : AwareDatetime) (answers : Answers) :
    Relation.ReflTransGen (CleanWrite z fun cs => answers symbol = some cs) (l.files symbol)
      ((writeSymbols z storeNow target answers symbols l).1.files symbol) := by
  induction symbols generalizing l with
  | nil => exact Relation.ReflTransGen.refl
  | cons s symbols ih =>
      rw [writeSymbols]
      split
      · exact ih
      · cases hwrite : writeNextIfMissing z storeNow target answers l s with
        | none => exact Relation.ReflTransGen.refl
        | some l' =>
            dsimp only
            refine Relation.ReflTransGen.trans ?_ ih
            rw [writeNextIfMissing] at hwrite
            split at hwrite
            · cases hwrite
            · split at hwrite
              · obtain rfl := Option.some.inj hwrite
                exact Relation.ReflTransGen.refl
              · obtain ⟨end_, -, rfl⟩ := Option.map_eq_some_iff.1 hwrite
                exact handOver_writes (fun files cs => Or.inr rfl) answers s

theorem step_writes (e : LayerEvent) :
    Relation.ReflTransGen (CleanWrite z fun cs => e.answer symbol = some cs) (l.files symbol)
      ((l.step z cfg serviceStartTs symbols e).files symbol) := by
  cases e with
  | prefetch start end_ answers => exact prefetch_writes start end_ answers
  | tick storeNow target answers input =>
      rw [Layer.step, files_writerTick]
      exact writeSymbols_writes storeNow target answers
  | gates input => exact Relation.ReflTransGen.refl

/-- In every run the files of a symbol are what they were, with clean answers for the symbol written
to them one after the other. -/
theorem run_writes_clean (z : Zones) (cfg : GateConfig) (serviceStartTs : ℤ) (symbols : List String)
    (l : Layer) (events : List LayerEvent) (symbol : String) :
    Relation.ReflTransGen (CleanWrite z fun cs => ∃ e ∈ events, e.answer symbol = some cs)
      (l.files symbol) ((l.run z cfg serviceStartTs symbols events).files symbol) := by
  rw [Layer.run]
  induction events generalizing l with
  | nil => exact Relation.ReflTransGen.refl
  | cons e events ih =>
      rw [List.foldl_cons]
      refine Relation.ReflTransGen.trans (b := (l.step z cfg serviceStartTs symbols e).files symbol)
        (Relation.ReflTransGen.mono ?_ _ _ (step_writes e))
        (Relation.ReflTransGen.mono ?_ _ _ (ih _))
      · rintro files files' ⟨cs, hcs, hwrite⟩
        exact ⟨cs, ⟨e, List.mem_cons_self, hcs⟩, hwrite⟩
      · rintro files files' ⟨cs, ⟨e', he', hcs⟩, hwrite⟩
        exact ⟨cs, ⟨e', List.mem_cons_of_mem _ he', hcs⟩, hwrite⟩

end DataLayerProdService
