/-
**The recorder of ticks.**

The recorder appends a tick to the file of its day and symbol, unless the last one of the symbol
that was recorded is not earlier, and then removes the days that are over for too long.  What is in
the files can be said without the recorder, as long as the ticks of a symbol come in the order of
their timestamps: of the ticks with one timestamp the first one, of the days that were never too
old.

A day is its number, which orders days as their names do.  That a file cannot be written is not
modelled.

Main definitions:

* `OstiumTickRecorder`, `OstiumTickRecorder.recordTick` — the recorder;
* `newCalls`, `retainedCalls`, `keptTicks` — the ticks that are recorded, and still there;
* `OstiumTickRecorder.Recorded` — the files have the ticks that are kept.

Main results:

* `keptTicks_concat` — what a call does to the ticks that are kept;
* `OstiumTickRecorder.Recorded.recordTick` — and that it does the same to the files;
* `OstiumTickRecorder.recorded_record` — the files after any calls.
-/

import Brokerage.OstiumIngest

set_option relaxedAutoImplicit false
set_option autoImplicit false

/-- A call of `record_tick`, with the clock then. -/
structure RecordCall where
  symbol : String
  tick : IngestTick
  clock : ℤ
  deriving DecidableEq

/-- The recorder, with the files of each day by their symbols. -/
structure OstiumTickRecorder where
  retentionDays : ℤ
  lastTsBySymbol : String → Option ℤ
  daily : Dict ℤ (String → List IngestTick)

/-- The day of a timestamp. -/
def dayOf (ts : ℤ) : ℤ := ts / 86400

namespace OstiumTickRecorder

/-- The recorder at its start. -/
def new (retentionDays : ℤ) : OstiumTickRecorder := ⟨retentionDays, fun _ => none, Dict.empty⟩

variable (r : OstiumTickRecorder)

/-- The ticks in a file; there are none if it does not exist. -/
def file (day : ℤ) (symbol : String) : List IngestTick :=
  match r.daily.get? day with
  | none => []
  | some files => files symbol

/-- One more line at the end of a file. -/
def writeLine (symbol : String) (tick : IngestTick) : OstiumTickRecorder :=
  let day := dayOf tick.ts
  { r with
    daily := r.daily.set day (Function.update (r.file day) symbol (r.file day symbol ++ [tick])) }

/-- Removes the days that are too old. -/
def runRetention (nowTs : ℤ) : OstiumTickRecorder :=
  if r.retentionDays ≤ 0 then r
  else
    let cutoff := nowTs - r.retentionDays * 86400
    { r with daily := r.daily.eraseAll (r.daily.keys.filter fun day => day * 86400 < cutoff) }

/-- A timestamp that no datetime has raises, and then nothing is recorded. -/
def recordTick (c : RecordCall) : OstiumTickRecorder :=
  if c.tick.ts ≤ (r.lastTsBySymbol c.symbol).getD 0 then r
  else
    match utcFromTimestamp (1000000 * c.tick.ts) with
    | none => r
    | some _ =>
        let r := r.writeLine c.symbol c.tick
        let r := { r with
          lastTsBySymbol := Function.update r.lastTsBySymbol c.symbol (some c.tick.ts) }
        r.runRetention c.clock

/-- The recorder after some calls. -/
def record (retentionDays : ℤ) (calls : List RecordCall) : OstiumTickRecorder :=
  calls.foldl recordTick (new retentionDays)

end OstiumTickRecorder

/-! ### The ticks that are kept -/

/-- The ticks of a symbol. -/
def ticksOfSymbol (symbol : String) (calls : List RecordCall) : List IngestTick :=
  (calls.filter fun c => c.symbol = symbol).map RecordCall.tick

/-- The tick has a positive timestamp of a datetime, which is later than those of its symbol
before. -/
def IsNew (before : List RecordCall) (c : RecordCall) : Prop :=
  0 < c.tick.ts ∧ (utcFromTimestamp (1000000 * c.tick.ts)).isSome ∧
    ∀ b ∈ before, b.symbol = c.symbol → b.tick.ts < c.tick.ts

instance (before : List RecordCall) (c : RecordCall) : Decidable (IsNew before c) :=
  inferInstanceAs (Decidable (_ ∧ _))

/-- The calls, after others, whose ticks are new. -/
def newCalls (before : List RecordCall) : List RecordCall → List RecordCall
  | [] => []
  | c :: calls =>
      if IsNew before c then c :: newCalls (before ++ [c]) calls else newCalls (before ++ [c]) calls

/-- Whether a day is kept at a time. -/
def DayKept (retentionDays clock day : ℤ) : Prop :=
  retentionDays ≤ 0 ∨ clock - retentionDays * 86400 ≤ day * 86400

instance (retentionDays clock day : ℤ) : Decidable (DayKept retentionDays clock day) :=
  inferInstanceAs (Decidable (_ ∨ _))

/-- The calls whose day is kept at the times of the call and of all that follow. -/
def retainedCalls (retentionDays : ℤ) : List RecordCall → List RecordCall
  | [] => []
  | c :: calls =>
      if ∀ d ∈ c :: calls, DayKept retentionDays d.clock (dayOf c.tick.ts) then
        c :: retainedCalls retentionDays calls
      else retainedCalls retentionDays calls

/-- The ticks of a symbol that are new and whose day is still there. -/
def keptTicks (retentionDays : ℤ) (symbol : String) (calls : List RecordCall) : List IngestTick :=
  ticksOfSymbol symbol (retainedCalls retentionDays (newCalls [] calls))

theorem ticksOfSymbol_concat (symbol : String) (calls : List RecordCall) (c : RecordCall) :
    ticksOfSymbol symbol (calls ++ [c]) =
      ticksOfSymbol symbol calls ++ if c.symbol = symbol then [c.tick] else [] := by
  rw [ticksOfSymbol, List.filter_append, List.map_append]
  by_cases hsymbol : c.symbol = symbol
  · simp [hsymbol, ticksOfSymbol]
  · simp [hsymbol, ticksOfSymbol]

theorem ticksOfSymbol_filter (symbol : String) (p : IngestTick → Bool) (calls : List RecordCall) :
    ticksOfSymbol symbol (calls.filter fun c => p c.tick) =
      (ticksOfSymbol symbol calls).filter p := by
  rw [ticksOfSymbol, ticksOfSymbol, List.filter_map, List.filter_filter, List.filter_filter]
  simp only [Function.comp_apply, Bool.and_comm]

theorem newCalls_concat (before calls : List RecordCall) (c : RecordCall) :
    newCalls before (calls ++ [c]) =
      newCalls before calls ++ if IsNew (before ++ calls) c then [c] else [] := by
  induction calls generalizing before with
  | nil =>
      rw [List.nil_append, newCalls, newCalls, List.append_nil]
      rfl
  | cons d calls ih =>
      rw [List.cons_append, newCalls, newCalls, ih, List.append_assoc, List.singleton_append]
      split
      · rfl
      · rfl

theorem newCalls_sublist (before calls : List RecordCall) :
    (newCalls before calls).Sublist calls := by
  induction calls generalizing before with
  | nil => exact List.Sublist.refl []
  | cons c calls ih =>
      rw [newCalls]
      split
      · exact (ih _).cons_cons c
      · exact (ih _).cons c

theorem mem_newCalls {before calls : List RecordCall} {c : RecordCall}
    (h : c ∈ newCalls before calls) :
    0 < c.tick.ts ∧ (utcFromTimestamp (1000000 * c.tick.ts)).isSome := by
  induction calls generalizing before with
  | nil => cases h
  | cons d calls ih =>
      rw [newCalls] at h
      split at h
      · rename_i hnew
        rcases List.mem_cons.1 h with rfl | h
        · exact ⟨hnew.1, hnew.2.1⟩
        · exact ih h
      · exact ih h

variable {retentionDays : ℤ} {symbol : String}

theorem retainedCalls_concat (calls : List RecordCall) (c : RecordCall) :
    retainedCalls retentionDays (calls ++ [c]) =
      (retainedCalls retentionDays calls ++ [c]).filter fun d =>
        DayKept retentionDays c.clock (dayOf d.tick.ts) := by
  induction calls with
  | nil =>
      rw [List.nil_append, retainedCalls, retainedCalls, List.nil_append]
      by_cases hc : DayKept retentionDays c.clock (dayOf c.tick.ts)
      · simp [retainedCalls, hc]
      · simp [retainedCalls, hc]
  | cons d calls ih =>
      rw [List.cons_append, retainedCalls, retainedCalls, ih]
      -- an earlier call stays if it did before, and the new clock keeps its day
      by_cases hcalls : ∀ e ∈ d :: calls, DayKept retentionDays e.clock (dayOf d.tick.ts)
      · rw [if_pos hcalls, List.cons_append, List.filter_cons]
        by_cases hc : DayKept retentionDays c.clock (dayOf d.tick.ts)
        · rw [if_pos, if_pos (decide_eq_true hc)]
          intro e he
          rw [← List.cons_append] at he
          rcases List.mem_append.1 he with he | he
          · exact hcalls e he
          · rwa [List.mem_singleton.1 he]
        · rw [if_neg, if_neg (by simpa using hc)]
          exact fun hall => hc (hall c (by simp))
      · rw [if_neg hcalls, if_neg]
        intro hall
        refine hcalls fun e he => hall e ?_
        rw [← List.cons_append]
        exact List.mem_append_left _ he

theorem retainedCalls_sublist (calls : List RecordCall) :
    (retainedCalls retentionDays calls).Sublist calls := by
  induction calls with
  | nil => exact List.Sublist.refl []
  | cons c calls ih =>
      rw [retainedCalls]
      split
      · exact ih.cons_cons c
      · exact ih.cons c

/-- What a call does to the ticks that are kept. -/
theorem keptTicks_concat (calls : List RecordCall) (c : RecordCall) :
    keptTicks retentionDays symbol (calls ++ [c]) =
      if IsNew calls c then
        (keptTicks retentionDays symbol calls ++ if c.symbol = symbol then [c.tick] else []).filter
          fun t => DayKept retentionDays c.clock (dayOf t.ts)
      else keptTicks retentionDays symbol calls := by
  rw [keptTicks, newCalls_concat, List.nil_append]
  by_cases hnew : IsNew calls c
  · rw [if_pos hnew, if_pos hnew, retainedCalls_concat,
      ticksOfSymbol_filter _ fun t => DayKept retentionDays c.clock (dayOf t.ts),
      ticksOfSymbol_concat, keptTicks]
  · rw [if_neg hnew, if_neg hnew, List.append_nil, keptTicks]

/-- What a new call does to the ticks of a day. -/
theorem filter_keptTicks_concat {calls : List RecordCall} {c : RecordCall} (hnew : IsNew calls c)
    (day : ℤ) :
    ((keptTicks retentionDays symbol (calls ++ [c])).filter fun t => dayOf t.ts = day) =
      if DayKept retentionDays c.clock day then
        ((keptTicks retentionDays symbol calls).filter fun t => dayOf t.ts = day) ++
          if day = dayOf c.tick.ts ∧ symbol = c.symbol then [c.tick] else []
      else [] := by
  rw [keptTicks_concat, if_pos hnew, List.filter_filter]
  by_cases hkept : DayKept retentionDays c.clock day
  · -- of the ticks of the day none is removed
    have hboth : ∀ t : IngestTick, (decide (dayOf t.ts = day) &&
        decide (DayKept retentionDays c.clock (dayOf t.ts))) = decide (dayOf t.ts = day) := by
      intro t
      by_cases hday : dayOf t.ts = day
      · rw [hday, decide_eq_true hkept, Bool.and_true]
      · rw [decide_eq_false hday, Bool.false_and]
    simp only [hboth]
    rw [if_pos hkept, List.filter_append]
    congr 1
    by_cases hsymbol : c.symbol = symbol
    · by_cases hday : dayOf c.tick.ts = day
      · simp [hsymbol, hday]
      · simp [hsymbol, hday, Ne.symm hday]
    · simp [hsymbol, Ne.symm hsymbol]
  · rw [if_neg hkept, List.filter_eq_nil_iff]
    rintro t - hand
    obtain ⟨hday, hdayKept⟩ := Bool.and_eq_true_iff.1 hand
    rw [of_decide_eq_true hday] at hdayKept
    exact hkept (of_decide_eq_true hdayKept)

/-- What is kept are ticks of the symbol, in their order. -/
theorem keptTicks_sublist (calls : List RecordCall) :
    (keptTicks retentionDays symbol calls).Sublist (ticksOfSymbol symbol calls) :=
  (((retainedCalls_sublist _).trans (newCalls_sublist [] calls)).filter _).map _

/-- The ticks of each symbol come in the order of their timestamps. -/
def InOrder (calls : List RecordCall) : Prop :=
  calls.Pairwise fun a b => a.symbol = b.symbol → a.tick.ts ≤ b.tick.ts

instance (calls : List RecordCall) : Decidable (InOrder calls) :=
  inferInstanceAs (Decidable (List.Pairwise _ _))

theorem InOrder.pairwise_ts {calls : List RecordCall} (h : InOrder calls) (symbol : String) :
    (ticksOfSymbol symbol calls).Pairwise fun a b => a.ts ≤ b.ts := by
  rw [ticksOfSymbol, List.pairwise_map, List.pairwise_filter]
  refine h.imp fun hab ha hb => hab ?_
  rw [of_decide_eq_true ha, of_decide_eq_true hb]

/-! ### What the calls do -/

namespace OstiumTickRecorder

variable {r : OstiumTickRecorder} {calls : List RecordCall} {c : RecordCall}

theorem file_writeLine (tick : IngestTick) (day : ℤ) (symbol' : String) :
    (r.writeLine symbol tick).file day symbol' =
      r.file day symbol' ++ if day = dayOf tick.ts ∧ symbol' = symbol then [tick] else [] := by
  rw [file, writeLine]
  dsimp only
  rw [Dict.get?_set]
  by_cases hday : day = dayOf tick.ts
  · rw [if_pos hday, ← hday]
    dsimp only
    by_cases hsymbol : symbol' = symbol
    · subst hsymbol
      rw [Function.update_self, if_pos ⟨rfl, rfl⟩]
    · rw [Function.update_of_ne hsymbol, if_neg fun hand => hsymbol hand.2, List.append_nil]
  · rw [if_neg hday, if_neg fun hand => hday hand.1, List.append_nil]
    rfl

theorem file_runRetention (nowTs day : ℤ) (symbol : String) :
    (r.runRetention nowTs).file day symbol =
      if DayKept r.retentionDays nowTs day then r.file day symbol else [] := by
  rw [runRetention]
  by_cases hnone : r.retentionDays ≤ 0
  · have hkept : DayKept r.retentionDays nowTs day := Or.inl hnone
    rw [if_pos hnone, if_pos hkept]
  · rw [if_neg hnone, file]
    dsimp only
    rw [Dict.get?_eraseAll]
    by_cases hkept : DayKept r.retentionDays nowTs day
    · rw [if_pos hkept, if_neg]
      · rfl
      · intro hmem
        have hold : day * 86400 < nowTs - r.retentionDays * 86400 :=
          of_decide_eq_true (List.mem_filter.1 hmem).2
        exact not_lt.2 (hkept.resolve_left hnone) hold
    · rw [if_neg hkept]
      have hold : day * 86400 < nowTs - r.retentionDays * 86400 :=
        not_le.1 fun hle => hkept (Or.inr hle)
      by_cases hday : day ∈ r.daily.keys
      · rw [if_pos (List.mem_filter.2 ⟨hday, decide_eq_true hold⟩)]
      · rw [Dict.get?_eq_none_iff.2 hday]
        split
        · rfl
        · rename_i hsome
          split at hsome
          · cases hsome
          · cases hsome

/-- What a call does: nothing, or it writes a line, and removes days. -/
theorem recordTick_cases (r : OstiumTickRecorder) (c : RecordCall) :
    (¬ ((r.lastTsBySymbol c.symbol).getD 0 < c.tick.ts ∧
        (utcFromTimestamp (1000000 * c.tick.ts)).isSome) ∧ r.recordTick c = r) ∨
    ((r.lastTsBySymbol c.symbol).getD 0 < c.tick.ts ∧
      (utcFromTimestamp (1000000 * c.tick.ts)).isSome ∧
      (r.recordTick c).retentionDays = r.retentionDays ∧
      (r.recordTick c).lastTsBySymbol =
        Function.update r.lastTsBySymbol c.symbol (some c.tick.ts) ∧
      ∀ day symbol, (r.recordTick c).file day symbol =
        if DayKept r.retentionDays c.clock day then
          r.file day symbol ++ if day = dayOf c.tick.ts ∧ symbol = c.symbol then [c.tick] else []
        else []) := by
  rw [recordTick]
  split
  · rename_i hle
    exact Or.inl ⟨fun hand => not_lt.2 hle hand.1, rfl⟩
  · rename_i hlt
    split
    · rename_i hnone
      refine Or.inl ⟨fun hand => ?_, rfl⟩
      rw [hnone] at hand
      exact Bool.false_ne_true hand.2
    · rename_i date hdate
      refine Or.inr ⟨not_le.1 hlt, by rw [hdate]; rfl, ?_, ?_, fun day symbol => ?_⟩
      · rw [runRetention]
        split
        · rfl
        · rfl
      · rw [runRetention]
        split
        · rfl
        · rfl
      · rw [file_runRetention]
        exact if_congr Iff.rfl (file_writeLine c.tick day symbol) rfl

/-- The files have the ticks that are kept, and the last timestamps are those of the ticks. -/
structure Recorded (calls : List RecordCall) (r : OstiumTickRecorder) : Prop where
  file : ∀ day symbol, r.file day symbol =
    (keptTicks r.retentionDays symbol calls).filter fun t => dayOf t.ts = day
  le_last : ∀ b ∈ calls, 0 < b.tick.ts → (utcFromTimestamp (1000000 * b.tick.ts)).isSome →
    ∃ last, r.lastTsBySymbol b.symbol = some last ∧ b.tick.ts ≤ last
  last : ∀ symbol last, r.lastTsBySymbol symbol = some last →
    0 < last ∧ ∃ b ∈ calls, b.symbol = symbol ∧ b.tick.ts = last

theorem recorded_new (retentionDays : ℤ) : Recorded [] (new retentionDays) where
  file _ _ := rfl
  le_last _ hb := by cases hb
  last _ _ h := by cases h

/-- The recorder finds out which ticks are new, if they come in the order of their timestamps. -/
theorem Recorded.isNew_iff (h : Recorded calls r)
    (hle : ∀ b ∈ calls, b.symbol = c.symbol → b.tick.ts ≤ c.tick.ts) :
    IsNew calls c ↔ (r.lastTsBySymbol c.symbol).getD 0 < c.tick.ts ∧
      (utcFromTimestamp (1000000 * c.tick.ts)).isSome := by
  constructor
  · rintro ⟨hpos, hdate, hlater⟩
    refine ⟨?_, hdate⟩
    cases hlast : r.lastTsBySymbol c.symbol with
    | none => exact hpos
    | some last =>
        obtain ⟨-, b, hb, hsymbol, rfl⟩ := h.last c.symbol last hlast
        exact hlater b hb hsymbol
  · rintro ⟨hlt, hdate⟩
    have hpos : 0 < c.tick.ts := by
      cases hlast : r.lastTsBySymbol c.symbol with
      | none => rwa [hlast] at hlt
      | some last =>
          rw [hlast] at hlt
          exact (h.last c.symbol last hlast).1.trans hlt
    refine ⟨hpos, hdate, fun b hb hsymbol => lt_of_le_of_ne (hle b hb hsymbol) fun heq => ?_⟩
    -- a tick with the same timestamp was recorded, or one before it
    obtain ⟨last, hlast, hble⟩ := h.le_last b hb (heq ▸ hpos) (heq ▸ hdate)
    rw [hsymbol] at hlast
    rw [hlast] at hlt
    exact absurd (hble.trans_lt hlt) (by rw [heq]; exact lt_irrefl _)

/-- What a call keeps. -/
theorem Recorded.recordTick (h : Recorded calls r)
    (hle : ∀ b ∈ calls, b.symbol = c.symbol → b.tick.ts ≤ c.tick.ts) :
    Recorded (calls ++ [c]) (r.recordTick c) := by
  rcases recordTick_cases r c with ⟨hold, heq⟩ | ⟨hlt, hdate, hdays, hlast, hfile⟩
  · rw [heq]
    refine ⟨fun day symbol => ?_, fun b hb hpos hdate => ?_, fun symbol last hlast => ?_⟩
    · rw [keptTicks_concat, if_neg (mt (h.isNew_iff hle).1 hold)]
      exact h.file day symbol
    · rcases List.mem_append.1 hb with hb | hb
      · exact h.le_last b hb hpos hdate
      · obtain rfl := List.mem_singleton.1 hb
        -- the tick is not new, so one that is not earlier was recorded
        have hdupe : b.tick.ts ≤ (r.lastTsBySymbol b.symbol).getD 0 :=
          not_lt.1 fun hlt => hold ⟨hlt, hdate⟩
        cases hlast : r.lastTsBySymbol b.symbol with
        | none =>
            rw [hlast] at hdupe
            exact absurd hpos (not_lt.2 hdupe)
        | some last =>
            rw [hlast] at hdupe
            exact ⟨last, rfl, hdupe⟩
    · obtain ⟨hpos, b, hb, hspec⟩ := h.last symbol last hlast
      exact ⟨hpos, b, List.mem_append_left _ hb, hspec⟩
  · have hnew := (h.isNew_iff hle).2 ⟨hlt, hdate⟩
    refine ⟨fun day symbol => ?_, fun b hb hpos hbdate => ?_, fun symbol last hsome => ?_⟩
    · rw [hfile, hdays, filter_keptTicks_concat hnew, h.file]
    · rw [hlast]
      by_cases hsymbol : b.symbol = c.symbol
      · rw [hsymbol, Function.update_self]
        refine ⟨c.tick.ts, rfl, ?_⟩
        rcases List.mem_append.1 hb with hb | hb
        · exact hle b hb hsymbol
        · rw [List.mem_singleton.1 hb]
      · rw [Function.update_of_ne hsymbol]
        rcases List.mem_append.1 hb with hb | hb
        · exact h.le_last b hb hpos hbdate
        · exact absurd (by rw [List.mem_singleton.1 hb]) hsymbol
    · rw [hlast] at hsome
      by_cases hsymbol : symbol = c.symbol
      · subst hsymbol
        rw [Function.update_self] at hsome
        obtain rfl := Option.some.inj hsome
        exact ⟨hnew.1, c, List.mem_append_right _ (List.mem_singleton_self c), rfl, rfl⟩
      · rw [Function.update_of_ne hsymbol] at hsome
        obtain ⟨hpos, b, hb, hspec⟩ := h.last symbol last hsome
        exact ⟨hpos, b, List.mem_append_left _ hb, hspec⟩

theorem record_retentionDays (retentionDays : ℤ) (calls : List RecordCall) :
    (record retentionDays calls).retentionDays = retentionDays := by
  induction calls using List.reverseRecOn with
  | nil => rfl
  | append_singleton calls c ih =>
      rw [record, List.foldl_append, List.foldl_cons, List.foldl_nil, ← record]
      rcases recordTick_cases (record retentionDays calls) c with ⟨-, heq⟩ | ⟨-, -, hdays, -⟩
      · rw [heq, ih]
      · rw [hdays, ih]

/-- The files after calls whose ticks come in the order of their timestamps. -/
theorem recorded_record (retentionDays : ℤ) {calls : List RecordCall} (h : InOrder calls) :
    Recorded calls (record retentionDays calls) := by
  induction calls using List.reverseRecOn with
  | nil => exact recorded_new retentionDays
  | append_singleton calls c ih =>
      obtain ⟨hcalls, -, hlast⟩ := List.pairwise_append.1 h
      rw [record, List.foldl_append]
      exact (ih hcalls).recordTick fun b hb hsymbol =>
        hlast b hb c (List.mem_singleton_self c) hsymbol

end OstiumTickRecorder
