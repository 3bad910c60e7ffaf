/-
**One store, written by the live feed and by backfills.**

The live feed appends the candles that it closes, while backfills are in progress: each has read its
window, and waits for the provider's answer for one of the gaps that it found then.  Whatever the
order of these steps is, no timestamp that was written is lost.  But a backfill writes what it is
answered over what was appended meanwhile, so that the value of a stored timestamp may change, and
only so.

Main definitions:

* `SharedStore.step` — appending a candle, reading a window, filling the next gap;
* `SharedStore.Good` — the candles are of UTC, and answers lie in the gap that was requested;
* `SharedStore.Event.offers` — the candles that a step is to write.

Main results:

* `SharedStore.step_spec` — what a step does to the series;
* `SharedStore.exec_backfill` — the steps of one backfill alone are the backfill of its window;
* `SharedStore.nothing_lost` — after any steps, what was stored or offered is stored;
* `SharedStore.replaced_after_read` — a value is replaced only by a backfill that had read its
  window before the value was written.
-/

import Brokerage.Backfill

set_option relaxedAutoImplicit false
set_option autoImplicit false

namespace SharedStore

open CandleStore (Files)
open MixedOhlcv (utcOnly UtcFiles)
open Backfill (Provider answered fillGap instants requests)

/-! ### The steps -/

/-- The files of a symbol, and the gaps that each backfill has left to fill. -/
structure State where
  files : Files
  gaps : ℕ → List Gap

/-- A candle of the live feed is appended; a backfill reads its window; and the provider answers
for the next gap of a backfill. -/
inductive Event
  | append (candle : Candle)
  | read (task : ℕ) (start end_ : AwareDatetime)
  | fill (task : ℕ) (answer : Option (List Candle))

/-- The store before any backfill. -/
def idle (files : Files) : State := ⟨files, fun _ => []⟩

/-- A step of the live feed or of a backfill. -/
def step (s : State) : Event → Option State
  | .append candle =>
      some { s with files := (CandleStore.append utcOnly s.files candle).elim s.files Prod.fst }
  | .read task start end_ =>
      -- a backfill that raises has no gaps to fill
      let gaps := (requests s.files start.startOfMinute end_.startOfMinute).getD []
      some { s with gaps := Function.update s.gaps task gaps }
  | .fill task answer =>
      match s.gaps task with
      | [] => none
      | gap :: gaps =>
          some ⟨(fillGap utcOnly (fun _ _ => answer) (s.files, 0) gap).1,
            Function.update s.gaps task gaps⟩

/-- The candles that a step is to write. -/
def Event.offers : Event → List (ℤ × Ohlcv)
  | .append candle => if candle.isClosed then [candle.entry utcOnly] else []
  | .read _ _ _ => []
  | .fill _ answer => (answer.getD []).map (Candle.entry utcOnly)

/-- The candles that some steps are to write. -/
def offered (es : List Event) : List (ℤ × Ohlcv) := es.flatMap Event.offers

/-- What the feed and the provider may give: candles of UTC at full seconds, answers in the gap that
was requested, and no timestamp twice. -/
def Good (s : State) : Event → Prop
  | .append candle => candle.timestamp.zone = .utc ∧ 1000000 ∣ candle.timestamp.wall
  | .read _ start end_ => start.zone = .utc ∧ end_.zone = .utc ∧ start.wall ≤ end_.wall
  | .fill task answer => ∀ gap ∈ (s.gaps task).head?, ∀ cs ∈ answer,
      (∀ c ∈ cs, c.timestamp.zone = .utc ∧ 1000000 ∣ c.timestamp.wall ∧
        c.instant utcOnly ∈ (instants gap).points) ∧
      (cs.map (Candle.instant utcOnly)).Nodup

/-! ### What a step does -/

variable {s t : State} {e : Event} {files : Files}

/-- A provider that answers for one gap only. -/
def onlyFor (gap : Gap) (answer : Option (List Candle)) : Provider := fun start end_ =>
  if start = gap.start ∧ end_ = gap.end_ then answer else none

theorem onlyFor_self (gap : Gap) (answer : Option (List Candle)) :
    onlyFor gap answer gap.start gap.end_ = answer := if_pos ⟨rfl, rfl⟩

/-- Filling a gap asks for nothing else. -/
theorem fillGap_onlyFor (gap : Gap) (answer : Option (List Candle)) :
    fillGap utcOnly (fun _ _ => answer) (files, 0) gap =
      fillGap utcOnly (onlyFor gap answer) (files, 0) gap := by
  rw [fillGap, fillGap, onlyFor_self]

theorem answered_onlyFor (gap : Gap) (answer : Option (List Candle)) :
    answered (onlyFor gap answer) [gap] = (answer.getD []).map (Candle.entry utcOnly) := by
  rw [answered, List.flatMap_singleton, onlyFor_self]

/-- Appending a candle of UTC. -/
theorem append_spec (hfiles : UtcFiles files) {candle : Candle}
    (hzone : candle.timestamp.zone = .utc) (hwhole : 1000000 ∣ candle.timestamp.wall) :
    UtcFiles ((CandleStore.append utcOnly files candle).elim files Prod.fst) ∧ ∀ x,
      CandleStore.seriesOf utcOnly
          ((CandleStore.append utcOnly files candle).elim files Prod.fst) x =
        (CandleStore.seriesOf utcOnly files x).or ((Event.append candle).offers.lookup x) := by
  have hfaithful : CandleStore.Faithful utcOnly (· = .utc) files (.append candle) := by
    refine ⟨fun d hd => ?_, fun d hd e he => ?_⟩
    · rw [List.mem_singleton.1 hd]
      exact Candle.storable_utc hzone hwhole
    · obtain rfl := List.mem_singleton.1 hd
      refine CandleStore.eqFaithful_of_utc ?_ hzone
      rcases List.mem_append.1 he with he | he
      · exact CandleStore.zone_of_mem_readCsvFile he
      · rw [List.mem_singleton.1 he]
        exact hzone
  rw [Event.offers]
  cases h : CandleStore.append utcOnly files candle with
  | none =>
      -- an open candle raises
      have hopen : ¬ candle.isClosed = true := by
        intro hclosed
        rw [CandleStore.append, if_neg (by simp [hclosed])] at h
        dsimp only at h
        split at h
        · cases h
        · cases h
      refine ⟨hfiles, fun x => ?_⟩
      rw [if_neg hopen]
      exact Option.or_none.symm
  | some result =>
      obtain ⟨files', done⟩ := result
      have hclosed : candle.isClosed = true := by
        by_contra hopen
        rw [CandleStore.append, if_pos (by simp [hopen])] at h
        cases h
      obtain ⟨hinv, hseries, -⟩ := CandleStore.append_refines hfiles rfl hfaithful h
      refine ⟨hinv, fun x => ?_⟩
      rw [if_pos hclosed]
      exact congrFun hseries x

/-- Filling a gap. -/
theorem fill_spec (hfiles : UtcFiles files) {gap : Gap} {answer : Option (List Candle)}
    (hgood : ∀ cs ∈ answer, (∀ c ∈ cs, c.timestamp.zone = .utc ∧ 1000000 ∣ c.timestamp.wall ∧
        c.instant utcOnly ∈ (instants gap).points) ∧ (cs.map (Candle.instant utcOnly)).Nodup) :
    UtcFiles (fillGap utcOnly (fun _ _ => answer) (files, 0) gap).1 ∧ ∀ x,
      CandleStore.seriesOf utcOnly (fillGap utcOnly (fun _ _ => answer) (files, 0) gap).1 x =
        (((answer.getD []).map (Candle.entry utcOnly)).lookup x).or
          (CandleStore.seriesOf utcOnly files x) := by
  have hfetch : (onlyFor gap answer).Good := by
    intro start end_ cs h
    rw [onlyFor] at h
    split at h
    · rename_i hgap
      obtain ⟨rfl, rfl⟩ := hgap
      obtain ⟨hcs, hnodup⟩ := hgood cs h
      exact ⟨fun c hc => ⟨(hcs c hc).1, (hcs c hc).2.1, (hcs c hc).2.2.1, (hcs c hc).2.2.2⟩, hnodup⟩
    · cases h
  obtain ⟨hinv, hseries, -⟩ := Backfill.fillGap_spec hfetch hfiles 0 gap
  rw [fillGap_onlyFor, ← answered_onlyFor]
  exact ⟨hinv, hseries⟩

/-- What a step leaves stored: what was, and what it was to write. -/
structure Adds (s : State) (es : List Event) (t : State) : Prop where
  stored : ∀ x, CandleStore.seriesOf utcOnly t.files x ≠ none ↔
    CandleStore.seriesOf utcOnly s.files x ≠ none ∨ x ∈ (offered es).map Prod.fst
  origin : ∀ x v, CandleStore.seriesOf utcOnly t.files x = some v →
    CandleStore.seriesOf utcOnly s.files x = some v ∨ (x, v) ∈ offered es

theorem mem_of_lookup {l : List (ℤ × Ohlcv)} {x : ℤ} {v : Ohlcv} (h : l.lookup x = some v) :
    (x, v) ∈ l := by
  induction l with
  | nil => cases h
  | cons p l ih =>
      rw [Dict.lookup_cons_ite] at h
      split at h
      · rename_i hx
        obtain rfl := Option.some.inj h
        rw [hx]
        exact List.mem_cons_self
      · exact List.mem_cons_of_mem _ (ih h)

theorem lookup_ne_none {l : List (ℤ × Ohlcv)} {x : ℤ} :
    l.lookup x ≠ none ↔ x ∈ l.map Prod.fst := by
  induction l with
  | nil => simp
  | cons p l ih =>
      rw [Dict.lookup_cons_ite, List.map_cons, List.mem_cons, ← ih]
      split
      · rename_i hx
        simp [hx]
      · rename_i hx
        simp [hx]

/-- Either of two sources, in either order. -/
theorem adds_of_or {es : List Event} (h : ∀ x,
    CandleStore.seriesOf utcOnly t.files x =
        (CandleStore.seriesOf utcOnly s.files x).or ((offered es).lookup x) ∨
      CandleStore.seriesOf utcOnly t.files x =
        ((offered es).lookup x).or (CandleStore.seriesOf utcOnly s.files x)) : Adds s es t := by
  refine ⟨fun x => ?_, fun x v hv => ?_⟩
  · rw [← lookup_ne_none]
    rcases h x with hx | hx
    · rw [hx, Ne, Option.or_eq_none_iff, not_and_or]
    · rw [hx, Ne, Option.or_eq_none_iff, not_and_or, or_comm]
  · rcases h x with hx | hx
    · rw [hx, Option.or_eq_some_iff] at hv
      rcases hv with hv | hv
      · exact Or.inl hv
      · exact Or.inr (mem_of_lookup hv.2)
    · rw [hx, Option.or_eq_some_iff] at hv
      rcases hv with hv | hv
      · exact Or.inr (mem_of_lookup hv)
      · exact Or.inl hv.2

/-- What a step does to the files. -/
theorem step_spec (hfiles : UtcFiles s.files) (hgood : Good s e) (hstep : step s e = some t) :
    UtcFiles t.files ∧ Adds s [e] t := by
  have hone : offered [e] = e.offers := List.flatMap_singleton ..
  cases e with
  | append candle =>
      obtain rfl := Option.some.inj hstep
      obtain ⟨hinv, hseries⟩ := append_spec hfiles hgood.1 hgood.2
      exact ⟨hinv, adds_of_or fun x => Or.inl (by rw [hone]; exact hseries x)⟩
  | read task start end_ =>
      obtain rfl := Option.some.inj hstep
      exact ⟨hfiles, adds_of_or fun x => Or.inr rfl⟩
  | fill task answer =>
      rw [step] at hstep
      cases hgaps : s.gaps task with
      | nil =>
          rw [hgaps] at hstep
          cases hstep
      | cons gap gaps =>
          rw [hgaps] at hstep
          obtain rfl := Option.some.inj hstep
          have hgood' := hgood gap (by rw [hgaps]; rfl)
          obtain ⟨hinv, hseries⟩ := fill_spec hfiles hgood'
          exact ⟨hinv, adds_of_or fun x => Or.inr (by rw [hone]; exact hseries x)⟩

/-! ### Any number of steps -/

theorem Adds.trans {u : State} {es fs : List Event} (h : Adds s es t) (h' : Adds t fs u) :
    Adds s (es ++ fs) u := by
  have happend : offered (es ++ fs) = offered es ++ offered fs := List.flatMap_append
  refine ⟨fun x => ?_, fun x v hv => ?_⟩
  · rw [h'.stored, h.stored, happend, List.map_append, List.mem_append, or_assoc]
  · rw [happend, List.mem_append]
    rcases h'.origin x v hv with hv | hv
    · rcases h.origin x v hv with hv | hv
      · exact Or.inl hv
      · exact Or.inr (Or.inl hv)
    · exact Or.inr (Or.inr hv)

/-- After any steps. -/
theorem exec_spec {es : List Event} (hfiles : UtcFiles s.files)
    (hgood : Transition.Meets step Good s es) (h : Transition.exec step s es = some t) :
    UtcFiles t.files ∧ Adds s es t := by
  induction es generalizing s with
  | nil =>
      obtain rfl : s = t := by simpa using h
      exact ⟨hfiles, adds_of_or fun x => Or.inr rfl⟩
  | cons e es ih =>
      obtain ⟨u, hstep, hrest⟩ := Transition.exec_cons_eq_some.1 h
      obtain ⟨hu, hadds⟩ := step_spec hfiles hgood.head hstep
      obtain ⟨ht, hadds'⟩ := ih hu (hgood.tail hstep) hrest
      exact ⟨ht, hadds.trans hadds'⟩

/-- In whatever order candles are appended, windows are read and gaps are filled: exactly the
timestamps that were stored before or that a step was to write are stored in the end, and every
value is one that was stored before or offered. -/
theorem nothing_lost {files : Files} (hfiles : UtcFiles files) {es : List Event} {t : State}
    (hgood : Transition.Meets step Good (idle files) es)
    (h : Transition.exec step (idle files) es = some t) :
    UtcFiles t.files ∧
      (∀ x, CandleStore.seriesOf utcOnly t.files x ≠ none ↔
        CandleStore.seriesOf utcOnly files x ≠ none ∨ x ∈ (offered es).map Prod.fst) ∧
      ∀ x v, CandleStore.seriesOf utcOnly t.files x = some v →
        CandleStore.seriesOf utcOnly files x = some v ∨ (x, v) ∈ offered es := by
  obtain ⟨hinv, hadds⟩ := exec_spec (s := idle files) hfiles hgood h
  exact ⟨hinv, hadds.stored, hadds.origin⟩

/-! ### Values that are replaced -/

/-- The gaps that a window is read with are free. -/
theorem requests_free (hfiles : UtcFiles files) {start end_ : AwareDatetime}
    (hs : start.zone = .utc) (he : end_.zone = .utc) (hle : start.wall ≤ end_.wall) :
    ∀ gap ∈ (requests files start.startOfMinute end_.startOfMinute).getD [],
      ∀ x ∈ (instants gap).points, CandleStore.seriesOf utcOnly files x = none := by
  by_cases hyear : end_.startOfMinute.wall ≤ monthStart 119999
  · obtain ⟨gaps, hgaps, hreq⟩ := Backfill.requests_spec hfiles (Backfill.isMinute_startOfMinute hs)
      (Backfill.isMinute_startOfMinute he) (Backfill.instant_startOfMinute_le hs he hle) hyear
    rw [hgaps]
    exact hreq.free
  · -- a window that reaches into the last month raises
    have hread : CandleStore.readMonths utcOnly files start.startOfMinute end_.startOfMinute
        (CandleStore.monthsLeft start.startOfMinute) start.startOfMinute.startOfMonth = none :=
      CandleStore.readMonths_eq_none (show start.startOfMinute.zone = end_.startOfMinute.zone from
        hs.trans he.symm) (not_le.1 hyear) _ rfl start.startOfMinute.startOfMonth_wall
    have hnone : requests files start.startOfMinute end_.startOfMinute = none := by
      rw [requests, CandleStore.readRange, hread]
      rfl
    intro gap hgap
    rw [hnone] at hgap
    cases hgap

/-- When the backfill had read its window, a timestamp was not stored. -/
def FreeWhenRead (files : Files) (pre : List Event) (task : ℕ) (x : ℤ) : Prop :=
  ∃ pre₁ start end_ pre₂ s₁, pre = pre₁ ++ .read task start end_ :: pre₂ ∧
    Transition.exec step (idle files) pre₁ = some s₁ ∧
    CandleStore.seriesOf utcOnly s₁.files x = none

theorem FreeWhenRead.concat {pre : List Event} {task : ℕ} {x : ℤ}
    (h : FreeWhenRead files pre task x) (e : Event) : FreeWhenRead files (pre ++ [e]) task x := by
  obtain ⟨pre₁, start, end_, pre₂, s₁, rfl, hexec, hfree⟩ := h
  exact ⟨pre₁, start, end_, pre₂ ++ [e], s₁, by simp, hexec, hfree⟩

/-- A gap that is left after a step was left before, or was just found. -/
theorem mem_gaps_step (hstep : step s e = some t) {task : ℕ} {gap : Gap}
    (hgap : gap ∈ t.gaps task) : gap ∈ s.gaps task ∨ ∃ start end_, e = .read task start end_ ∧
      gap ∈ (requests s.files start.startOfMinute end_.startOfMinute).getD [] := by
  cases e with
  | append candle =>
      obtain rfl := Option.some.inj hstep
      exact Or.inl hgap
  | read task' start end_ =>
      obtain rfl := Option.some.inj hstep
      dsimp only at hgap
      by_cases htask : task = task'
      · subst htask
        rw [Function.update_self] at hgap
        exact Or.inr ⟨start, end_, rfl, hgap⟩
      · rw [Function.update_of_ne htask] at hgap
        exact Or.inl hgap
  | fill task' answer =>
      rw [step] at hstep
      cases hgaps : s.gaps task' with
      | nil =>
          rw [hgaps] at hstep
          cases hstep
      | cons head gaps =>
          rw [hgaps] at hstep
          obtain rfl := Option.some.inj hstep
          dsimp only at hgap
          by_cases htask : task = task'
          · subst htask
            rw [Function.update_self] at hgap
            rw [hgaps]
            exact Or.inl (List.mem_cons_of_mem _ hgap)
          · rw [Function.update_of_ne htask] at hgap
            exact Or.inl hgap

/-- After some steps, the gaps that are left were free when they were found. -/
def Known (files : Files) (pre : List Event) (s : State) : Prop :=
  Transition.exec step (idle files) pre = some s ∧
    (Transition.Meets step Good (idle files) pre → ∀ task, ∀ gap ∈ s.gaps task,
      ∀ x ∈ (instants gap).points, FreeWhenRead files pre task x)

theorem Known.step (hfiles : UtcFiles files) {pre : List Event} (h : Known files pre s)
    (hstep : SharedStore.step s e = some t) : Known files (pre ++ [e]) t := by
  obtain ⟨hexec, hfree⟩ := h
  refine ⟨?_, fun hmeets task gap hgap x hx => ?_⟩
  · rw [Transition.exec_append hexec, Transition.exec_cons_of_eq hstep, Transition.exec_nil]
  rcases mem_gaps_step hstep hgap with hgap | ⟨start, end_, rfl, hgap⟩
  · exact (hfree hmeets.of_append_left task gap hgap x hx).concat e
  · have hread := (hmeets.of_append hexec).head
    have hutc := (exec_spec (s := idle files) hfiles hmeets.of_append_left hexec).1
    exact ⟨pre, start, end_, [], s, rfl, hexec,
      requests_free hutc hread.1 hread.2.1 hread.2.2 gap hgap x hx⟩

theorem known (hfiles : UtcFiles files) {pre : List Event}
    (h : Transition.exec step (idle files) pre = some s) : Known files pre s := by
  have hinit : Known files [] (idle files) := ⟨rfl, fun _ task gap hgap => by cases hgap⟩
  exact Transition.exec_history (fun _ _ _ _ hknown hse => hknown.step hfiles hse) hinit h

/-- A stored value is replaced only by the answer for a gap of a backfill, and only if the value was
written after that backfill had read its window, in which there was none at that timestamp. -/
theorem replaced_after_read {files : Files} (hfiles : UtcFiles files) {pre : List Event} {e : Event}
    {s t : State} (hgood : Transition.Meets step Good (idle files) (pre ++ [e]))
    (hpre : Transition.exec step (idle files) pre = some s) (hstep : step s e = some t) {x : ℤ}
    {v : Ohlcv} (hv : CandleStore.seriesOf utcOnly s.files x = some v)
    (hchanged : CandleStore.seriesOf utcOnly t.files x ≠ some v) :
    ∃ task answer pre₁ start end_ pre₂ s₁, e = .fill task answer ∧
      pre = pre₁ ++ .read task start end_ :: pre₂ ∧
      Transition.exec step (idle files) pre₁ = some s₁ ∧
      CandleStore.seriesOf utcOnly s₁.files x = none ∧ (x, v) ∈ offered pre₂ := by
  have hmeets := hgood.of_append_left
  have hutc := (exec_spec (s := idle files) hfiles hmeets hpre).1
  have hhead := (hgood.of_append hpre).head
  cases e with
  | append candle =>
      -- what is appended comes after what is stored
      obtain rfl := Option.some.inj hstep
      refine absurd ?_ hchanged
      dsimp only
      rw [(append_spec hutc hhead.1 hhead.2).2, hv]
      rfl
  | read task start end_ =>
      obtain rfl := Option.some.inj hstep
      exact absurd hv hchanged
  | fill task answer =>
      rw [step] at hstep
      cases hgaps : s.gaps task with
      | nil =>
          rw [hgaps] at hstep
          cases hstep
      | cons gap gaps =>
          rw [hgaps] at hstep
          obtain rfl := Option.some.inj hstep
          have hanswer := hhead gap (by rw [hgaps]; rfl)
          obtain ⟨-, hseries⟩ := fill_spec hutc hanswer
          dsimp only at hchanged
          rw [hseries, hv] at hchanged
          -- the timestamp is in the answer, so in the gap
          have hx : x ∈ (instants gap).points := by
            cases answer with
            | none => exact absurd rfl hchanged
            | some cs =>
                cases hlookup : (cs.map (Candle.entry utcOnly)).lookup x with
                | none =>
                    rw [Option.getD_some, hlookup] at hchanged
                    exact absurd rfl hchanged
                | some w =>
                    obtain ⟨c, hc, hentry⟩ := List.mem_map.1 (mem_of_lookup hlookup)
                    have hinst : c.instant utcOnly = x := congrArg Prod.fst hentry
                    rw [← hinst]
                    exact ((hanswer cs rfl).1 c hc).2.2
          have hgap : gap ∈ s.gaps task := by
            rw [hgaps]
            exact List.mem_cons_self
          obtain ⟨pre₁, start, end_, pre₂, s₁, rfl, hexec, hfree⟩ :=
            (known hfiles hpre).2 hmeets task gap hgap x hx
          refine ⟨task, answer, pre₁, start, end_, pre₂, s₁, rfl, rfl, hexec, hfree, ?_⟩
          rw [Transition.exec_append hexec] at hpre
          obtain ⟨s₂, hread, hrest⟩ := Transition.exec_cons_eq_some.1 hpre
          have hsteps := hmeets.of_append hexec
          have hutc₁ := (exec_spec (s := idle files) hfiles hmeets.of_append_left hexec).1
          obtain ⟨hutc₂, -⟩ := step_spec hutc₁ hsteps.head hread
          obtain ⟨-, hadds⟩ := exec_spec hutc₂ (hsteps.tail hread) hrest
          rcases hadds.origin x v hv with hv₂ | hv₂
          · obtain rfl := Option.some.inj hread
            rw [show CandleStore.seriesOf utcOnly s₁.files x = some v from hv₂] at hfree
            cases hfree
          · exact hv₂

/-! ### A backfill that nobody interrupts -/

theorem exec_fills (fetchOhlcv : Provider) (task : ℕ) (gaps : List Gap) (n : ℕ)
    (hgaps : s.gaps task = gaps) :
    Transition.exec step s (gaps.map fun gap => .fill task (fetchOhlcv gap.start gap.end_)) =
      some ⟨(gaps.foldl (fillGap utcOnly fetchOhlcv) (s.files, n)).1,
        Function.update s.gaps task []⟩ := by
  induction gaps generalizing s n with
  | nil =>
      rw [List.map_nil, List.foldl_nil, Transition.exec_nil, ← hgaps, Function.update_eq_self]
  | cons gap gaps ih =>
      have hfiles :
          (fillGap utcOnly (fun _ _ => fetchOhlcv gap.start gap.end_) (s.files, 0) gap).1 =
          (fillGap utcOnly fetchOhlcv (s.files, n) gap).1 := by
        rw [fillGap, fillGap]
        cases fetchOhlcv gap.start gap.end_ with
        | none => rfl
        | some cs =>
            dsimp only
            split_ifs <;> rfl
      have hstep : step s (.fill task (fetchOhlcv gap.start gap.end_)) =
          some ⟨(fillGap utcOnly fetchOhlcv (s.files, n) gap).1,
            Function.update s.gaps task gaps⟩ := by
        rw [step, hgaps, ← hfiles]
      rw [List.map_cons, Transition.exec_cons_of_eq hstep,
        ih (fillGap utcOnly fetchOhlcv (s.files, n) gap).2 (Function.update_self ..)]
      dsimp only
      rw [Function.update_idem, List.foldl_cons]

/-- The steps of one backfill, one after the other, are the backfill of its window. -/
theorem exec_backfill (fetchOhlcv : Provider) (task : ℕ) {start end_ : AwareDatetime}
    {gaps : List Gap}
    (hgaps : requests s.files start.startOfMinute end_.startOfMinute = some gaps) :
    ∃ files' n, Backfill.backfillRange utcOnly fetchOhlcv s.files start end_ = some (files', n) ∧
      Transition.exec step s (.read task start end_ ::
          gaps.map fun gap => .fill task (fetchOhlcv gap.start gap.end_)) =
        some ⟨files', Function.update s.gaps task []⟩ := by
  refine ⟨(gaps.foldl (fillGap utcOnly fetchOhlcv) (s.files, 0)).1,
    (gaps.foldl (fillGap utcOnly fetchOhlcv) (s.files, 0)).2, ?_, ?_⟩
  · rw [Backfill.backfillRange_eq, hgaps]
    rfl
  · have hstep : step s (.read task start end_) =
        some ⟨s.files, Function.update s.gaps task gaps⟩ := by
      rw [step, hgaps]
      rfl
    rw [Transition.exec_cons_of_eq hstep,
      exec_fills fetchOhlcv task gaps 0 (Function.update_self ..)]
    dsimp only
    rw [Function.update_idem]

/-! ### A candle that is replaced -/

theorem requests_noon : requests Dict.empty CandleStore.utcNoon.startOfMinute
    Backfill.afterNoon.startOfMinute =
      some [⟨CandleStore.utcNoon.startOfMinute, Backfill.afterNoon.startOfMinute, 30⟩] := by
  decide +kernel

/-- A backfill has read its window when a candle is appended in it. -/
def appendedMeanwhile : List Event :=
  [.read 0 CandleStore.utcNoon Backfill.afterNoon, .append (CandleStore.flat CandleStore.utcNoon 2)]

/-- The provider has another candle for the minute. -/
def answeredNoon : Event := .fill 0 (some [CandleStore.flat CandleStore.utcNoon 1])

/-- The store after the two steps. -/
def beforeAnswer : State :=
  ⟨(CandleStore.append utcOnly Dict.empty (CandleStore.flat CandleStore.utcNoon 2)).elim Dict.empty
      Prod.fst,
    Function.update (fun _ => []) 0
      [⟨CandleStore.utcNoon.startOfMinute, Backfill.afterNoon.startOfMinute, 30⟩]⟩

theorem step_read_noon :
    step (idle Dict.empty) (.read 0 CandleStore.utcNoon Backfill.afterNoon) =
      some ⟨Dict.empty, Function.update (fun _ => []) 0
        [⟨CandleStore.utcNoon.startOfMinute, Backfill.afterNoon.startOfMinute, 30⟩]⟩ := by
  have hfiles : (idle Dict.empty).files = Dict.empty := rfl
  rw [step, hfiles, requests_noon]
  rfl

theorem exec_appendedMeanwhile :
    Transition.exec step (idle Dict.empty) appendedMeanwhile = some beforeAnswer := by
  rw [appendedMeanwhile, Transition.exec_cons_of_eq step_read_noon]
  rfl

theorem step_answeredNoon : ∃ t, step beforeAnswer answeredNoon = some t ∧
    CandleStore.seriesOf utcOnly t.files 1705320000000000 = some (.flat 1) := by
  refine ⟨_, rfl, ?_⟩
  decide +kernel

theorem good_noon :
    Transition.Meets step Good (idle Dict.empty) (appendedMeanwhile ++ [answeredNoon]) := by
  refine ⟨⟨rfl, rfl, by decide⟩, ?_⟩
  rw [step_read_noon]
  refine ⟨⟨rfl, by decide⟩, ⟨fun gap hgap cs hcs => ?_, ?_⟩⟩
  · obtain rfl := Option.some.inj hgap
    obtain rfl := Option.some.inj hcs
    refine ⟨fun c hc => ?_, List.nodup_singleton _⟩
    rw [List.mem_singleton.1 hc]
    exact ⟨rfl, by decide, by decide +kernel, by decide +kernel⟩
  · cases step _ _ with
    | none => trivial
    | some t => trivial

theorem nothing_lost_noon :
    ∃ t, Transition.exec step (idle Dict.empty) (appendedMeanwhile ++ [answeredNoon]) = some t ∧
      UtcFiles t.files ∧
      (∀ x, CandleStore.seriesOf utcOnly t.files x ≠ none ↔
        CandleStore.seriesOf utcOnly Dict.empty x ≠ none ∨
          x ∈ (offered (appendedMeanwhile ++ [answeredNoon])).map Prod.fst) ∧
      ∀ x v, CandleStore.seriesOf utcOnly t.files x = some v →
        CandleStore.seriesOf utcOnly Dict.empty x = some v ∨
          (x, v) ∈ offered (appendedMeanwhile ++ [answeredNoon]) := by
  obtain ⟨t, hstep, -⟩ := step_answeredNoon
  have h : Transition.exec step (idle Dict.empty) (appendedMeanwhile ++ [answeredNoon]) = some t := by
    rw [Transition.exec_append exec_appendedMeanwhile, Transition.exec_cons_of_eq hstep]
    rfl
  exact ⟨t, h, nothing_lost CandleStore.inv_empty good_noon h⟩

/-- The candle of the live feed is replaced by the provider's. -/
theorem replaced_after_read_noon :
    ∃ t, step beforeAnswer answeredNoon = some t ∧
      CandleStore.seriesOf utcOnly beforeAnswer.files 1705320000000000 = some (.flat 2) ∧
      CandleStore.seriesOf utcOnly t.files 1705320000000000 = some (.flat 1) ∧
      ∃ task answer pre₁ start end_ pre₂ s₁, answeredNoon = .fill task answer ∧
        appendedMeanwhile = pre₁ ++ .read task start end_ :: pre₂ ∧
        Transition.exec step (idle Dict.empty) pre₁ = some s₁ ∧
        CandleStore.seriesOf utcOnly s₁.files 1705320000000000 = none ∧
        (1705320000000000, .flat 2) ∈ offered pre₂ := by
  obtain ⟨t, hstep, hafter⟩ := step_answeredNoon
  have hbefore : CandleStore.seriesOf utcOnly beforeAnswer.files 1705320000000000 =
      some (.flat 2) := by
    decide +kernel
  refine ⟨t, hstep, hbefore, hafter, replaced_after_read CandleStore.inv_empty good_noon
    exec_appendedMeanwhile hstep hbefore ?_⟩
  rw [hafter]
  decide

end SharedStore
