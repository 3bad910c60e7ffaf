/-
**A trade that is opened, watched and closed over the interface.**

The driver of the live trades opens a position, waits until the operation is confirmed, looks at the
price until the position is old enough or the run has taken too long, and closes the position, with
some attempts; when a close was acknowledged it is asked for once more, since the second one has to
do nothing.  It talks to a service that may answer anything, at any time.

Main definitions:

* `LiveTrade.driver` — the driver of the live trades;
* `LiveTrade.Story` — what was asked and answered until a state;
* `LiveTrade.Closes` — the closes among it.

Main results:

* `LiveTrade.run_closes` — what the driver asks, whatever is answered;
* `LiveTrade.run_ends` — when it is done.
-/

import Brokerage.Dialogue
import Brokerage.Text

set_option relaxedAutoImplicit false
set_option autoImplicit false

/-! ### Requests and responses -/

namespace TradeHttp

/-- What is asked of the service. -/
inductive Request
  | price
  | openOrder (slPrice tpPrice : Option ℚ)
  | operation (id : String)
  | closeOrder (positionId : Option String) (attempt : ℕ)
  deriving DecidableEq

/-- A value under `detail`: a text, or something without `lower`. -/
inductive Detail
  | text (s : String)
  | other
  deriving DecidableEq

/-- The value under `result` of an operation. -/
inductive OperationResult
  | absent
  | null
  | fields (positionId : Option String) (executedPrice : Option ℚ)
  deriving DecidableEq

/-- The fields of a body that are looked at. -/
structure Body where
  operationId : Option String := none
  status : Option String := none
  result : OperationResult := .absent
  positionId : Option String := none
  mid : Option ℚ := none
  last : Option ℚ := none
  price : Option ℚ := none
  alreadyClosed : Bool := false
  detail : Detail := .text ""
  deriving DecidableEq

/-- An answer: its status and its body, or nothing if the call raises. -/
abbrev Response := Option (ℕ × Body)

/-- A value that counts as one. -/
def truthy (s : Option String) : Bool := s.isSome && s ≠ some ""

/-- `_open_trade`, and the operation of its answer. -/
def openedOperation (r : Response) : Option String :=
  match r with
  | none => none
  | some (status, body) =>
      if (status = 200 ∨ status = 202) ∧ truthy body.operationId then body.operationId else none

/-- What is seen of an operation: it goes on, or it has ended. -/
inductive Seen
  | pending
  | confirmed (body : Body)
  | error
  deriving DecidableEq

/-- The loop's body in `_poll_operation`. -/
def seenOperation (r : Response) : Seen :=
  match r with
  | none => .pending
  | some (status, body) =>
      if status = 200 then
        if body.status = some "confirmed" then .confirmed body
        else if body.status = some "error" then .error
        else .pending
      else .pending

/-- The position of an operation; nothing if reading it raises. -/
def positionOf (body : Body) : Option (Option String) :=
  match body.result with
  | .null => none
  | .absent => some body.positionId
  | .fields positionId _ => some (if truthy positionId then positionId else body.positionId)

/-- `_close_trade`: whether the close counts as done. -/
def closeOk (r : Response) : Bool :=
  match r with
  | none => false
  | some (status, body) =>
      if status = 200 ∨ status = 202 then true
      else if status = 404 ∨ body.alreadyClosed then true
      else
        match body.detail with
        | .other => false
        | .text s => "not found".toList <:+: (Text.lower s).toList

/-- `_get_price`, whatever its source. -/
def latestPrice (r : Response) : Option ℚ :=
  match r with
  | none => none
  | some (status, body) =>
      if status = 200 then
        if body.mid.isSome ∧ body.mid ≠ some 0 then body.mid
        else if body.last.isSome ∧ body.last ≠ some 0 then body.last
        else body.price
      else none

/-- An answer, and the reading of the clock when the driver goes on after it. -/
abbrev Answer := Response × ℚ

/-- A request and what was answered. -/
abbrev Exchange := Request × Answer

/-- The position and the number of a close. -/
def closeOf : Request → Option (Option String × ℕ)
  | .closeOrder positionId attempt => some (positionId, attempt)
  | _ => none

/-- The closes that were asked for. -/
def closesOf (log : List Exchange) : List (Option String × ℕ) := log.filterMap fun e => closeOf e.1

theorem closesOf_singleton (e : Exchange) : closesOf [e] = (closeOf e.1).toList := by
  rw [closesOf, List.filterMap_cons, List.filterMap_nil]
  cases closeOf e.1 <;> rfl

theorem closesOf_append (log log' : List Exchange) :
    closesOf (log ++ log') = closesOf log ++ closesOf log' := List.filterMap_append

theorem closesOf_eq_of_map {log : List Exchange} {closes : List (Option String × ℕ)}
    (h : log.map Prod.fst = closes.map fun c => .closeOrder c.1 c.2) : closesOf log = closes := by
  induction log generalizing closes with
  | nil =>
      cases closes with
      | nil => rfl
      | cons c closes => cases h
  | cons e log ih =>
      cases closes with
      | nil => cases h
      | cons c closes =>
          rw [List.map_cons, List.map_cons, List.cons.injEq] at h
          rw [closesOf, List.filterMap_cons, h.1, ← closesOf, ih h.2]
          rfl

end TradeHttp

namespace LiveTrade

open TradeHttp

/-! ### The driver -/

structure Config where
  ttlS : ℚ
  pollS : ℚ
  maxDurationS : ℚ
  closeRetries : ℕ

/-- What is written as the result. -/
inductive Outcome
  | openFailed
  | openNotConfirmed
  | raised
  | timeout (closeSuccess : Bool)
  | closeFailed
  | ok
  deriving DecidableEq

/-- The exit code, if the run does not raise. -/
def Outcome.code : Outcome → Option ℕ
  | openFailed => some 1
  | openNotConfirmed => some 1
  | raised => none
  | timeout _ => some 3
  | closeFailed => some 2
  | ok => some 0

/-- Where the driver is. -/
inductive Phase
  | opening
  | confirming (operationId : String) (deadline : ℚ)
  | monitoring (positionId : Option String) (entryTime : ℚ)
  | closing (positionId : Option String) (attempt : ℕ) (timedOut : Bool)
  | again (positionId : Option String)
  | done (outcome : Outcome)
  deriving DecidableEq

/-- The driver, the start of its run, its clock, and the prices it has seen. -/
structure State where
  phase : Phase
  runStart : ℚ
  now : ℚ
  samples : List (Option ℚ)

variable (cfg : Config)

/-- What a close that is given up means. -/
def gaveUp (timedOut : Bool) : Outcome := if timedOut then .timeout false else .closeFailed

/-- The start of `_best_effort_close`. -/
def bestEffortClose (positionId : Option String) (timedOut : Bool) : Phase :=
  if 1 ≤ cfg.closeRetries then .closing positionId 1 timedOut else .done (gaveUp timedOut)

/-- The checks of the monitor, before a price is asked for. -/
def monitor (runStart : ℚ) (positionId : Option String) (entryTime now : ℚ) : Phase :=
  if cfg.maxDurationS ≤ now - runStart then bestEffortClose cfg positionId true
  else if cfg.ttlS ≤ now - entryTime then bestEffortClose cfg positionId false
  else .monitoring positionId entryTime

/-- What is asked. -/
def ask (s : State) : Option Request :=
  match s.phase with
  | .opening => some (.openOrder none none)
  | .confirming operationId _ => some (.operation operationId)
  | .monitoring _ _ => some .price
  | .closing positionId attempt _ => some (.closeOrder positionId attempt)
  | .again positionId => some (.closeOrder positionId 99)
  | .done _ => none

/-- Where the driver goes from an answer. -/
def next (s : State) (r : Response) (now : ℚ) : Phase :=
  match s.phase with
  | .opening =>
      match openedOperation r with
      | none => .done .openFailed
      | some operationId => .confirming operationId (now + 30)
  | .confirming operationId deadline =>
      match seenOperation r with
      | .error => .done .openNotConfirmed
      | .pending =>
          if now < deadline then .confirming operationId deadline else .done .openNotConfirmed
      | .confirmed body =>
          match positionOf body with
          | none => .done .raised
          | some positionId => monitor cfg s.runStart positionId now now
  | .monitoring positionId entryTime => monitor cfg s.runStart positionId entryTime now
  | .closing positionId attempt timedOut =>
      if closeOk r then if timedOut then .done (.timeout true) else .again positionId
      else if attempt + 1 ≤ cfg.closeRetries then .closing positionId (attempt + 1) timedOut
      else .done (gaveUp timedOut)
  | .again _ => .done .ok
  | .done outcome => .done outcome

/-- The driver after an answer. -/
def answer (s : State) (a : Answer) : State :=
  { phase := next cfg s a.1 a.2
    runStart := s.runStart
    now := a.2
    samples :=
      match s.phase with
      | .monitoring _ _ => s.samples ++ [latestPrice a.1]
      | _ => s.samples }

/-- The driver as a client of the service. -/
def driver : Client State Request Answer := ⟨ask, answer cfg⟩

/-- The driver at the start of a run. -/
def State.start (runStart : ℚ) : State := ⟨.opening, runStart, runStart, []⟩

/-! ### What is asked -/

/-- The open, and the questions for its operation while it goes on. -/
structure Pending (operationId : String) (log : List Exchange) : Prop where
  shape : ∃ first rest, log = first :: rest ∧ first.1 = .openOrder none none ∧
    openedOperation first.2.1 = some operationId ∧
      ∀ e ∈ rest, e.1 = .operation operationId ∧ seenOperation e.2.1 = .pending

/-- A position was opened, and only its price was asked for since then. -/
def Watched (positionId : Option String) (log : List Exchange) : Prop :=
  ∃ operationId before confirm prices body, log = before ++ confirm :: prices ∧
    Pending operationId before ∧ confirm.1 = .operation operationId ∧
      seenOperation confirm.2.1 = .confirmed body ∧ positionOf body = some positionId ∧
        ∀ e ∈ prices, e.1 = .price

/-- Attempts at a close, from the first on, that were all refused. -/
def Refused (positionId : Option String) (attempts : ℕ) (log : List Exchange) : Prop :=
  log.map Prod.fst = (List.range attempts).map (fun i => .closeOrder positionId (i + 1)) ∧
    ∀ e ∈ log, closeOk e.2.1 = false

/-- A close that was acknowledged, after some attempts. -/
def Acknowledged (positionId : Option String) (log : List Exchange) : Prop :=
  ∃ refused last attempts, log = refused ++ [last] ∧ Refused positionId attempts refused ∧
    attempts + 1 ≤ cfg.closeRetries ∧ last.1 = .closeOrder positionId (attempts + 1) ∧
      closeOk last.2.1 = true

/-- What was asked and answered until the driver is where it is. -/
def Story (log : List Exchange) : Phase → Prop
  | .opening => log = []
  | .confirming operationId _ => Pending operationId log
  | .monitoring positionId _ => Watched positionId log
  | .closing positionId attempt _ => ∃ watched refused, log = watched ++ refused ∧
      Watched positionId watched ∧ 1 ≤ attempt ∧ attempt ≤ cfg.closeRetries ∧
        Refused positionId (attempt - 1) refused
  | .again positionId => ∃ watched closes, log = watched ++ closes ∧ Watched positionId watched ∧
      Acknowledged cfg positionId closes
  | .done .ok => ∃ positionId watched closes second, log = watched ++ closes ++ [second] ∧
      Watched positionId watched ∧ Acknowledged cfg positionId closes ∧
        second.1 = .closeOrder positionId 99
  | .done .closeFailed => ∃ positionId watched refused, log = watched ++ refused ∧
      Watched positionId watched ∧ Refused positionId cfg.closeRetries refused
  | .done (.timeout false) => ∃ positionId watched refused, log = watched ++ refused ∧
      Watched positionId watched ∧ Refused positionId cfg.closeRetries refused
  | .done (.timeout true) => ∃ positionId watched closes, log = watched ++ closes ∧
      Watched positionId watched ∧ Acknowledged cfg positionId closes
  | .done .openFailed => ∃ first, log = [first] ∧ first.1 = .openOrder none none ∧
      openedOperation first.2.1 = none
  | .done .openNotConfirmed => ∃ operationId before last, log = before ++ [last] ∧
      Pending operationId before ∧ last.1 = .operation operationId ∧
        ∀ body, seenOperation last.2.1 ≠ .confirmed body
  | .done .raised => ∃ operationId before last body, log = before ++ [last] ∧
      Pending operationId before ∧ last.1 = .operation operationId ∧
        seenOperation last.2.1 = .confirmed body ∧ positionOf body = none

variable {cfg} {positionId : Option String} {log : List Exchange}

/-- A question more. -/
theorem Pending.poll {operationId : String} (h : Pending operationId log) {e : Exchange}
    (he : e.1 = .operation operationId) (hseen : seenOperation e.2.1 = .pending) :
    Pending operationId (log ++ [e]) := by
  obtain ⟨first, rest, rfl, hfirst, hopened, hrest⟩ := h.shape
  have hall : ∀ e' ∈ rest ++ [e], e'.1 = .operation operationId ∧
      seenOperation e'.2.1 = .pending :=
    List.forall_mem_append.2 ⟨hrest, List.forall_mem_singleton.2 ⟨he, hseen⟩⟩
  exact ⟨first, rest ++ [e], rfl, hfirst, hopened, hall⟩

theorem Watched.price (h : Watched positionId log) {e : Exchange} (he : e.1 = .price) :
    Watched positionId (log ++ [e]) := by
  obtain ⟨operationId, before, confirm, prices, body, rfl, hbefore, hconfirm, hseen, hposition,
    hprices⟩ := h
  have hall : ∀ e' ∈ prices ++ [e], e'.1 = .price :=
    List.forall_mem_append.2 ⟨hprices, List.forall_mem_singleton.2 he⟩
  exact ⟨operationId, before, confirm, prices ++ [e], body, by simp, hbefore, hconfirm, hseen,
    hposition, hall⟩

theorem Refused.refuse {attempts : ℕ} (h : Refused positionId attempts log) {e : Exchange}
    (he : e.1 = .closeOrder positionId (attempts + 1)) (hrefused : closeOk e.2.1 = false) :
    Refused positionId (attempts + 1) (log ++ [e]) := by
  refine ⟨?_, List.forall_mem_append.2 ⟨h.2, List.forall_mem_singleton.2 hrefused⟩⟩
  rw [List.map_append, h.1, List.range_succ, List.map_append, List.map_singleton,
    List.map_singleton, he]

/-- All attempts were refused, and the driver gives up. -/
theorem story_gaveUp {watched refused : List Exchange} (h : Watched positionId watched)
    (hrefused : Refused positionId cfg.closeRetries refused) (timedOut : Bool) :
    Story cfg (watched ++ refused) (.done (gaveUp timedOut)) := by
  cases timedOut with
  | true => exact ⟨positionId, watched, refused, rfl, h, hrefused⟩
  | false => exact ⟨positionId, watched, refused, rfl, h, hrefused⟩

/-- Before the first attempt none was refused. -/
theorem story_bestEffortClose (h : Watched positionId log) (timedOut : Bool) :
    Story cfg log (bestEffortClose cfg positionId timedOut) := by
  have hnone : Refused positionId 0 [] := ⟨rfl, fun e he => by cases he⟩
  rw [bestEffortClose]
  split
  · exact ⟨log, [], (List.append_nil log).symm, h, le_rfl, ‹_›, hnone⟩
  · have hzero : cfg.closeRetries = 0 := by omega
    have hgaveUp := story_gaveUp h (hzero ▸ hnone) timedOut
    rwa [List.append_nil] at hgaveUp

theorem story_monitor (h : Watched positionId log) (runStart entryTime now : ℚ) :
    Story cfg log (monitor cfg runStart positionId entryTime now) := by
  rw [monitor]
  split
  · exact story_bestEffortClose h true
  · split
    · exact story_bestEffortClose h false
    · exact h

/-- An exchange goes on with the story. -/
theorem story_next {s : State} (h : Story cfg log s.phase) {q : Request} (hask : ask s = some q)
    (r : Response) (now : ℚ) : Story cfg (log ++ [(q, r, now)]) (next cfg s r now) := by
  rw [ask] at hask
  rw [next]
  cases hphase : s.phase with
  | done outcome =>
      rw [hphase] at hask
      cases hask
  | opening =>
      rw [hphase] at h hask
      obtain rfl : log = [] := h
      obtain rfl := Option.some.inj hask
      dsimp only
      cases hopened : openedOperation r with
      | none => exact ⟨_, rfl, rfl, hopened⟩
      | some operationId => exact ⟨_, [], rfl, rfl, hopened, fun e he => by cases he⟩
  | confirming operationId deadline =>
      rw [hphase] at h hask
      obtain rfl := Option.some.inj hask
      have hpending : Pending operationId log := h
      dsimp only
      cases hseen : seenOperation r with
      | error =>
          exact ⟨operationId, log, _, rfl, hpending, rfl,
            fun body heq => (by cases hseen.symm.trans heq)⟩
      | pending =>
          dsimp only
          split
          · exact hpending.poll rfl hseen
          · exact ⟨operationId, log, _, rfl, hpending, rfl,
              fun body heq => (by cases hseen.symm.trans heq)⟩
      | confirmed body =>
          dsimp only
          cases hposition : positionOf body with
          | none => exact ⟨operationId, log, _, body, rfl, hpending, rfl, hseen, hposition⟩
          | some positionId =>
              exact story_monitor ⟨operationId, log, _, [], body, rfl, hpending, rfl, hseen,
                hposition, fun e he => by cases he⟩ _ _ _
  | monitoring positionId entryTime =>
      rw [hphase] at h hask
      obtain rfl := Option.some.inj hask
      exact story_monitor (Watched.price h rfl) _ _ _
  | closing positionId attempt timedOut =>
      rw [hphase] at h hask
      obtain rfl := Option.some.inj hask
      obtain ⟨watched, refused, rfl, hwatched, hfirst, hlast, hrefused⟩ := h
      have hattempt : attempt - 1 + 1 = attempt := by omega
      dsimp only
      split
      · rename_i hok
        have hacknowledged : Acknowledged cfg positionId
            (refused ++ [(.closeOrder positionId attempt, r, now)]) :=
          ⟨refused, _, attempt - 1, rfl, hrefused, by omega, by rw [hattempt], hok⟩
        split
        · exact ⟨positionId, watched, _, List.append_assoc _ _ _, hwatched, hacknowledged⟩
        · exact ⟨watched, _, List.append_assoc _ _ _, hwatched, hacknowledged⟩
      · rename_i hok
        have hrefused' := hrefused.refuse (e := (.closeOrder positionId attempt, r, now))
          (by rw [hattempt]) (Bool.eq_false_iff.2 hok)
        rw [hattempt] at hrefused'
        split
        · rename_i hmore
          exact ⟨watched, _, List.append_assoc _ _ _, hwatched, Nat.le_add_left 1 attempt, hmore,
            hrefused'⟩
        · have hall : attempt = cfg.closeRetries := by omega
          rw [List.append_assoc]
          exact story_gaveUp hwatched (hall ▸ hrefused') timedOut
  | again positionId =>
      rw [hphase] at h hask
      obtain rfl := Option.some.inj hask
      obtain ⟨watched, closes, rfl, hwatched, hacknowledged⟩ := h
      exact ⟨positionId, watched, closes, _, rfl, hwatched, hacknowledged, rfl⟩

/-- What is asked and answered in a run. -/
theorem story (cfg : Config) (runStart : ℚ) (answers : List Answer) :
    Story cfg ((driver cfg).dialogue (.start runStart) answers).1
      ((driver cfg).dialogue (.start runStart) answers).2.phase := by
  have hstep : ∀ (log : List Exchange) (s : State) (q : Request) (a : Answer),
      Story cfg log s.phase → (driver cfg).ask s = some q →
        Story cfg (log ++ [(q, a)]) ((driver cfg).answer s a).phase :=
    fun log s q a h hask => story_next h hask a.1 a.2
  have hnil : Story cfg [] (State.start runStart).phase := rfl
  exact Client.dialogue_induction (P := fun log (s : State) => Story cfg log s.phase) hstep hnil
    answers

/-! ### Closes -/

theorem Pending.closesOf {operationId : String} (h : Pending operationId log) :
    closesOf log = [] := by
  obtain ⟨first, rest, rfl, hfirst, -, hrest⟩ := h.shape
  rw [TradeHttp.closesOf, List.filterMap_eq_nil_iff]
  intro e he
  rcases List.mem_cons.1 he with rfl | he
  · exact congrArg closeOf hfirst
  · exact congrArg closeOf (hrest e he).1

theorem Watched.closesOf (h : Watched positionId log) : closesOf log = [] := by
  obtain ⟨operationId, before, confirm, prices, body, rfl, hbefore, hconfirm, -, -, hprices⟩ := h
  have hnone : TradeHttp.closesOf (confirm :: prices) = [] := by
    rw [TradeHttp.closesOf, List.filterMap_eq_nil_iff]
    intro e he
    rcases List.mem_cons.1 he with rfl | he
    · exact congrArg closeOf hconfirm
    · exact congrArg closeOf (hprices e he)
  rw [closesOf_append, hbefore.closesOf, hnone, List.append_nil]

theorem Refused.closesOf {attempts : ℕ} (h : Refused positionId attempts log) :
    closesOf log = (List.range attempts).map fun i => (positionId, i + 1) := by
  refine closesOf_eq_of_map ?_
  rw [h.1, List.map_map]
  rfl

theorem Acknowledged.closesOf (h : Acknowledged cfg positionId log) :
    ∃ attempts, 1 ≤ attempts ∧ attempts ≤ cfg.closeRetries ∧
      closesOf log = (List.range attempts).map fun i => (positionId, i + 1) := by
  obtain ⟨refused, last, attempts, rfl, hrefused, hle, hlast, -⟩ := h
  refine ⟨attempts + 1, by omega, hle, ?_⟩
  rw [closesOf_append, hrefused.closesOf, List.range_succ, List.map_append, List.map_singleton]
  congr 1
  rw [closesOf_singleton, hlast]
  rfl

/-- The closes of a run: those of one position, numbered from one on, and once more when one of them
was acknowledged. -/
structure Closes (cfg : Config) (closes : List (Option String × ℕ)) (phase : Phase) : Prop where
  shape : ∃ positionId attempts, attempts ≤ cfg.closeRetries ∧
    closes = ((List.range attempts).map fun i => (positionId, i + 1)) ++
      if phase = .done .ok then [(positionId, 99)] else []
  notOpened : phase = .done .openFailed ∨ phase = .done .openNotConfirmed → closes = []
  failed : phase = .done .closeFailed → closes.length = cfg.closeRetries

theorem Story.closes {phase : Phase} (h : Story cfg log phase) :
    Closes cfg (closesOf log) phase := by
  have hnone : closesOf log = [] → phase ≠ .done .ok → phase ≠ .done .closeFailed →
      Closes cfg (closesOf log) phase := fun hnil hok hfailed =>
    ⟨⟨none, 0, Nat.zero_le _, by rw [hnil, if_neg hok]; rfl⟩, fun _ => hnil,
      fun heq => absurd heq hfailed⟩
  have hattempts : ∀ positionId attempts, attempts ≤ cfg.closeRetries →
      closesOf log = ((List.range attempts).map fun i => (positionId, i + 1)) →
        phase ≠ .done .ok → phase ≠ .done .openFailed → phase ≠ .done .openNotConfirmed →
          (phase = .done .closeFailed → attempts = cfg.closeRetries) →
            Closes cfg (closesOf log) phase := by
    intro positionId attempts hle hcloses hok hopen hconfirm hfailed
    refine ⟨⟨positionId, attempts, hle, by rw [hcloses, if_neg hok, List.append_nil]⟩, ?_,
      fun heq => ?_⟩
    · rintro (heq | heq)
      · exact absurd heq hopen
      · exact absurd heq hconfirm
    · rw [hcloses, List.length_map, List.length_range, hfailed heq]
  cases phase with
  | opening =>
      obtain rfl : log = [] := h
      exact hnone rfl (by simp) (by simp)
  | confirming operationId deadline =>
      have hpending : Pending operationId log := h
      exact hnone hpending.closesOf (by simp) (by simp)
  | monitoring positionId entryTime =>
      have hwatched : Watched positionId log := h
      exact hnone hwatched.closesOf (by simp) (by simp)
  | closing positionId attempt timedOut =>
      obtain ⟨watched, refused, rfl, hwatched, hfirst, hlast, hrefused⟩ := h
      refine hattempts positionId (attempt - 1) (by omega) ?_ (by simp) (by simp) (by simp)
        (by simp)
      rw [closesOf_append, hwatched.closesOf, List.nil_append, hrefused.closesOf]
  | again positionId =>
      obtain ⟨watched, closes, rfl, hwatched, hacknowledged⟩ := h
      obtain ⟨attempts, -, hle, hcloses⟩ := hacknowledged.closesOf
      refine hattempts positionId attempts hle ?_ (by simp) (by simp) (by simp) (by simp)
      rw [closesOf_append, hwatched.closesOf, List.nil_append, hcloses]
  | done outcome =>
      cases outcome with
      | openFailed =>
          obtain ⟨first, rfl, hfirst, -⟩ := h
          refine hnone ?_ (by simp) (by simp)
          rw [closesOf_singleton, hfirst]
          rfl
      | openNotConfirmed =>
          obtain ⟨operationId, before, last, rfl, hpending, hlast, -⟩ := h
          refine hnone ?_ (by simp) (by simp)
          rw [closesOf_append, hpending.closesOf, closesOf_singleton, hlast]
          rfl
      | raised =>
          obtain ⟨operationId, before, last, body, rfl, hpending, hlast, -⟩ := h
          refine hnone ?_ (by simp) (by simp)
          rw [closesOf_append, hpending.closesOf, closesOf_singleton, hlast]
          rfl
      | timeout closeSuccess =>
          cases closeSuccess with
          | true =>
              obtain ⟨positionId, watched, closes, rfl, hwatched, hacknowledged⟩ := h
              obtain ⟨attempts, -, hle, hcloses⟩ := hacknowledged.closesOf
              refine hattempts positionId attempts hle ?_ (by simp) (by simp) (by simp) (by simp)
              rw [closesOf_append, hwatched.closesOf, List.nil_append, hcloses]
          | false =>
              obtain ⟨positionId, watched, refused, rfl, hwatched, hrefused⟩ := h
              refine hattempts positionId _ le_rfl ?_ (by simp) (by simp) (by simp) (by simp)
              rw [closesOf_append, hwatched.closesOf, List.nil_append, hrefused.closesOf]
      | closeFailed =>
          obtain ⟨positionId, watched, refused, rfl, hwatched, hrefused⟩ := h
          refine hattempts positionId _ le_rfl ?_ (by simp) (by simp) (by simp) fun _ => rfl
          rw [closesOf_append, hwatched.closesOf, List.nil_append, hrefused.closesOf]
      | ok =>
          obtain ⟨positionId, watched, closes, second, rfl, hwatched, hacknowledged, hsecond⟩ := h
          obtain ⟨attempts, -, hle, hcloses⟩ := hacknowledged.closesOf
          refine ⟨⟨positionId, attempts, hle, ?_⟩, by simp, by simp⟩
          rw [if_pos rfl, closesOf_append, closesOf_append, hwatched.closesOf, List.nil_append,
            hcloses]
          congr 1
          rw [closesOf_singleton, hsecond]
          rfl

/-- Whatever is answered, and whenever: the exchanges of a run, and the closes among them. -/
theorem run_closes (cfg : Config) (runStart : ℚ) (answers : List Answer) :
    Story cfg ((driver cfg).dialogue (.start runStart) answers).1
        ((driver cfg).dialogue (.start runStart) answers).2.phase ∧
      Closes cfg (closesOf ((driver cfg).dialogue (.start runStart) answers).1)
        ((driver cfg).dialogue (.start runStart) answers).2.phase := by
  have hstory := story cfg runStart answers
  exact ⟨hstory, hstory.closes⟩

/-! ### The end of a run -/

variable (cfg)

/-- How long the driver sleeps after an answer, before it goes on. -/
def pause (s : State) (r : Response) : ℚ :=
  match s.phase with
  | .confirming _ _ => if seenOperation r = .pending then 1 else 0
  | .monitoring _ _ => cfg.pollS
  | .closing _ _ _ => if closeOk r then 0 else 2
  | _ => 0

/-- The clock has gone on by the time that the driver slept, at least. -/
def Timely (s : State) (a : Answer) : Prop := s.now + pause cfg s a.1 ≤ a.2

/-- The answers that the driver can still wait for. -/
def left (s : State) : ℕ :=
  match s.phase with
  | .opening => 33 + ⌈cfg.ttlS / cfg.pollS⌉₊ + cfg.closeRetries
  | .confirming _ deadline =>
      ⌈deadline - s.now⌉₊ + (⌈cfg.ttlS / cfg.pollS⌉₊ + cfg.closeRetries + 2)
  | .monitoring _ entryTime =>
      ⌈(cfg.ttlS - (s.now - entryTime)) / cfg.pollS⌉₊ + (cfg.closeRetries + 2)
  | .closing _ attempt _ => cfg.closeRetries - attempt + 2
  | .again _ => 1
  | .done _ => 0

/-- The driver waits while there is time, and closes while there are attempts. -/
def Waits (s : State) : Prop :=
  match s.phase with
  | .confirming _ deadline => s.now < deadline
  | .monitoring _ entryTime => s.now - entryTime < cfg.ttlS
  | .closing _ attempt _ => attempt ≤ cfg.closeRetries
  | _ => True

variable {cfg}

/-- A unit of time less is an answer less. -/
theorem ceil_lt {x y : ℚ} (hx : 0 < x) (hxy : y + 1 ≤ x) : ⌈y⌉₊ < ⌈x⌉₊ := by
  have hle : ⌈y⌉₊ ≤ ⌈x - 1⌉₊ := Nat.ceil_mono (by linarith)
  have hone : ⌈x - 1⌉₊ + 1 = ⌈x⌉₊ := by
    rw [Nat.ceil_sub_one]
    have hpos := Nat.ceil_pos.2 hx
    omega
  omega

/-- After its checks the monitor waits, or it closes. -/
theorem left_monitor (runStart : ℚ) (positionId : Option String) (entryTime now : ℚ)
    (samples : List (Option ℚ)) :
    Waits cfg ⟨monitor cfg runStart positionId entryTime now, runStart, now, samples⟩ ∧
      left cfg ⟨monitor cfg runStart positionId entryTime now, runStart, now, samples⟩ ≤
        ⌈(cfg.ttlS - (now - entryTime)) / cfg.pollS⌉₊ + (cfg.closeRetries + 2) := by
  have hclose : ∀ timedOut,
      Waits cfg ⟨bestEffortClose cfg positionId timedOut, runStart, now, samples⟩ ∧
        left cfg ⟨bestEffortClose cfg positionId timedOut, runStart, now, samples⟩ ≤
          ⌈(cfg.ttlS - (now - entryTime)) / cfg.pollS⌉₊ + (cfg.closeRetries + 2) := by
    intro timedOut
    rw [bestEffortClose]
    split
    · rename_i hretries
      refine ⟨hretries, ?_⟩
      simp only [left]
      omega
    · exact ⟨trivial, Nat.zero_le _⟩
  rw [monitor]
  split
  · exact hclose true
  · split
    · exact hclose false
    · rename_i hwaits
      exact ⟨not_le.1 hwaits, le_rfl⟩

/-- While the driver asks, an answer is left. -/
theorem left_pos {s : State} {q : Request} (hask : ask s = some q) : 0 < left cfg s := by
  obtain ⟨phase, runStart, now, samples⟩ := s
  cases phase with
  | done outcome => cases hask
  | again positionId => exact Nat.zero_lt_one
  | opening =>
      simp only [left]
      omega
  | _ => exact Nat.add_pos_right _ (Nat.succ_pos _)

/-- With every answer in its time there is less to wait for. -/
theorem left_answer (hpoll : 0 < cfg.pollS) {s : State} (hwaits : Waits cfg s) {q : Request}
    (hask : ask s = some q) {a : Answer} (ha : Timely cfg s a) :
    Waits cfg (answer cfg s a) ∧ left cfg (answer cfg s a) < left cfg s := by
  have hpos : 0 < left cfg s := left_pos hask
  obtain ⟨phase, runStart, now, samples⟩ := s
  obtain ⟨r, now'⟩ := a
  cases phase with
  | done outcome => cases hask
  | again positionId => exact ⟨trivial, hpos⟩
  | opening =>
      simp only [answer, next]
      cases openedOperation r with
      | none =>
          exact ⟨trivial, hpos⟩
      | some operationId =>
          refine ⟨lt_add_of_pos_right now' (by norm_num), ?_⟩
          have hthirty : ⌈now' + 30 - now'⌉₊ = 30 := by
            rw [add_sub_cancel_left]
            exact Nat.ceil_natCast 30
          simp only [left, hthirty]
          omega
  | confirming operationId deadline =>
      have hdeadline : now < deadline := hwaits
      have hceil : 0 < ⌈deadline - now⌉₊ := Nat.ceil_pos.2 (sub_pos.2 hdeadline)
      have htime : now + pause cfg ⟨.confirming operationId deadline, runStart, now, samples⟩ r ≤
        now' := ha
      simp only [answer, next]
      cases hseen : seenOperation r with
      | error =>
          exact ⟨trivial, hpos⟩
      | pending =>
          simp only [pause, hseen, if_true] at htime
          dsimp only
          split
          · rename_i hlt
            refine ⟨hlt, ?_⟩
            have hless := ceil_lt (x := deadline - now) (y := deadline - now') (by linarith)
              (by linarith)
            simp only [left]
            omega
          · exact ⟨trivial, hpos⟩
      | confirmed body =>
          dsimp only
          cases positionOf body with
          | none =>
              exact ⟨trivial, hpos⟩
          | some positionId =>
              obtain ⟨hwaits', hle⟩ := left_monitor runStart positionId now' now' samples
              rw [sub_self, sub_zero] at hle
              refine ⟨hwaits', lt_of_le_of_lt hle ?_⟩
              simp only [left]
              omega
  | monitoring positionId entryTime =>
      have helapsed : now - entryTime < cfg.ttlS := hwaits
      have htime : now + cfg.pollS ≤ now' := ha
      obtain ⟨hwaits', hle⟩ := left_monitor runStart positionId entryTime now'
        (samples ++ [latestPrice r])
      refine ⟨hwaits', lt_of_le_of_lt hle ?_⟩
      have hless : ⌈(cfg.ttlS - (now' - entryTime)) / cfg.pollS⌉₊ <
          ⌈(cfg.ttlS - (now - entryTime)) / cfg.pollS⌉₊ := by
        refine ceil_lt (div_pos (by linarith) hpoll) ?_
        rw [div_add_one hpoll.ne', div_le_div_iff_of_pos_right hpoll]
        linarith
      simp only [left]
      omega
  | closing positionId attempt timedOut =>
      have hattempt : attempt ≤ cfg.closeRetries := hwaits
      simp only [answer, next]
      split
      · split
        · exact ⟨trivial, hpos⟩
        · refine ⟨trivial, ?_⟩
          simp only [left]
          omega
      · split
        · rename_i hmore
          refine ⟨hmore, ?_⟩
          simp only [left]
          omega
        · exact ⟨trivial, hpos⟩

/-- With a pause between the prices, and a clock that goes on at least as long as the driver sleeps,
a run is over after so many answers at most. -/
theorem run_ends (hpoll : 0 < cfg.pollS) (runStart : ℚ) {answers : List Answer}
    (htimely : (driver cfg).Fair (Timely cfg) (.start runStart) answers)
    (hlength : 33 + ⌈cfg.ttlS / cfg.pollS⌉₊ + cfg.closeRetries ≤ answers.length) :
    ∃ outcome, ((driver cfg).dialogue (.start runStart) answers).2.phase = .done outcome := by
  have hpos : ∀ (s : State) (q : Request), Waits cfg s → (driver cfg).ask s = some q →
      0 < left cfg s := fun s q _ hask => left_pos hask
  have hstep : ∀ (s : State) (q : Request) (a : Answer), Waits cfg s → (driver cfg).ask s = some q →
      Timely cfg s a → Waits cfg ((driver cfg).answer s a) ∧
        left cfg ((driver cfg).answer s a) < left cfg s :=
    fun s q a hwaits hask ha => left_answer hpoll hwaits hask ha
  have hdone := Client.Fair.done hpos hstep htimely trivial hlength
  generalize ((driver cfg).dialogue (.start runStart) answers).2 = s at hdone
  obtain ⟨phase, runStart', now, samples⟩ := s
  cases phase with
  | done outcome => exact ⟨outcome, rfl⟩
  | _ => cases hdone

/-! ### A trade of five seconds -/

instance (s : State) (a : Answer) : Decidable (Timely cfg s a) :=
  inferInstanceAs (Decidable (s.now + pause cfg s a.1 ≤ a.2))

/-- A trade of five seconds, with one look at the price. -/
def exampleConfig : Config := ⟨5, 5, 120, 1⟩

/-- The service opens the position, tells its price, and closes it; the answers after the second
close are not looked at. -/
def exampleAnswers : List Answer :=
  [(some (202, { operationId := some "op1" }), 1),
    (some (200, { status := some "confirmed", result := .fields (some "p1") (some 1) }), 2),
    (some (200, { mid := some 1 }), 7), (some (200, { status := some "closed" }), 8),
    (some (404, { detail := .text "Position not found" }), 9)] ++
  List.replicate 30 (none, 9)

theorem run_ends_exampleAnswers :
    ∃ outcome, ((driver exampleConfig).dialogue (.start 0) exampleAnswers).2.phase =
      .done outcome := by
  refine run_ends (by decide +kernel) 0 (by decide +kernel) ?_
  have hceil : ⌈exampleConfig.ttlS / exampleConfig.pollS⌉₊ = 1 := by
    have hdiv : exampleConfig.ttlS / exampleConfig.pollS = 1 := by norm_num [exampleConfig]
    rw [hdiv, Nat.ceil_one]
  rw [hceil]
  decide

end LiveTrade
