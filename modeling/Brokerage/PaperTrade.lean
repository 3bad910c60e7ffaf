/-
**A trade that is watched for its stop and its target, and is never closed.**

The driver of the paper trades asks for a price, opens a position with a stop and a target around
it, waits until the operation is confirmed, and looks at the price until the stop or the target is
touched or the position is old enough.  Before it closes the position it prints a line, and in that
line the condition on the price stands inside the format: neither a number nor the missing price can
be printed so, and the run ends there.

Main definitions:

* `PaperTrade.floatSpec` — the formats that a number can be printed with;
* `PaperTrade.driver` — the driver of the paper trades.

Main results:

* `PaperTrade.not_formats_closePriceSpec` — the line before the close can not be printed;
* `PaperTrade.never_closes` — no close is asked for, and no run returns that it is done.
-/

import Brokerage.LiveTrade

set_option relaxedAutoImplicit false
set_option autoImplicit false

namespace PaperTrade

open TradeHttp

/-! ### Stops and targets -/

/-- `compute_sl_tp`: the stop and the target. -/
def computeSlTp (entryPrice : ℚ) (isLong : Bool) (slPct tpPct : ℚ) : ℚ × ℚ :=
  if isLong then (entryPrice * (1 - slPct / 100), entryPrice * (1 + tpPct / 100))
  else (entryPrice * (1 + slPct / 100), entryPrice * (1 - tpPct / 100))

inductive Trigger
  | SL
  | TP
  deriving DecidableEq

/-- `check_sl_tp_triggered`. -/
def checkSlTpTriggered (currentPrice : ℚ) (isLong : Bool) (slPrice tpPrice : Option ℚ) :
    Option Trigger :=
  if slPrice.any fun sl => if isLong then currentPrice ≤ sl else sl ≤ currentPrice then some .SL
  else if tpPrice.any fun tp => if isLong then tp ≤ currentPrice else currentPrice ≤ tp then
    some .TP
  else none

/-! ### Formats -/

/-- One of these characters, if there is one. -/
def skipOne (chars : List Char) : List Char → List Char
  | [] => []
  | c :: rest => if c ∈ chars then rest else c :: rest

/-- The alignment, with the character that fills. -/
def skipAlign : List Char → List Char
  | fill :: align :: rest =>
      if align ∈ ['<', '>', '=', '^'] then rest
      else skipOne ['<', '>', '=', '^'] (fill :: align :: rest)
  | spec => skipOne ['<', '>', '=', '^'] spec

/-- The precision; nothing if its digits are missing. -/
def skipPrecision : List Char → Option (List Char)
  | '.' :: c :: rest => if c.isDigit then some (rest.dropWhile Char.isDigit) else none
  | ['.'] => none
  | spec => some spec

/-- The formats of a number: alignment, sign, zero, alternate form, zeros, width, separator,
precision, and at most one character for the presentation. -/
def floatSpec (spec : List Char) : Bool :=
  match skipPrecision (skipOne [',', '_'] ((skipOne ['0'] (skipOne ['#'] (skipOne ['z']
      (skipOne ['+', '-', ' '] (skipAlign spec))))).dropWhile Char.isDigit)) with
  | none => false
  | some [] => true
  | some [c] => c ∈ ['e', 'E', 'f', 'F', 'g', 'G', 'n', '%']
  | some (_ :: _ :: _) => false

/-- A number, or nothing, is printed with a format. -/
def formats (value : Option ℚ) (spec : String) : Bool :=
  match value with
  | none => spec = ""
  | some _ => floatSpec spec.toList

/-- What stands after the colon. -/
def closePriceSpec : String := ".5f if close_price else 'N/A'"

/-- The characters after the presentation are too many for a number, and nothing has no format. -/
theorem not_formats_closePriceSpec (closePrice : Option ℚ) :
    formats closePrice closePriceSpec = false := by
  cases closePrice with
  | none => decide
  | some price =>
      have hspec : floatSpec closePriceSpec.toList = false := by decide +kernel
      exact hspec

example : formats (some 1) ".5f" = true := by decide +kernel

/-! ### The driver -/

structure Config where
  side : String
  slPct : ℚ
  tpPct : ℚ
  ttlS : ℚ

inductive Outcome
  | failed
  | raised
  | closeFailed
  | ok
  deriving DecidableEq

/-- The exit code, if the run does not raise. -/
def Outcome.code : Outcome → Option ℕ
  | failed => some 1
  | raised => none
  | closeFailed => some 2
  | ok => some 0

/-- Where the driver is. -/
inductive Phase
  | pricing
  | opening (entryPrice : ℚ)
  | confirming (operationId : String) (entryPrice deadline : ℚ)
  | monitoring (positionId : Option String) (executedPrice openTs : ℚ) (closePrice : Option ℚ)
  | closing (positionId : Option String) (closePrice : Option ℚ)
  | done (outcome : Outcome)
  deriving DecidableEq

variable (cfg : Config)

def isLong : Bool := Text.lower cfg.side = "long" ∨ Text.lower cfg.side = "buy"

/-- The stop and the target around a price. -/
def slTp (price : ℚ) : ℚ × ℚ := computeSlTp price (isLong cfg) cfg.slPct cfg.tpPct

/-- `get_latest_price`: a price of zero is none. -/
def getLatestPrice (r : Response) : Option ℚ := (latestPrice r).filter fun price => price ≠ 0

/-- The price of the operation, or the one that was asked for before. -/
def executedPrice (body : Body) (entryPrice : ℚ) : ℚ :=
  match body.result with
  | .fields _ (some price) => if price ≠ 0 then price else entryPrice
  | _ => entryPrice

/-- `close_trade`. -/
def closeTrade (r : Response) : Bool :=
  match r with
  | none => false
  | some (status, _) => status = 200 ∨ status = 202

/-- The line before the close, and the close. -/
def close (positionId : Option String) (closePrice : Option ℚ) : Phase :=
  if formats closePrice closePriceSpec then .closing positionId closePrice else .done .raised

/-- The start of the monitor's loop. -/
def monitor (positionId : Option String) (executedPrice openTs : ℚ) (closePrice : Option ℚ)
    (now : ℚ) : Phase :=
  if cfg.ttlS ≤ now - openTs then close positionId closePrice
  else .monitoring positionId executedPrice openTs closePrice

/-- What is asked. -/
def ask : Phase → Option Request
  | .pricing => some .price
  | .opening entryPrice =>
      some (.openOrder (some (slTp cfg entryPrice).1) (some (slTp cfg entryPrice).2))
  | .confirming operationId _ _ => some (.operation operationId)
  | .monitoring _ _ _ _ => some .price
  | .closing positionId _ => some (.closeOrder positionId 1)
  | .done _ => none

/-- Where the driver goes from an answer. -/
def answer (phase : Phase) (a : Answer) : Phase :=
  match phase with
  | .pricing =>
      match getLatestPrice a.1 with
      | none => .done .failed
      | some entryPrice => .opening entryPrice
  | .opening entryPrice =>
      match openedOperation a.1 with
      | none => .done .failed
      | some operationId => .confirming operationId entryPrice (a.2 + 20)
  | .confirming operationId entryPrice deadline =>
      match seenOperation a.1 with
      | .error => .done .failed
      | .pending =>
          if a.2 < deadline then .confirming operationId entryPrice deadline else .done .failed
      | .confirmed body =>
          match positionOf body with
          | none => .done .raised
          | some positionId => monitor cfg positionId (executedPrice body entryPrice) a.2 none a.2
  | .monitoring positionId executedPrice openTs closePrice =>
      match getLatestPrice a.1 with
      | none => monitor cfg positionId executedPrice openTs closePrice a.2
      | some price =>
          match checkSlTpTriggered price (isLong cfg) (some (slTp cfg executedPrice).1)
              (some (slTp cfg executedPrice).2) with
          | some _ => close positionId (some price)
          | none => monitor cfg positionId executedPrice openTs (some price) a.2
  | .closing _ closePrice =>
      if closeTrade a.1 then
        -- the line of the result has the same format
        if formats closePrice closePriceSpec then .done .ok else .done .raised
      else .done .closeFailed
  | .done outcome => .done outcome

/-- The driver as a client of the service. -/
def driver : Client Phase Request Answer := ⟨ask cfg, answer cfg⟩

/-! ### What is never asked -/

/-- An operation was confirmed. -/
def Confirmed (log : List Exchange) : Prop :=
  ∃ e ∈ log, ∃ operationId body, e.1 = .operation operationId ∧
    seenOperation e.2.1 = .confirmed body

/-- The first exchange told the price that the stop and the target are around. -/
def Around (log : List Exchange) (slPrice tpPrice : Option ℚ) : Prop :=
  ∃ first rest price, log = first :: rest ∧ first.1 = .price ∧
    getLatestPrice first.2.1 = some price ∧
      slPrice = some (slTp cfg price).1 ∧ tpPrice = some (slTp cfg price).2

/-- What goes with a phase: before the operation is confirmed, and after it. -/
def Fits (log : List Exchange) : Phase → Prop
  | .pricing => log = []
  | .opening entryPrice =>
      Around cfg log (some (slTp cfg entryPrice).1) (some (slTp cfg entryPrice).2) ∧ ¬ Confirmed log
  | .confirming _ _ _ => ¬ Confirmed log
  | .monitoring _ _ _ _ => Confirmed log
  | .closing _ _ => False
  | .done .failed => ¬ Confirmed log
  | .done .raised => Confirmed log
  | .done .closeFailed => False
  | .done .ok => False

/-- What every exchange keeps. -/
structure Kept (log : List Exchange) (phase : Phase) : Prop where
  closes : closesOf log = []
  opens : ∀ e ∈ log, ∀ slPrice tpPrice, e.1 = .openOrder slPrice tpPrice →
    Around cfg log slPrice tpPrice
  fits : Fits cfg log phase

variable {cfg} {log : List Exchange}

theorem Around.append {slPrice tpPrice : Option ℚ} (h : Around cfg log slPrice tpPrice)
    (log' : List Exchange) : Around cfg (log ++ log') slPrice tpPrice := by
  obtain ⟨first, rest, price, rfl, hfirst, hprice, hsl, htp⟩ := h
  exact ⟨first, rest ++ log', price, rfl, hfirst, hprice, hsl, htp⟩

theorem confirmed_append {e : Exchange} :
    Confirmed (log ++ [e]) ↔ Confirmed log ∨ ∃ operationId body, e.1 = .operation operationId ∧
      seenOperation e.2.1 = .confirmed body := by
  simp only [Confirmed, List.mem_append, List.mem_singleton, or_and_right, exists_or,
    exists_eq_left]

/-- An exchange that confirms nothing. -/
theorem not_confirmed_append (h : ¬ Confirmed log) {e : Exchange}
    (he : ∀ operationId body, e.1 = .operation operationId →
      seenOperation e.2.1 ≠ .confirmed body) : ¬ Confirmed (log ++ [e]) := by
  intro hconfirmed
  rcases confirmed_append.1 hconfirmed with hbefore | ⟨operationId, body, hask, hseen⟩
  · exact h hbefore
  · exact he operationId body hask hseen

/-- The line can not be printed. -/
theorem close_eq (positionId : Option String) (closePrice : Option ℚ) :
    close positionId closePrice = .done .raised := by
  rw [close, not_formats_closePriceSpec, if_neg Bool.false_ne_true]

theorem fits_close (h : Confirmed log) (positionId : Option String) (closePrice : Option ℚ) :
    Fits cfg log (close positionId closePrice) := by
  rw [close_eq]
  exact h

theorem fits_monitor (h : Confirmed log) (positionId : Option String) (executedPrice openTs : ℚ)
    (closePrice : Option ℚ) (now : ℚ) :
    Fits cfg log (monitor cfg positionId executedPrice openTs closePrice now) := by
  rw [monitor]
  split
  · exact fits_close h positionId closePrice
  · exact h

/-- The phase after an exchange goes with the exchanges. -/
theorem fits_answer {phase : Phase} (h : Fits cfg log phase) {q : Request}
    (hask : ask cfg phase = some q) (r : Response) (now : ℚ) :
    Fits cfg (log ++ [(q, r, now)]) (answer cfg phase (r, now)) := by
  cases phase with
  | done outcome => cases hask
  | closing positionId closePrice => exact h.elim
  | pricing =>
      obtain rfl : log = [] := h
      obtain rfl := Option.some.inj hask
      have hnone : ¬ Confirmed [((.price : Request), r, now)] := by
        rintro ⟨e, he, operationId, body, heq, -⟩
        obtain rfl := List.mem_singleton.1 he
        cases heq
      simp only [answer]
      cases hprice : getLatestPrice r with
      | none => exact hnone
      | some entryPrice => exact ⟨⟨_, [], entryPrice, rfl, rfl, hprice, rfl, rfl⟩, hnone⟩
  | opening entryPrice =>
      obtain rfl := Option.some.inj hask
      have hnone := not_confirmed_append h.2 (e := (.openOrder (some (slTp cfg entryPrice).1)
        (some (slTp cfg entryPrice).2), r, now)) fun operationId body heq => by cases heq
      simp only [answer]
      cases openedOperation r with
      | none => exact hnone
      | some operationId => exact hnone
  | confirming operationId entryPrice deadline =>
      obtain rfl := Option.some.inj hask
      have hbefore : ¬ Confirmed log := h
      simp only [answer]
      cases hseen : seenOperation r with
      | error => exact not_confirmed_append hbefore fun _ _ _ heq => by cases hseen.symm.trans heq
      | pending =>
          have hnone : ¬ Confirmed (log ++ [(.operation operationId, r, now)]) :=
            not_confirmed_append hbefore fun _ _ _ heq => by cases hseen.symm.trans heq
          dsimp only
          split
          · exact hnone
          · exact hnone
      | confirmed body =>
          have hconfirmed : Confirmed (log ++ [(.operation operationId, r, now)]) :=
            confirmed_append.2 (.inr ⟨operationId, body, rfl, hseen⟩)
          dsimp only
          cases positionOf body with
          | none => exact hconfirmed
          | some positionId => exact fits_monitor hconfirmed _ _ _ _ _
  | monitoring positionId executedPrice openTs closePrice =>
      obtain rfl := Option.some.inj hask
      have hconfirmed : Confirmed (log ++ [(.price, r, now)]) := confirmed_append.2 (.inl h)
      simp only [answer]
      cases getLatestPrice r with
      | none => exact fits_monitor hconfirmed _ _ _ _ _
      | some price =>
          dsimp only
          split
          · exact fits_close hconfirmed _ _
          · exact fits_monitor hconfirmed _ _ _ _ _

/-- An exchange keeps all of it: no phase that goes with its exchanges asks for a close. -/
theorem kept_answer {phase : Phase} (h : Kept cfg log phase) {q : Request}
    (hask : ask cfg phase = some q) (a : Answer) :
    Kept cfg (log ++ [(q, a)]) (answer cfg phase a) := by
  have hfits := h.fits
  refine ⟨?_, fun e he slPrice tpPrice heq => ?_, fits_answer hfits hask a.1 a.2⟩
  · rw [closesOf_append, h.closes, List.nil_append, closesOf_singleton]
    cases phase with
    | closing positionId closePrice => exact hfits.elim
    | done outcome => cases hask
    | _ =>
        obtain rfl := Option.some.inj hask
        rfl
  · rcases List.mem_append.1 he with he | he
    · exact (h.opens e he slPrice tpPrice heq).append _
    · obtain rfl := List.mem_singleton.1 he
      obtain rfl : q = .openOrder slPrice tpPrice := heq
      cases phase with
      | opening entryPrice =>
          rw [ask, Option.some.injEq, Request.openOrder.injEq] at hask
          obtain ⟨rfl, rfl⟩ := hask
          exact hfits.1.append _
      | _ => cases hask

theorem kept_run (cfg : Config) (answers : List Answer) :
    Kept cfg ((driver cfg).dialogue .pricing answers).1
      ((driver cfg).dialogue .pricing answers).2 := by
  have hstep : ∀ (log : List Exchange) (phase : Phase) (q : Request) (a : Answer),
      Kept cfg log phase → (driver cfg).ask phase = some q →
        Kept cfg (log ++ [(q, a)]) ((driver cfg).answer phase a) :=
    fun log phase q a h hask => kept_answer h hask a
  have hnil : Kept cfg [] .pricing := ⟨rfl, fun e he => (by cases he), rfl⟩
  exact Client.dialogue_induction hstep hnil answers

/-- Whatever is answered: no close is asked for, an open carries the stop and the target around the
price that was told first, and a run that is over has raised if the operation was confirmed, and has
failed if not. -/
theorem never_closes (cfg : Config) (answers : List Answer) :
    closesOf ((driver cfg).dialogue .pricing answers).1 = [] ∧
      (∀ e ∈ ((driver cfg).dialogue .pricing answers).1, ∀ slPrice tpPrice,
        e.1 = .openOrder slPrice tpPrice →
          Around cfg ((driver cfg).dialogue .pricing answers).1 slPrice tpPrice) ∧
        ∀ outcome, ((driver cfg).dialogue .pricing answers).2 = .done outcome →
          (Confirmed ((driver cfg).dialogue .pricing answers).1 ∧ outcome.code = none) ∨
            (¬ Confirmed ((driver cfg).dialogue .pricing answers).1 ∧ outcome.code = some 1) := by
  obtain ⟨hcloses, hopens, hfits⟩ := kept_run cfg answers
  refine ⟨hcloses, hopens, fun outcome hdone => ?_⟩
  rw [hdone] at hfits
  cases outcome with
  | failed => exact .inr ⟨hfits, rfl⟩
  | raised => exact .inl ⟨hfits, rfl⟩
  | closeFailed => exact hfits.elim
  | ok => exact hfits.elim

end PaperTrade
