/-
**At most one open paper position per symbol.**

The single-position guard reads the open positions, and the adapter then waits for a price before
the engine opens.  Between the reading and the opening another call for the same symbol can read
the positions too, and then both open.  This module proves that nothing else can go wrong: in
every interleaving in which no guard reads the positions while another open of its symbol is
between its own reading and the opening, the symbols of the open positions stay distinct.

Main definitions:

* `normSymbol` — a symbol, as the guard compares it;
* `OnePerSymbol` — no two open positions of the engine have the same symbol;
* `Call.inFlight` — the open has passed the guard, or will, and has not been executed;
* `NoOverlappingGuard` — the condition on the steps.

Main results:

* `onePerSymbol_of_no_overlap` — one position per symbol, in every such interleaving;
* `overlapping_opens_duplicate` — two overlapping opens leave two positions of one symbol.
-/

import Brokerage.TradingCalls

set_option relaxedAutoImplicit false
set_option autoImplicit false

/-- A symbol, as the guard compares it (the letter case is that of ASCII). -/
def normSymbol (symbol : String) : String := Text.upper (Text.strip symbol)

/-- No two open positions of the engine agree in the key of their symbols. -/
def OnePerSymbol (key : String → String) (e : PaperEngine) : Prop :=
  ∀ id id' p p', e.positions.get? id = some p → e.positions.get? id' = some p' →
    key p.symbol = key p'.symbol → id = id'

/-- No open position of the engine has the symbol. -/
def NoneOf (symbol : String) (e : PaperEngine) : Prop :=
  ∀ id p, e.positions.get? id = some p → normSymbol p.symbol ≠ symbol

/-- The call is an open at the paper venue for the symbol, past the reading of the positions and
before the opening; if it is still to look through what it has read, the guard will let it pass. -/
def Call.inFlight (symbol : String) : Call → Bool
  | .openOrder req (.listed _ .paper positions) =>
      normSymbol req.symbol = symbol ∧ ∀ p ∈ positions, normSymbol p.symbol ≠ symbol
  | .openOrder req (.pricing _ .paper) => normSymbol req.symbol = symbol
  | .openOrder req (.trading _ .paper _) => normSymbol req.symbol = symbol
  | _ => false

/-- A guard at the paper venue reads the positions only while no other open of its symbol is in
flight. -/
def NoOverlappingGuard (p : TaskPool World Call) : TaskLabel OrderRequestBody Answer Empty → Prop
  | .resume i (.listing _) =>
      match p.tasks[i]? with
      | some (.openOrder req (.listing _ .paper)) =>
          ∀ c ∈ p.tasks, c.inFlight (normSymbol req.symbol) = false
      | _ => True
  | _ => True

instance (p : TaskPool World Call) (l : TaskLabel OrderRequestBody Answer Empty) :
    Decidable (NoOverlappingGuard p l) := by
  unfold NoOverlappingGuard
  split
  · split <;> infer_instance
  · infer_instance

/-! ### The engine -/

theorem OnePerSymbol.of_subset {key : String → String} {e e' : PaperEngine}
    (he : OnePerSymbol key e)
    (h : ∀ id p, e'.positions.get? id = some p → e.positions.get? id = some p) :
    OnePerSymbol key e' :=
  fun id id' p p' hp hp' => he id id' p p' (h id p hp) (h id' p' hp')

theorem NoneOf.of_subset {symbol : String} {e e' : PaperEngine} (he : NoneOf symbol e)
    (h : ∀ id p, e'.positions.get? id = some p → e.positions.get? id = some p) :
    NoneOf symbol e' :=
  fun id p hp => he id p (h id p hp)

/-- Opening a position of a symbol that no position has. -/
theorem OnePerSymbol.openPosition {key : String → String}
    (hkey : ∀ a b, key a = key b → normSymbol a = normSymbol b) {e : PaperEngine}
    (he : OnePerSymbol key e) {request : OrderRequest} (hnone : NoneOf (normSymbol request.symbol) e)
    (clientOrderId : String) (currentPrice timestamp : ℚ) (uuid : String) :
    OnePerSymbol key (e.openPosition request clientOrderId currentPrice timestamp uuid).2 := by
  intro id id' p p' hp hp' hsame
  rcases PaperEngine.get?_openPosition hp with hold | ⟨rfl, hnew⟩ <;>
    rcases PaperEngine.get?_openPosition hp' with hold' | ⟨rfl, hnew'⟩
  · exact he id id' p p' hold hold' hsame
  · exact absurd (hnew' ▸ hkey _ _ hsame) (hnone id p hold)
  · exact absurd (hnew ▸ (hkey _ _ hsame).symm) (hnone id' p' hold')
  · rfl

/-! ### The steps -/

variable {core : TradingCore}

/-- The symbol of an open in flight has no open position. -/
def InFlightClear (w : World) (c : Call) : Prop :=
  ∀ symbol, c.inFlight symbol = true → NoneOf symbol w.engine

/-- Two calls are not in flight for the same symbol. -/
def NotBothInFlight (c d : Call) : Prop :=
  ∀ symbol, ¬ (c.inFlight symbol = true ∧ d.inFlight symbol = true)

theorem afterGate_inFlight (req : OrderOpenRequest) (bad : Option String) (symbol : String) :
    (Call.openOrder req (core.afterGate req bad)).inFlight symbol = false := by
  unfold TradingCore.afterGate
  split
  · rfl
  · split <;> rfl

theorem afterPrice_inFlight {req : OrderOpenRequest} {venue : String} {adapter : AdapterId}
    {mid : Except String ℚ} {symbol : String}
    (h : (Call.openOrder req (TradingCore.afterPrice req venue adapter mid)).inFlight symbol = true) :
    (Call.openOrder req (.pricing venue adapter)).inFlight symbol = true := by
  unfold TradingCore.afterPrice at h
  split at h
  · cases h
  · split at h
    · cases h
    · exact h
  · cases h
  · split at h <;> cases h

/-- Past the guard an open is in flight only if the guard let it pass. -/
theorem afterGuard_inFlight {req : OrderOpenRequest} {w : World} {venue : String}
    {adapter : AdapterId} {positions : List Position} {symbol : String}
    (h : (Call.openOrder req
      (TradingCore.afterGuard req w venue adapter positions).2).inFlight symbol = true) :
    (Call.openOrder req (.listed venue adapter positions)).inFlight symbol = true := by
  unfold TradingCore.afterGuard at h
  split at h
  · cases h
  · rename_i hguard
    dsimp only at h
    split at h
    · cases h
    · cases h
    · cases adapter with
      | ostium => cases h
      | paper =>
          simp only [Call.inFlight, decide_eq_true_eq] at h ⊢
          subst h
          exact ⟨rfl, fun p hp => assertNoOpenPositionForSymbol_eq_ok.1 hguard p hp⟩

theorem afterGuard_engine (req : OrderOpenRequest) (w : World) (venue : String)
    (adapter : AdapterId) (positions : List Position) :
    (TradingCore.afterGuard req w venue adapter positions).1.engine = w.engine := by
  rcases TradingCore.afterGuard_world req w venue adapter positions with heq | heq <;> rw [heq]
  exact World.log_engine ..

/-- A step of an open leaves the engine alone and the call in flight only if it was, or reads the
positions, or opens. -/
theorem openStep_inFlight {req : OrderOpenRequest} {w w' : World} {pc pc' : OpenPc} {a : Answer}
    (h : TradingCore.OpenStep core req w pc a w' pc') :
    (w'.engine = w.engine ∧ ∀ symbol, (Call.openOrder req pc').inFlight symbol = true →
      (Call.openOrder req pc).inFlight symbol = true) ∨
    (∃ venue g, pc = .listing venue .paper ∧ a = .listing g ∧ w' = w ∧
      pc' = .listed venue .paper w.engine.positions.values) ∨
    ∃ venue mid now timestamp uuid, pc = .trading venue .paper mid ∧
      w' = (w.paperOpen req mid now timestamp uuid).2 ∧
      ∀ symbol, (Call.openOrder req pc').inFlight symbol = false := by
  cases h with
  | gate bad =>
      refine Or.inl ⟨rfl, fun symbol hs => ?_⟩
      rw [afterGate_inFlight] at hs
      cases hs
  | listingFails g hg => exact Or.inl ⟨rfl, fun symbol hs => by cases hs⟩
  | @listing venue adapter positions g hg =>
      cases adapter with
      | paper =>
          cases hg
          exact Or.inr (Or.inl ⟨venue, g, rfl, rfl, rfl, rfl⟩)
      | ostium => exact Or.inl ⟨rfl, fun symbol hs => by cases hs⟩
  | guard venue adapter positions =>
      exact Or.inl ⟨afterGuard_engine .., fun symbol hs => afterGuard_inFlight hs⟩
  | price venue adapter mid => exact Or.inl ⟨rfl, fun symbol hs => afterPrice_inFlight hs⟩
  | paperOpen venue mid now timestamp uuid =>
      exact Or.inr (Or.inr ⟨venue, mid, now, timestamp, uuid, rfl, rfl, fun _ => rfl⟩)
  | ostiumOpen venue mid answer =>
      exact Or.inl ⟨World.ostiumOpen_engine .., fun symbol hs => by cases hs⟩
  | save venue adapter result =>
      exact Or.inl ⟨World.saveIdempotent_engine .., fun symbol hs => by cases hs⟩
  | reconciled result g => exact Or.inl ⟨rfl, fun symbol hs => by cases hs⟩

/-- A close takes positions away, if it does anything to the engine. -/
theorem closeStep_subset {req : OrderCloseRequest} {w w' : World} {pc pc' : ClosePc} {a : Answer}
    (h : core.closeStep req w pc a = some (w', pc')) (id : String) (p : Position)
    (hp : w'.engine.positions.get? id = some p) : w.engine.positions.get? id = some p := by
  rcases TradingCore.closeStep_world h with rfl | ⟨id', mid, ts, rfl⟩ | ⟨pairId, tradeIndex, rfl⟩
  · exact hp
  · exact PaperEngine.get?_closePosition hp
  · rwa [World.closeTrade_engine] at hp

/-! ### Runs -/

/-- The invariant: distinct symbols, none open for a symbol in flight, no symbol in flight twice. -/
abbrev GuardInv (key : String → String) : TaskPool World Call → Prop :=
  TaskPool.Inv (fun w => OnePerSymbol key w.engine) InFlightClear NotBothInFlight

variable {key : String → String} {q : TaskPool World Call} {i : ℕ}

/-- What a step has to keep of the invariant, when call `i` turns into `c` and the world into `w`. -/
def Keeps (key : String → String) (q : TaskPool World Call) (i : ℕ) (w : World) (c : Call) : Prop :=
  OnePerSymbol key w.engine ∧ InFlightClear w c ∧
    ∀ (j : ℕ) (u : Call), j ≠ i → q.tasks[j]? = some u → InFlightClear w u ∧ NotBothInFlight c u

/-- A step that takes positions away and keeps the call out of flight, or as it was. -/
theorem keeps_of_subset (hq : GuardInv key q) {c c' : Call} (hc : q.tasks[i]? = some c) {w : World}
    (hsub : ∀ id p, w.engine.positions.get? id = some p →
      q.shared.engine.positions.get? id = some p)
    (hflight : ∀ symbol, c'.inFlight symbol = true → c.inFlight symbol = true) :
    Keeps key q i w c' := by
  refine ⟨hq.shared.of_subset hsub, fun symbol hs => ?_, fun j u hj hu =>
    ⟨fun symbol hs => (hq.task j u hu symbol hs).of_subset hsub, fun symbol hs => ?_⟩⟩
  · exact (hq.task i c hc symbol (hflight symbol hs)).of_subset hsub
  · exact hq.pair i j c u (Ne.symm hj) hc hu symbol ⟨hflight symbol hs.1, hs.2⟩

/-- The guard reads the positions: the condition says that nobody else is in flight. -/
theorem keeps_listing (hq : GuardInv key q) {req : OrderOpenRequest} {venue : String}
    (hclear : ∀ c ∈ q.tasks, c.inFlight (normSymbol req.symbol) = false) :
    Keeps key q i q.shared
      (.openOrder req (.listed venue .paper q.shared.engine.positions.values)) := by
  have hlisted : ∀ symbol, (Call.openOrder req
      (.listed venue .paper q.shared.engine.positions.values)).inFlight symbol = true →
      normSymbol req.symbol = symbol ∧
        ∀ p ∈ q.shared.engine.positions.values, normSymbol p.symbol ≠ symbol := by
    intro symbol hs
    simpa [Call.inFlight] using hs
  refine ⟨hq.shared, fun symbol hs => ?_, fun j u hj hu => ⟨hq.task j u hu, fun symbol hs => ?_⟩⟩
  · exact fun id p hp => (hlisted symbol hs).2 p (Dict.mem_values_iff.2 ⟨id, hp⟩)
  · have hu' := hclear u (List.mem_iff_getElem?.2 ⟨j, hu⟩)
    rw [(hlisted symbol hs.1).1, hs.2] at hu'
    cases hu'

/-- The engine opens: only this call was in flight for its symbol. -/
theorem keeps_paperOpen (hkey : ∀ a b, key a = key b → normSymbol a = normSymbol b)
    (hq : GuardInv key q) {req : OrderOpenRequest} {venue : String} {mid : ℚ}
    (hc : q.tasks[i]? = some (.openOrder req (.trading venue .paper mid))) {pc' : OpenPc}
    (hdone : ∀ symbol, (Call.openOrder req pc').inFlight symbol = false) (now : String)
    (timestamp : ℚ) (uuid : String) :
    Keeps key q i (q.shared.paperOpen req mid now timestamp uuid).2 (.openOrder req pc') := by
  have hmine : (Call.openOrder req (.trading venue .paper mid)).inFlight
      (normSymbol req.symbol) = true := by
    simp [Call.inFlight]
  have hnone : NoneOf (normSymbol req.symbol) q.shared.engine := hq.task i _ hc _ hmine
  refine ⟨?_, fun symbol hs => ?_, fun j u hj hu => ⟨fun symbol hs => ?_, fun symbol hs => ?_⟩⟩
  · rw [World.paperOpen_engine]
    refine OnePerSymbol.openPosition hkey hq.shared ?_ _ _ _ _
    exact hnone
  · rw [hdone] at hs
    cases hs
  · intro id p hp
    rw [World.paperOpen_engine] at hp
    rcases PaperEngine.get?_openPosition hp with hp | ⟨-, hnew⟩
    · exact hq.task j u hu symbol hs id p hp
    · have hsymbol : p.symbol = req.symbol := hnew
      rw [hsymbol]
      rintro rfl
      exact hq.pair i j _ u (Ne.symm hj) hc hu _ ⟨hmine, hs⟩
  · rw [hdone] at hs
    cases hs.1

/-- In every interleaving of opens and closes in which no guard reads the positions while another
open of its symbol is in flight, the open paper positions have distinct symbols, if they had at
the start.  Symbols may be told apart by any key that tells apart what the guard does. -/
theorem onePerSymbol_of_no_overlap (hkey : ∀ a b, key a = key b → normSymbol a = normSymbol b)
    {w₀ : World} (hstart : OnePerSymbol key w₀.engine)
    {ls : List (TaskLabel OrderRequestBody Answer Empty)}
    (hguards : Transition.Meets core.callSystem.step NoOverlappingGuard ⟨w₀, []⟩ ls)
    {p : TaskPool World Call} (h : Transition.exec core.callSystem.step ⟨w₀, []⟩ ls = some p) :
    OnePerSymbol key p.shared.engine := by
  have hinv : GuardInv key p := by
    refine TaskSystem.exec_inv ⟨fun c d hcd symbol hboth => hcd symbol hboth.symm, ?_, ?_, ?_⟩
      (TaskPool.inv_of_nil hstart) hguards h
    · rintro q r w c hq - henter
      cases henter
      -- a call that enters has not listed the positions yet
      have hnot : ∀ symbol, (TradingCore.startCall r).inFlight symbol = false := by
        cases r <;> exact fun _ => rfl
      refine ⟨hq.shared, fun symbol hs => ?_, fun u hu => ⟨hq.mem hu, fun symbol hs => ?_⟩⟩
      · rw [hnot] at hs
        cases hs
      · rw [hnot] at hs
        cases hs.1
    · rintro q i a c w c' hq hP hc hstep
      rcases TradingCore.callStep_cases hstep with
        ⟨req, pc, pc', rfl, rfl, hopen⟩ | ⟨req, pc, pc', rfl, rfl, hclose⟩
      · -- a step leaves the engine alone, lists the positions, or opens one
        rcases openStep_inFlight hopen with
          ⟨hengine, hflight⟩ | ⟨venue, g, rfl, rfl, rfl, rfl⟩ |
          ⟨venue, mid, now, timestamp, uuid, rfl, rfl, hdone⟩
        · exact keeps_of_subset hq hc (by rw [hengine]; exact fun _ _ hp => hp) hflight
        · simp only [NoOverlappingGuard, hc] at hP
          exact keeps_listing hq hP
        · exact keeps_paperOpen hkey hq hc hdone now timestamp uuid
      · exact keeps_of_subset hq hc (closeStep_subset hclose) fun symbol hs => by cases hs
    · rintro q k
      exact k.elim
  exact hinv.shared

/-! ### Two opens of one symbol -/

/-- The steps of an open up to the price, and those from the price on. -/
def guardSteps (i : ℕ) : List (TaskLabel OrderRequestBody Answer Empty) :=
  [.resume i (.gate none), .resume i (.listing (.ok [])), .resume i .resume]

def executionSteps (i : ℕ) (uuid : String) : List (TaskLabel OrderRequestBody Answer Empty) :=
  [.resume i (.price (.ok 2)), .resume i (.engineOpen "" 0 uuid), .resume i .resume]

/-- Two opens of one symbol are started. -/
def twoOpens : List (TaskLabel OrderRequestBody Answer Empty) :=
  [.enter (.openOrder (TradingCore.paperOrder "EURUSD")), .enter (.openOrder (TradingCore.paperOrder "EURUSD"))]

/-- One after the other: the guard turns the second one away. -/
def sequentialOpens : List (TaskLabel OrderRequestBody Answer Empty) :=
  twoOpens ++ (guardSteps 0 ++ executionSteps 0 "a") ++ guardSteps 1

/-- Both read the positions before the first one opens. -/
def overlappingOpens : List (TaskLabel OrderRequestBody Answer Empty) :=
  twoOpens ++ (guardSteps 0 ++ guardSteps 1) ++ (executionSteps 0 "a" ++ executionSteps 1 "b")

theorem onePerSymbol_init (key : String → String) (balance slippageBps : ℚ) :
    OnePerSymbol key (PaperEngine.init balance slippageBps) := by
  intro id id' p p' hp
  simp [PaperEngine.init] at hp

/-- The run of some calls from a fresh world. -/
def runCalls (ls : List (TaskLabel OrderRequestBody Answer Empty)) :
    Option (TaskPool World Call) :=
  Transition.exec (TradingCore.wired {}).callSystem.step
    ⟨TradingCore.freshWorld .fakeOstiumClient, []⟩ ls

/-- Two opens of one symbol, one after the other, leave one position. -/
theorem onePerSymbol_of_no_overlap_sequential :
    ∃ p, runCalls sequentialOpens = some p ∧ OnePerSymbol normSymbol p.shared.engine := by
  have hrun : (runCalls sequentialOpens).isSome = true := by decide
  obtain ⟨p, hp⟩ := Option.isSome_iff_exists.1 hrun
  exact ⟨p, hp, onePerSymbol_of_no_overlap (fun _ _ h => h) (onePerSymbol_init _ 10000 5)
    (by decide) hp⟩

/-- Two overlapping opens of one symbol leave two positions of it. -/
theorem overlapping_opens_duplicate :
    OnePerSymbol id (TradingCore.freshWorld .fakeOstiumClient).engine ∧
      ∃ p, runCalls overlappingOpens = some p ∧ ¬ OnePerSymbol id p.shared.engine := by
  refine ⟨onePerSymbol_init _ 10000 5, ?_⟩
  have hrun : (runCalls overlappingOpens).map (fun p =>
      ((p.shared.engine.positions.get? "paper_a").map Position.symbol,
        (p.shared.engine.positions.get? "paper_b").map Position.symbol)) =
      some (some "EURUSD", some "EURUSD") := by
    decide +kernel
  obtain ⟨p, hp, hsymbols⟩ := Option.map_eq_some_iff.1 hrun
  refine ⟨p, hp, fun hone => ?_⟩
  obtain ⟨ha, hb⟩ := Prod.mk.inj hsymbols
  obtain ⟨q, hq, hqs⟩ := Option.map_eq_some_iff.1 ha
  obtain ⟨r, hr, hrs⟩ := Option.map_eq_some_iff.1 hb
  exact absurd (hone _ _ q r hq hr (hqs.trans hrs.symm)) (by decide)
