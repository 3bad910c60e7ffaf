/-
**Any number of order calls at once, and what a real order has passed.**

The open and close calls of the service run as tasks that share the world of `TradingCore`.  A
call that reaches `open_position` has been through the live guards, in whatever order the calls
are interleaved; the guards are there in live mode, and the canary router decides independently of
the mode whether the adapter is that of Ostium.

Main definitions:

* `Call`, `TradingCore.callSystem` — the calls as a system of tasks;
* `Call.passedGuards` — the call has been through the guards and not yet reached a venue.

Main results:

* `TradingCore.real_orders_guarded` — in live mode every real order that reaches the adapter has
  passed the kill switch, the caps and the list of symbols;
* `TradingCore.real_order_in_paper_mode` — in paper mode a real order reaches it with the kill
  switch off.
-/

import Brokerage.TaskPool
import Brokerage.TradingCore

set_option relaxedAutoImplicit false
set_option autoImplicit false

/-- An order call in progress. -/
inductive Call
  | openOrder (req : OrderOpenRequest) (pc : OpenPc)
  | closeOrder (req : OrderCloseRequest) (pc : ClosePc)
  deriving DecidableEq

/-- What starts an order call. -/
inductive OrderRequestBody
  | openOrder (req : OrderOpenRequest)
  | closeOrder (req : OrderCloseRequest)
  deriving DecidableEq

namespace TradingCore

variable (core : TradingCore)

/-- The call that a request starts. -/
def startCall : OrderRequestBody → Call
  | .openOrder req => .openOrder req .start
  | .closeOrder req => .closeOrder req .start

/-- One step of a call. -/
def callStep (w : World) : Call → Answer → Option (World × Call)
  | .openOrder req pc, a =>
      match core.openStep req w pc a with
      | none => none
      | some (w', pc') => some (w', .openOrder req pc')
  | .closeOrder req pc, a =>
      match core.closeStep req w pc a with
      | none => none
      | some (w', pc') => some (w', .closeOrder req pc')

/-- The order calls of one process: there are no restarts. -/
def callSystem : TaskSystem World Call OrderRequestBody Answer Empty where
  enter w r := some (w, startCall r)
  resume w c a := core.callStep w c a
  restart _ k := k.elim

variable {core}

/-- A step of a call is a step of the open or of the close it is. -/
theorem callStep_cases {w w' : World} {c c' : Call} {a : Answer}
    (h : core.callStep w c a = some (w', c')) :
    (∃ req pc pc', c = .openOrder req pc ∧ c' = .openOrder req pc' ∧
      OpenStep core req w pc a w' pc') ∨
    ∃ req pc pc', c = .closeOrder req pc ∧ c' = .closeOrder req pc' ∧
      core.closeStep req w pc a = some (w', pc') := by
  cases c with
  | openOrder req pc =>
      left
      simp only [callStep] at h
      split at h
      · cases h
      · rename_i w₁ pc₁ hstep
        cases h
        exact ⟨req, pc, pc₁, rfl, rfl, openStep_cases hstep⟩
  | closeOrder req pc =>
      right
      simp only [callStep] at h
      split at h
      · cases h
      · rename_i w₁ pc₁ hstep
        cases h
        exact ⟨req, pc, pc₁, rfl, rfl, hstep⟩

/-! ### Real orders -/

/-- The open has been through the live guards and has not yet reached the adapter. -/
def passedGuards : OpenPc → Bool
  | .listing _ _ => true
  | .listed _ _ _ => true
  | _ => false

/-- Every real order in the log had the live guards in its favour. -/
def RealOrdersGuarded (core : TradingCore) (w : World) : Prop :=
  ∀ adapter req, .openPosition adapter true req ∈ w.events → LiveGuardsHold core.cfg req

/-- A call that passed the guards had them in its favour. -/
def GuardsHold (core : TradingCore) : Call → Prop
  | .openOrder req pc => passedGuards pc = true → LiveGuardsHold core.cfg req
  | .closeOrder _ _ => True

theorem afterGate_passedGuards {req : OrderOpenRequest} {bad : Option String}
    (hlive : TradingConfig.isLive core.cfg.mode = true)
    (h : passedGuards (core.afterGate req bad) = true) : LiveGuardsHold core.cfg req := by
  unfold afterGate at h
  split at h
  · cases h
  · split at h
    · cases h
    · rename_i htarget
      exact liveGuards_eq_ok.1 (openTarget_eq_ok.1 htarget).1 hlive

/-- A step of an open that passed the guards, or will not pass any, adds only a guarded order. -/
theorem OpenStep.openPosition {req r : OrderOpenRequest} {w w' : World} {pc pc' : OpenPc}
    {a : Answer} {adapter : AdapterId} {real : Bool} (h : OpenStep core req w pc a w' pc')
    (hmem : .openPosition adapter real r ∈ w'.events) :
    .openPosition adapter real r ∈ w.events ∨ (passedGuards pc = true ∧ r = req) := by
  cases h with
  | guard venue ad positions =>
      rcases afterGuard_world req w venue ad positions with heq | heq <;> rw [heq] at hmem
      · exact Or.inl hmem
      · simp only [World.log_events, List.mem_append, List.mem_singleton,
          VenueEvent.openPosition.injEq] at hmem
        exact hmem.imp_right fun hr => ⟨rfl, hr.2.2⟩
  | paperOpen venue mid now timestamp uuid =>
      left
      simp only [World.paperOpen, World.log_events, List.mem_append] at hmem
      refine hmem.resolve_right ?_
      split <;> simp
  | ostiumOpen venue mid answer =>
      left
      cases answer <;> simpa [World.ostiumOpen] using hmem
  | save venue ad result => exact Or.inl (by simpa using hmem)
  | _ => exact Or.inl hmem

theorem OpenStep.passedGuards {req : OrderOpenRequest} {w w' : World} {pc pc' : OpenPc}
    {a : Answer} (hlive : TradingConfig.isLive core.cfg.mode = true)
    (h : OpenStep core req w pc a w' pc')
    (hpc : passedGuards pc = true → LiveGuardsHold core.cfg req)
    (hpc' : TradingCore.passedGuards pc' = true) : LiveGuardsHold core.cfg req := by
  cases h with
  | gate bad => exact afterGate_passedGuards hlive hpc'
  | listing g hg => exact hpc rfl
  | guard venue ad positions => exact hpc rfl
  | price venue ad mid =>
      unfold afterPrice at hpc'
      split at hpc' <;> first | cases hpc' | (split at hpc' <;> cases hpc')
  | _ => cases hpc'

/-- In live mode every real order that reaches the adapter had the live guards in its favour:
the kill switch was on, the collateral and the leverage were within their caps, and the symbol was
one of those that may be traded. -/
theorem real_orders_guarded (hlive : TradingConfig.isLive core.cfg.mode = true) {w₀ : World}
    (hlog : w₀.events = []) {ls : List (TaskLabel OrderRequestBody Answer Empty)}
    {p : TaskPool World Call} (h : Transition.exec core.callSystem.step ⟨w₀, []⟩ ls = some p)
    {adapter : AdapterId} {req : OrderOpenRequest}
    (hreal : .openPosition adapter true req ∈ p.shared.events) :
    core.cfg.enableLiveTrading = true ∧ core.cfg.WithinCaps req.collateral req.leverage ∧
      core.cfg.SymbolAllowed req.symbol := by
  have hinv : p.Inv core.RealOrdersGuarded (fun _ c => core.GuardsHold c) (fun _ _ => True) := by
    refine TaskSystem.exec_inv (P := fun _ _ => True) ⟨fun _ _ _ => trivial, ?_, ?_, ?_⟩
      (TaskPool.inv_of_nil fun a r hmem => ?_) (Transition.meets_of_forall (fun _ _ => trivial) _) h
    · rintro q r w c hq - henter
      cases henter
      refine ⟨hq.shared, ?_, fun u hu => ⟨hq.mem hu, trivial⟩⟩
      cases r with
      | openOrder r => intro hpc; cases hpc
      | closeOrder r => trivial
    · rintro q i a c w c' hq - hc hstep
      have hold := hq.task i c hc
      rcases callStep_cases hstep with ⟨r, pc, pc', rfl, rfl, hopen⟩ | ⟨r, pc, pc', rfl, rfl, hclose⟩
      · refine ⟨?_, hopen.passedGuards hlive hold, fun j u _ hu => ⟨hq.task j u hu, trivial⟩⟩
        intro a' r' hmem
        rcases hopen.openPosition hmem with hmem | ⟨hpassed, rfl⟩
        · exact hq.shared a' r' hmem
        · exact hold hpassed
      · refine ⟨?_, trivial, fun j u _ hu => ⟨hq.task j u hu, trivial⟩⟩
        intro a' r' hmem
        rcases closeStep_world hclose with rfl | ⟨id, mid, ts, rfl⟩ | ⟨pairId, tradeIndex, rfl⟩
        · exact hq.shared a' r' hmem
        · exact hq.shared a' r' hmem
        · exact hq.shared a' r' (by simpa using hmem)
    · rintro q k
      exact k.elim
    · rw [hlog] at hmem
      cases hmem
  exact hinv.shared adapter req hreal

/-- An order for Ostium that is above the default cap on the collateral. -/
def eurusdOrder (collateral : ℚ) (h : 0 < collateral) : OrderOpenRequest where
  venue := "ostium"
  symbol := "EURUSD"
  side := .long
  collateral := collateral
  leverage := 5
  collateral_pos := h
  one_le_leverage := by norm_num
  leverage_le := by norm_num

theorem hundred_pos : (0 : ℚ) < 100 := by norm_num

/-- An order at the paper venue. -/
def paperOrder (symbol : String) : OrderOpenRequest where
  venue := "paper"
  symbol := symbol
  side := .long
  collateral := 100
  leverage := 5
  collateral_pos := hundred_pos
  one_le_leverage := by norm_num
  leverage_le := by norm_num

/-- A service wired with both adapters. -/
def wired (cfg : TradingConfig) : TradingCore where
  cfg := cfg
  adapterFactory := some fun venue =>
    if venue = "ostium" then some .ostium else if venue = "paper" then some .paper else none

/-- The state after the start of the process, without open positions. -/
def freshWorld (client : ClientKind) : World where
  engine := PaperEngine.init 10000 5
  ostium := { client := some client }
  trades := Dict.empty

/-- The steps that bring an order to the adapter when nothing is open. -/
def toAdapter : List (TaskLabel OrderRequestBody Answer Empty) :=
  [.resume 0 (.gate none), .resume 0 (.listing (.ok [])), .resume 0 .resume]

/-- Settings under which orders for Ostium are real ones. -/
def canaryCfg (mode : String) (enableLiveTrading : Bool) : TradingConfig where
  mode := mode
  canaryMode := "ostium"
  enableLiveTrading := enableLiveTrading

/-- The run of one order up to the adapter. -/
def runToAdapter (cfg : TradingConfig) (req : OrderOpenRequest) : Option (TaskPool World Call) :=
  Transition.exec (wired cfg).callSystem.step ⟨freshWorld .ostiumClient, []⟩
    (.enter (.openOrder req) :: toAdapter)

/-- In live mode, with the kill switch on and both caps respected, an order reaches the real
adapter. -/
theorem real_orders_guarded_eurusd :
    (canaryCfg "live" true).enableLiveTrading = true ∧
      (canaryCfg "live" true).WithinCaps 50 5 ∧ (canaryCfg "live" true).SymbolAllowed "EURUSD" := by
  have hrun : (runToAdapter (canaryCfg "live" true) (eurusdOrder 50 (by norm_num))).map
      (fun p => p.shared.events) =
        some [.openPosition .ostium true (eurusdOrder 50 (by norm_num))] := by
    decide
  obtain ⟨p, hp, hevents⟩ := Option.map_eq_some_iff.1 hrun
  have hlive : TradingConfig.isLive (wired (canaryCfg "live" true)).cfg.mode = true := by
    decide
  exact real_orders_guarded hlive rfl hp (hevents ▸ List.mem_singleton_self _)

/-- In paper mode, with the canary at Ostium, an order above the cap reaches the real adapter
although the kill switch is off. -/
theorem real_order_in_paper_mode :
    (runToAdapter (canaryCfg "paper" false) (eurusdOrder 100 (by norm_num))).map
      (fun p => p.shared.events) =
        some [.openPosition .ostium true (eurusdOrder 100 (by norm_num))] ∧
      (canaryCfg "paper" false).enableLiveTrading = false ∧
      ¬ (canaryCfg "paper" false).WithinCaps 100 5 := by
  refine ⟨by decide, rfl, ?_⟩
  rintro ⟨hcollateral, -⟩
  norm_num [canaryCfg] at hcollateral

end TradingCore
