/-
**A listing that fails.**

The guard of an open and the reconciliation read the same list of open positions, and both rely on
an exception when the client cannot list them: the guard has to turn the order away, the
reconciliation must not mark what it could not see.  The adapter raises only with a client for
tests; with the real client the exception is read as an empty list, and without a client there is
nothing to list from.

Main definitions:

* `TradingCore.runOpen` — the runs of a single open;
* `OpenRaises`, `NoStale` — an open whose listing fails raises before the venue is asked, and a
  tick whose listing fails marks nothing.

Main results:

* `openRaises_iff`, `noStale_iff` — for which adapters the two hold;
* `listing_failure_iff` — both hold exactly with a client for tests;
* `failed_listing_opens_and_marks` — with the real client a second trade is opened and a healthy
  position is marked stale.
-/

import Brokerage.Reconcile
import Brokerage.TradingCalls

set_option relaxedAutoImplicit false
set_option autoImplicit false

namespace TradingCore

variable (core : TradingCore)

/-- The runs of a single open, from its start. -/
def runOpen (req : OrderOpenRequest) (w : World) (answers : List Answer) :
    Option (World × OpenPc) :=
  Transition.exec (fun s a => core.openStep req s.1 s.2 a) (w, .start) answers

end TradingCore

/-- The answer is not a list of trades. -/
def Answer.listingFails : Answer → Prop
  | .listing (.ok _) => False
  | _ => True

/-- Every open on the adapter whose listings fail raises, and never asks the client to open. -/
def OpenRaises (a : OstiumAdapter) : Prop :=
  ∀ (core : TradingCore) (req : OrderOpenRequest) (w : World), w.ostium = a → w.events = [] →
    (∀ venue adapter, core.openTarget req = .ok (venue, adapter) → adapter = .ostium) →
    ∀ answers, (∀ x ∈ answers, x.listingFails) →
      ∀ w' pc, core.runOpen req w answers = some (w', pc) →
        (∀ r, .openTrade r ∉ w'.events) ∧ ∀ r, pc ≠ .done (.ok r)

/-- A tick whose listing fails marks no position stale. -/
def NoStale (a : OstiumAdapter) : Prop :=
  ∀ text localPositions venueName,
    ∀ act ∈ reconcileTick (a.getOpenPositions (.error text)) localPositions venueName,
      ∀ id, ¬ act.MarksStale id

variable {a : OstiumAdapter}

/-! ### The open -/

/-- Where an open on an adapter other than the real one can be when its listings fail. -/
def FailedListingPc (a : OstiumAdapter) : OpenPc → Prop
  | .start => True
  | .listing _ adapter => adapter = .ostium
  | .listed _ adapter _ => adapter = .ostium ∧ a.client = none
  | .done (.error _) => True
  | _ => False

/-- Without a client the adapter raises before it does anything. -/
theorem afterGuard_of_no_client {w : World} (h : w.ostium.client = none) (req : OrderOpenRequest)
    (venue : String) (positions : List Position) :
    ∃ e, (TradingCore.afterGuard req w venue .ostium positions).2 = .done (.error e) := by
  unfold TradingCore.afterGuard
  split
  · exact ⟨_, rfl⟩
  · dsimp only [World.openPositionStart]
    rw [h]
    exact ⟨_, rfl⟩

theorem failedListing_step {core : TradingCore} {req : OrderOpenRequest} {w w' : World}
    {pc pc' : OpenPc} {x : Answer} (hclient : a.client ≠ some .ostiumClient)
    (htarget : ∀ venue adapter, core.openTarget req = .ok (venue, adapter) → adapter = .ostium)
    (hx : x.listingFails) (h : TradingCore.OpenStep core req w pc x w' pc') (hw : w.ostium = a)
    (hevents : ∀ r, .openTrade r ∉ w.events) (hpc : FailedListingPc a pc) :
    w'.ostium = a ∧ (∀ r, .openTrade r ∉ w'.events) ∧ FailedListingPc a pc' := by
  cases h with
  | gate bad =>
      refine ⟨hw, hevents, ?_⟩
      unfold TradingCore.afterGate
      split
      · trivial
      · split
        · trivial
        · exact htarget _ _ ‹_›
  | listingFails g hg => exact ⟨hw, hevents, trivial⟩
  | listing g hg =>
      obtain rfl : _ = AdapterId.ostium := hpc
      cases g with
      | ok trades => exact hx.elim
      | error text =>
          refine ⟨hw, hevents, rfl, ?_⟩
          simp only [World.getOpenPositions, hw, OstiumAdapter.getOpenPositions_of_error] at hg
          split at hg
          · cases hg
          · rename_i hfake
            rcases hkind : a.client with _ | _ | _
            · rfl
            · exact absurd hkind hclient
            · exact absurd hkind hfake
  | guard venue adapter positions =>
      obtain ⟨rfl, hnone⟩ := hpc
      obtain ⟨e, he⟩ := afterGuard_of_no_client (hw ▸ hnone) req venue positions
      rcases TradingCore.afterGuard_world req w venue .ostium positions with heq | heq <;>
        rw [heq, he]
      · exact ⟨hw, hevents, trivial⟩
      · refine ⟨hw, fun r hmem => hevents r ?_, trivial⟩
        simpa using hmem
  | price => exact hpc.elim
  | paperOpen => exact hpc.elim
  | ostiumOpen => exact hpc.elim
  | save => exact hpc.elim
  | reconciled => exact hpc.elim

/-- What holds all along an open whose listings fail. -/
def FailedListing (a : OstiumAdapter) (s : World × OpenPc) : Prop :=
  s.1.ostium = a ∧ (∀ r, .openTrade r ∉ s.1.events) ∧ FailedListingPc a s.2

/-- An open whose listings fail is turned away by every adapter but the real one. -/
theorem openRaises_of_not_real (h : a.client ≠ some .ostiumClient) : OpenRaises a := by
  intro core req w hw hevents htarget answers hanswers w' pc hrun
  have hinit : FailedListing a (w, .start) := by
    refine ⟨hw, fun r hmem => ?_, trivial⟩
    rw [hevents] at hmem
    cases hmem
  have hinv : FailedListing a (w', pc) := by
    refine Transition.exec_invariant_of_meets ?_ hinit (Transition.meets_of_forall hanswers _) hrun
    rintro ⟨w₁, pc₁⟩ x ⟨w₂, pc₂⟩ ⟨hw₁, hevents₁, hpc₁⟩ hx hstep
    exact failedListing_step h htarget hx (TradingCore.openStep_cases hstep) hw₁ hevents₁ hpc₁
  refine ⟨hinv.2.1, ?_⟩
  rintro r rfl
  exact hinv.2.2

/-- The answers of an open whose listing fails and which goes on to the venue all the same. -/
def openDespiteFailure (openTrade : OpenTradeAnswer) : List Answer :=
  [.gate none, .listing (.error "rpc timeout"), .resume, .price (.ok 2), .openTrade openTrade]

/-- A world in which the Ostium adapter has a given state, and its client some open trades. -/
def worldOf (a : OstiumAdapter) (trades : Dict (ℕ × ℕ) OpenTradeInfo) : World where
  engine := PaperEngine.init 10000 5
  ostium := a
  trades := trades

/-- The order for `EURUSD` reaches the Ostium adapter. -/
theorem openTarget_eurusd : (TradingCore.wired (TradingCore.canaryCfg "paper" false)).openTarget
    (TradingCore.eurusdOrder 100 (by norm_num)) = .ok ("ostium", .ostium) := by
  decide

/-- With the real client an open whose listing fails asks the venue to open. -/
theorem openTrade_of_real (h : a.client = some .ostiumClient) (openTrade : OpenTradeAnswer)
    (trades : Dict (ℕ × ℕ) OpenTradeInfo) :
    ∃ w' pc, (TradingCore.wired (TradingCore.canaryCfg "paper" false)).runOpen
        (TradingCore.eurusdOrder 100 (by norm_num)) (worldOf a trades)
        (openDespiteFailure openTrade) = some (w', pc) ∧
      .openTrade (TradingCore.eurusdOrder 100 (by norm_num)) ∈ w'.events := by
  generalize hreq : TradingCore.eurusdOrder 100 (by norm_num) = req
  generalize hcore : TradingCore.wired (TradingCore.canaryCfg "paper" false) = core
  have htarget : core.openTarget req = .ok ("ostium", .ostium) := by
    rw [← hcore, ← hreq, openTarget_eurusd]
  have hstart : (worldOf a trades).openPositionStart .ostium req = .ok none := by
    have hpair : OstiumAdapter.pairOf "EURUSD" = some 2 := by decide
    rw [← hreq]
    simp [World.openPositionStart, worldOf, h, OstiumAdapter.idempotent, TradingCore.eurusdOrder,
      hpair]
  have hreader : core.hasReader = false := by rw [← hcore]; rfl
  have hgate : core.openStep req (worldOf a trades) .start (.gate none) =
      some (worldOf a trades, .listing "ostium" .ostium) := by
    simp only [TradingCore.openStep, TradingCore.afterGate, hreader, Bool.false_eq_true, if_false,
      htarget]
  have hlisting : core.openStep req (worldOf a trades) (.listing "ostium" .ostium)
      (.listing (.error "rpc timeout")) = some (worldOf a trades, .listed "ostium" .ostium []) := by
    simp only [TradingCore.openStep, World.getOpenPositions, worldOf,
      OstiumAdapter.getOpenPositions_of_error, h, Option.some.injEq, reduceCtorEq, if_false]
  have hguard : core.openStep req (worldOf a trades) (.listed "ostium" .ostium []) .resume =
      some ((worldOf a trades).log [.openPosition .ostium ((worldOf a trades).isReal .ostium) req],
        .pricing "ostium" .ostium) := by
    simp only [TradingCore.openStep, TradingCore.afterGuard, assertNoOpenPositionForSymbol,
      List.find?_nil, hstart]
  have hprice : ∀ w, core.openStep req w (.pricing "ostium" .ostium) (.price (.ok 2)) =
      some (w, .trading "ostium" .ostium 2) := by
    intro w
    simp [TradingCore.openStep, TradingCore.afterPrice]
  have hrun : ∀ w, w = (worldOf a trades).log
      [.openPosition .ostium ((worldOf a trades).isReal .ostium) req] →
      core.runOpen req (worldOf a trades) (openDespiteFailure openTrade) =
        some ((w.ostiumOpen req 2 openTrade).2,
          .traded "ostium" .ostium (w.ostiumOpen req 2 openTrade).1) := by
    rintro w rfl
    rw [TradingCore.runOpen, openDespiteFailure, Transition.exec_cons_of_eq hgate,
      Transition.exec_cons_of_eq hlisting, Transition.exec_cons_of_eq hguard,
      Transition.exec_cons_of_eq (hprice _)]
    rfl
  refine ⟨_, _, hrun _ rfl, ?_⟩
  cases openTrade <;> simp [World.ostiumOpen]

theorem openRaises_iff : OpenRaises a ↔ a.client ≠ some .ostiumClient := by
  constructor
  · intro hraises hreal
    obtain ⟨w', pc, hrun, hmem⟩ := openTrade_of_real hreal (.fails "") Dict.empty
    refine (hraises _ _ (worldOf a Dict.empty) rfl rfl ?_ _ ?_ w' pc hrun).1 _ hmem
    · intro venue adapter htarget
      rw [openTarget_eurusd] at htarget
      cases htarget
      rfl
    · simp [openDespiteFailure, Answer.listingFails]
  · exact openRaises_of_not_real

/-! ### The reconciliation -/

/-- A tick whose listing fails marks nothing with a client for tests only. -/
theorem noStale_iff : NoStale a ↔ a.client = some .fakeOstiumClient := by
  constructor
  · intro hstale
    by_contra hfake
    have hnil : a.getOpenPositions (.error "") = .ok [] := by
      rw [OstiumAdapter.getOpenPositions_of_error, if_neg hfake]
    let p : Position := OstiumAdapter.positionOf ⟨2, 0, 1, 0, 0, 100, 5, true⟩
    obtain ⟨act, hact, hmarks⟩ := reconcileTick_of_nil (List.mem_singleton_self p) none
    exact hstale "" [p] none act (hnil ▸ hact) _ hmarks
  · intro hfake text localPositions venueName act hact
    rw [OstiumAdapter.getOpenPositions_of_error, if_pos hfake, reconcileTick_of_error] at hact
    cases hact

/-- A failed listing is harmless, for the open and for the reconciliation, exactly when the client
of the adapter is the one for tests. -/
theorem listing_failure_iff (a : OstiumAdapter) :
    (OpenRaises a ∧ NoStale a) ↔ a.client = some .fakeOstiumClient := by
  rw [openRaises_iff, noStale_iff, and_iff_right_iff_imp]
  intro hfake hreal
  rw [hfake] at hreal
  cases hreal

/-- With the real client and a trade for `EURUSD` open, a failed listing lets a second trade for
it be opened, and marks the first one stale. -/
theorem failed_listing_opens_and_marks :
    ((TradingCore.wired (TradingCore.canaryCfg "paper" false)).runOpen
        (TradingCore.eurusdOrder 100 (by norm_num))
        (worldOf { client := some .ostiumClient }
          (Dict.empty.set (2, 0) ⟨2, 0, 1, 0, 0, 100, 5, true⟩))
        (openDespiteFailure (.opened (2, 1) ⟨"0xabc", 2, 1, 2⟩))).map (fun s => s.1.trades.keys) =
      some [(2, 0), (2, 1)] ∧
    reconcileTick (OstiumAdapter.getOpenPositions { client := some .ostiumClient }
        (.error "rpc timeout")) [OstiumAdapter.positionOf ⟨2, 0, 1, 0, 0, 100, 5, true⟩] none =
      [.markStalePosition "ostium:2:0" "extra_locally" []] ∧
    ¬ OpenRaises { client := some .ostiumClient } ∧ ¬ NoStale { client := some .ostiumClient } := by
  refine ⟨by decide, by decide, ?_, ?_⟩
  · rw [openRaises_iff]
    exact fun h => h rfl
  · rw [noStale_iff]
    intro h
    cases h
