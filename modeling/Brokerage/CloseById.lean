/-
**Closing a position by the identifier the client knows.**

An open returns an identifier made for the venue the order was routed to; a close looks for the
adapter of the venue the client names.  This module says which position a close addresses: the one
that the adapter of the named venue reads off the identifier, and no other.  It follows that an
opened position can be closed with what the client knows exactly when the order was not routed
away from the venue it named and the client of the venue reported the trade it had opened.  The
identifiers of the positions response always work.

Main definitions:

* `TradingCore.runClose` — the runs of a single close;
* `Names` — the position an adapter reads off an identifier;
* `TradingCore.Closes` — a close by venue and identifier closes a position, and no other;
* `TradingCore.ListedCloses` — the items of the positions response can be closed;
* `Obtains` — the position that an open gives to its client.

Main results:

* `TradingCore.closes_of_names`, `TradingCore.not_closes` — which position a close addresses;
* `TradingCore.opened_position_closes_iff` — when an opened position can be closed;
* `TradingCore.routed_position_not_closed` — a position routed to the paper venue cannot.
-/

import Brokerage.ListingFailure
import Brokerage.PositionsResponse

set_option relaxedAutoImplicit false
set_option autoImplicit false

/-! ### What a close addresses -/

/-- The position that an adapter reads off an identifier. -/
def Names (adapter : AdapterId) (positionId : String) : PositionRef → Prop
  | .paper id => adapter = .paper ∧ id = TradingCore.internalId positionId
  | .trade slot => adapter = .ostium ∧
      OstiumAdapter.parsePositionId positionId = .ok ((slot.1 : ℤ), (slot.2 : ℤ))

/-- An adapter reads off at most one position. -/
theorem Names.unique {adapter : AdapterId} {positionId : String} {r r' : PositionRef}
    (h : Names adapter positionId r) (h' : Names adapter positionId r') : r = r' := by
  cases r with
  | paper id =>
      cases r' with
      | paper id' => rw [h.2, h'.2]
      | trade slot' => cases h.1.symm.trans h'.1
  | trade slot =>
      cases r' with
      | paper id' => cases h.1.symm.trans h'.1
      | trade slot' =>
          have hpair := Except.ok.inj (h.2.symm.trans h'.2)
          simp only [Prod.mk.injEq, Nat.cast_inj] at hpair
          rw [Prod.ext hpair.1 hpair.2]

/-- The venue neither raises nor refuses while a position is closed. -/
def Answer.Fine : Answer → Prop
  | .price (.error _) => False
  | .closeTrade (some _) => False
  | _ => True

namespace TradingCore

variable (core : TradingCore)

/-- The runs of a single close, from its start. -/
def runClose (req : OrderCloseRequest) (w : World) (answers : List Answer) :
    Option (World × ClosePc) :=
  Transition.exec (fun s a => core.closeStep req s.1 s.2 a) (w, .start) answers

/-- A close by venue and identifier can be carried out, and if the venue does not raise or refuse,
it closes the position and no other one. -/
def Closes (venue positionId : String) (r : PositionRef) : Prop :=
  ∀ w : World, w.Sound → w.Serves r → w.IsOpen r →
    ∀ req : OrderCloseRequest, req.venue = venue → req.positionId = positionId →
      (∃ answers, (∀ a ∈ answers, a.Fine) ∧
        ∃ w' outcome, core.runClose req w answers = some (w', .done outcome)) ∧
      ∀ answers, (∀ a ∈ answers, a.Fine) →
        ∀ w' outcome, core.runClose req w answers = some (w', .done outcome) →
          outcome = .ok true ∧ ∀ r', w'.IsOpen r' ↔ w.IsOpen r' ∧ r' ≠ r

/-- Each item of the positions response of a venue names a position that is open, and that a close
by the venue and the identifier of the item closes. -/
def ListedCloses (venue : String) : Prop :=
  ∀ w : World, w.Sound → ∀ adapter positions markPrices maintenanceMarginRatio,
    core.getAdapter venue = .ok adapter →
    w.getOpenPositions adapter (.ok w.trades.values) = .ok positions →
    ∀ (i : ℕ) (p : Position), positions[i]? = some p →
      w.IsOpen (p.ref adapter) ∧
      ∃ item, (mapPositionsResponse venue positions markPrices maintenanceMarginRatio)[i]? =
          some item ∧
        core.Closes venue item.positionId (p.ref adapter)

variable {core}

/-! ### How a close ends -/

/-- The ends of a close that the adapter takes up: the world and the outcome. -/
inductive CloseExit (w₀ : World) (adapter : AdapterId) (positionId : String) (fine : Prop) :
    World → Except CoreError Bool → Prop
  | missing (hadapter : adapter = .paper)
      (hnone : w₀.engine.positions.get? (internalId positionId) = none) :
      CloseExit w₀ adapter positionId fine w₀ (.ok false)
  | notStarted (e) (hadapter : adapter = .ostium) (hclient : w₀.ostium.client = none) :
      CloseExit w₀ adapter positionId fine w₀ (.error e)
  | unreadable (e) (hadapter : adapter = .ostium)
      (hparse : OstiumAdapter.parsePositionId positionId = .error e) :
      CloseExit w₀ adapter positionId fine w₀ (.error e)
  | notFine (outcome) (h : ¬ fine) : CloseExit w₀ adapter positionId fine w₀ outcome
  | paper (mid timestamp outcome) (hadapter : adapter = .paper)
      (houtcome : w₀.engine.closePosition (internalId positionId)
        ("close_" ++ internalId positionId) mid timestamp .manual = outcome) :
      CloseExit w₀ adapter positionId fine { w₀ with engine := outcome.2 }
        (match outcome.1 with
          | .ok result => .ok result.success
          | .error _ => .error (.raised "float division by zero"))
  | gone (pairId tradeIndex) (hadapter : adapter = .ostium)
      (hparse : OstiumAdapter.parsePositionId positionId = .ok (pairId, tradeIndex))
      (hnone : w₀.trade? pairId tradeIndex = none) :
      CloseExit w₀ adapter positionId fine w₀ (.ok true)
  | unknownPair (e pairId tradeIndex) (hadapter : adapter = .ostium)
      (hparse : OstiumAdapter.parsePositionId positionId = .ok (pairId, tradeIndex))
      (hprice : OstiumAdapter.hasPrice pairId = false) :
      CloseExit w₀ adapter positionId fine w₀ (.error e)
  | closed (pairId tradeIndex) (hadapter : adapter = .ostium)
      (hparse : OstiumAdapter.parsePositionId positionId = .ok (pairId, tradeIndex)) :
      CloseExit w₀ adapter positionId fine (w₀.closeTrade pairId tradeIndex) (.ok true)

/-- Where a close is that the adapter takes up. -/
def CloseAt (w₀ : World) (adapter : AdapterId) (positionId : String) (fine : Prop)
    (s : World × ClosePc) : Prop :=
  match s.2 with
  | .start => s.1 = w₀
  | .paperPricing id _ => s.1 = w₀ ∧ adapter = .paper ∧ id = internalId positionId
  | .paperClosing id _ => s.1 = w₀ ∧ adapter = .paper ∧ id = internalId positionId
  | .tradeInfo pairId tradeIndex => s.1 = w₀ ∧ adapter = .ostium ∧
      OstiumAdapter.parsePositionId positionId = .ok (pairId, tradeIndex)
  | .tradePricing pairId tradeIndex => s.1 = w₀ ∧ adapter = .ostium ∧
      OstiumAdapter.parsePositionId positionId = .ok (pairId, tradeIndex)
  | .tradeClosing pairId tradeIndex _ => s.1 = w₀ ∧ adapter = .ostium ∧
      OstiumAdapter.parsePositionId positionId = .ok (pairId, tradeIndex)
  | .reconciling success => CloseExit w₀ adapter positionId fine s.1 (.ok success)
  | .done outcome => CloseExit w₀ adapter positionId fine s.1 outcome

section

variable {w₀ : World} {adapter : AdapterId} {positionId : String} {fine : Prop}

theorem closePositionStart_at :
    CloseAt w₀ adapter positionId fine (w₀, closePositionStart w₀ adapter positionId) := by
  unfold closePositionStart
  cases adapter with
  | paper =>
      dsimp only
      split
      · exact .missing rfl ‹_›
      · exact ⟨rfl, rfl, rfl⟩
  | ostium =>
      dsimp only
      split
      · exact .notStarted _ rfl ‹_›
      · split
        · exact .unreadable _ rfl ‹_›
        · exact ⟨rfl, rfl, ‹_›⟩

theorem afterTradeInfo_at {pairId tradeIndex : ℤ} (hadapter : adapter = .ostium)
    (hparse : OstiumAdapter.parsePositionId positionId = .ok (pairId, tradeIndex))
    (failure : Option String) :
    CloseAt w₀ adapter positionId fine (w₀, afterTradeInfo w₀ pairId tradeIndex failure) := by
  unfold afterTradeInfo
  split
  · exact .gone _ _ hadapter hparse (And.right ‹_›)
  · split
    · exact ⟨rfl, hadapter, hparse⟩
    · exact .unknownPair _ _ _ hadapter hparse (Bool.eq_false_iff.2 ‹_›)

theorem paperClose_at (hadapter : adapter = .paper) (mid timestamp : ℚ) :
    CloseAt w₀ adapter positionId fine (paperClose w₀ (internalId positionId) mid timestamp) := by
  have hexit : CloseExit w₀ adapter positionId fine _ _ := .paper mid timestamp _ hadapter rfl
  unfold paperClose
  split <;> rename_i heq <;> rw [heq] at hexit <;> exact hexit

/-- A step of a close that the adapter takes up. -/
theorem closeStep_at {req : OrderCloseRequest} (htarget : core.closeTarget req = .ok (adapter, positionId))
    {w : World} {pc : ClosePc} {a : Answer} {t : World × ClosePc}
    (hs : CloseAt w₀ adapter positionId fine (w, pc)) (hfine : fine → a.Fine)
    (h : core.closeStep req w pc a = some t) : CloseAt w₀ adapter positionId fine t := by
  unfold closeStep at h
  split at h
  · -- the world changes only where the close is done
    obtain rfl : w = w₀ := hs
    rw [htarget] at h
    cases h
    exact closePositionStart_at
  · obtain ⟨rfl, -, -⟩ : w = w₀ ∧ _ := hs
    cases h
    exact .notFine _ fun hf => hfine hf
  · cases h
    exact hs
  · obtain ⟨rfl, hadapter, rfl⟩ : w = w₀ ∧ _ := hs
    cases h
    exact paperClose_at hadapter _ _
  · obtain ⟨rfl, hadapter, hparse⟩ : w = w₀ ∧ _ := hs
    cases h
    exact afterTradeInfo_at hadapter hparse _
  · obtain ⟨rfl, -, -⟩ : w = w₀ ∧ _ := hs
    cases h
    exact .notFine _ fun hf => hfine hf
  · cases h
    exact hs
  · obtain ⟨rfl, -, -⟩ : w = w₀ ∧ _ := hs
    cases h
    exact .notFine _ fun hf => hfine hf
  · obtain ⟨rfl, hadapter, hparse⟩ : w = w₀ ∧ _ := hs
    cases h
    exact .closed _ _ hadapter hparse
  · cases h
    exact hs
  · cases h

/-- A close that is over has ended in one of the ways above. -/
theorem closeExit_of_run {req : OrderCloseRequest}
    (htarget : core.closeTarget req = .ok (adapter, positionId)) {answers : List Answer} {w : World}
    {outcome : Except CoreError Bool}
    (h : core.runClose req w₀ answers = some (w, .done outcome)) :
    CloseExit w₀ adapter positionId (∀ a ∈ answers, a.Fine) w outcome := by
  have hstart : CloseAt w₀ adapter positionId (∀ a ∈ answers, a.Fine) (w₀, .start) := rfl
  have hat : CloseAt w₀ adapter positionId (∀ a ∈ answers, a.Fine) (w, .done outcome) := by
    refine Transition.exec_invariant_of_meets ?_ hstart
      (Transition.meets_of_forall (Q := (· ∈ answers)) (fun a ha => ha) _) h
    exact fun s a t hs ha hstep => closeStep_at htarget hs (fun hf => hf a ha) hstep
  exact hat

theorem contains_closePosition_of_ne (e : PaperEngine) {id id' : String} (hid : id ≠ id')
    (clientOrderId : String) (currentPrice timestamp : ℚ) (closeReason : CloseReason) :
    (e.closePosition id' clientOrderId currentPrice timestamp closeReason).2.positions.contains id =
      e.positions.contains id := by
  rcases PaperEngine.closePosition_cases e id' clientOrderId currentPrice timestamp closeReason with
    ⟨r, -, heq⟩ | heq | ⟨p, costModel, price, -, -, heq⟩ | ⟨p, costModel, price, fill, -, -, -, heq⟩
      <;> rw [heq]
  · rfl
  · simp only [Dict.contains, PaperEngine.archive, PaperEngine.credit, Dict.get?_erase_of_ne _ hid]

/-- What the adapter does not read off the identifier stays as it was. -/
theorem CloseExit.frame {w : World} {outcome : Except CoreError Bool}
    (h : CloseExit w₀ adapter positionId fine w outcome) {r : PositionRef}
    (hr : ¬ Names adapter positionId r) : w.IsOpen r ↔ w₀.IsOpen r := by
  cases h with
  | paper mid timestamp outcome hadapter houtcome =>
      cases r with
      | trade slot => exact Iff.rfl
      | paper id =>
          have hid : id ≠ internalId positionId := fun heq => hr ⟨hadapter, heq⟩
          have hsame := contains_closePosition_of_ne w₀.engine hid
            ("close_" ++ internalId positionId) mid timestamp .manual
          rw [houtcome] at hsame
          simp only [World.IsOpen, hsame]
  | closed pairId tradeIndex hadapter hparse =>
      cases r with
      | paper id => simp only [World.IsOpen, World.closeTrade_engine]
      | trade slot =>
          unfold World.closeTrade
          split
          · rename_i hnonneg
            have hslot : slot ≠ (pairId.toNat, tradeIndex.toNat) := by
              rintro rfl
              refine hr ⟨hadapter, ?_⟩
              rw [hparse, Int.toNat_of_nonneg hnonneg.1, Int.toNat_of_nonneg hnonneg.2]
            simp only [World.IsOpen, Dict.contains, Dict.get?_erase_of_ne _ hslot]
          · exact Iff.rfl
  | _ => exact Iff.rfl

theorem trade?_natCast (w : World) (slot : ℕ × ℕ) :
    w.trade? (slot.1 : ℤ) (slot.2 : ℤ) = w.trades.get? slot := by
  simp [World.trade?]

theorem not_isOpen_closeTrade (w : World) (slot : ℕ × ℕ) :
    ¬ (w.closeTrade (slot.1 : ℤ) (slot.2 : ℤ)).IsOpen (.trade slot) := by
  simp [World.closeTrade, World.IsOpen, Dict.contains]

/-- If nothing fails, the open position that the adapter reads off the identifier is closed. -/
theorem CloseExit.closes {w : World} {outcome : Except CoreError Bool}
    (h : CloseExit w₀ adapter positionId fine w outcome) (hfine : fine) (hsound : w₀.Sound)
    {r : PositionRef} (hr : Names adapter positionId r) (hserves : w₀.Serves r)
    (hopen : w₀.IsOpen r) : outcome = .ok true ∧ ¬ w.IsOpen r := by
  cases r with
  | paper id =>
      obtain ⟨rfl, rfl⟩ := hr
      obtain ⟨p, hp⟩ := Option.isSome_iff_exists.1 hopen
      cases h with
      | missing hadapter hnone => cases hp.symm.trans hnone
      | notFine outcome hnot => exact absurd hfine hnot
      | paper mid timestamp outcome hadapter houtcome =>
          obtain ⟨result, fill, costModel, price, heq, hsuccess⟩ :=
            PaperEngine.closePosition_of_closable hp (hsound.engine.closable _ p hp)
              ("close_" ++ internalId positionId) mid timestamp .manual
          rw [heq] at houtcome
          subst houtcome
          simp [hsuccess, World.IsOpen, Dict.contains, PaperEngine.archive]
      | notStarted e hadapter => cases hadapter
      | unreadable e hadapter => cases hadapter
      | gone pairId tradeIndex hadapter => cases hadapter
      | unknownPair e pairId tradeIndex hadapter => cases hadapter
      | closed pairId tradeIndex hadapter => cases hadapter
  | trade slot =>
      obtain ⟨rfl, hslot⟩ := hr
      obtain ⟨t, ht⟩ := Option.isSome_iff_exists.1 hopen
      -- the adapter reads the slot of the trade off the identifier
      have hread : ∀ {pairId tradeIndex : ℤ}, OstiumAdapter.parsePositionId positionId =
          .ok (pairId, tradeIndex) → pairId = slot.1 ∧ tradeIndex = slot.2 := by
        intro pairId tradeIndex hparse
        exact Prod.mk.inj (Except.ok.inj (hparse.symm.trans hslot))
      cases h with
      | missing hadapter => cases hadapter
      | paper mid timestamp outcome hadapter => cases hadapter
      | notFine outcome hnot => exact absurd hfine hnot
      | notStarted e hadapter hclient => exact absurd hclient hserves
      | unreadable e hadapter hparse => cases hparse.symm.trans hslot
      | gone pairId tradeIndex hadapter hparse hnone =>
          obtain ⟨rfl, rfl⟩ := hread hparse
          rw [trade?_natCast, ht] at hnone
          cases hnone
      | unknownPair e pairId tradeIndex hadapter hparse hprice =>
          obtain ⟨rfl, rfl⟩ := hread hparse
          rw [OstiumAdapter.hasPrice_of_mem (hsound.known slot t ht)] at hprice
          cases hprice
      | closed pairId tradeIndex hadapter hparse =>
          obtain ⟨rfl, rfl⟩ := hread hparse
          exact ⟨rfl, not_isOpen_closeTrade w₀ slot⟩

end

/-! ### A close comes to its end -/

/-- From a program counter on, a close can be carried out. -/
def Ends (core : TradingCore) (req : OrderCloseRequest) (s : World × ClosePc) : Prop :=
  ∃ answers, (∀ a ∈ answers, Answer.Fine a) ∧ ∃ w' outcome,
    Transition.exec (fun s a => core.closeStep req s.1 s.2 a) s answers =
      some (w', .done outcome)

theorem Ends.step {req : OrderCloseRequest} {s t : World × ClosePc} {a : Answer} (ha : a.Fine)
    (h : core.closeStep req s.1 s.2 a = some t) (ht : Ends core req t) : Ends core req s := by
  obtain ⟨answers, hfine, w', outcome, hrun⟩ := ht
  refine ⟨a :: answers, fun b hb => ?_, w', outcome, Transition.exec_cons_eq_some.2 ⟨t, h, hrun⟩⟩
  rcases List.mem_cons.1 hb with rfl | hb
  · exact ha
  · exact hfine b hb

/-- Wherever a close is, it can be carried out. -/
theorem ends (req : OrderCloseRequest) (s : World × ClosePc) : Ends core req s := by
  have hdone : ∀ w outcome, Ends core req (w, .done outcome) := fun w outcome =>
    ⟨[], fun a ha => (by cases ha), w, outcome, rfl⟩
  have hreconciling : ∀ w success, Ends core req (w, .reconciling success) := fun w success =>
    .step (a := .listing (.ok [])) trivial rfl (hdone w (.ok success))
  -- from each state an answer leads on, until the close is done
  have hpaperClosing : ∀ w id mid, Ends core req (w, .paperClosing id mid) := by
    intro w id mid
    refine .step (a := .engineClose 0) trivial rfl ?_
    unfold paperClose
    split
    · exact hreconciling _ _
    · exact hdone _ _
  have htradeClosing : ∀ w p i mid, Ends core req (w, .tradeClosing p i mid) := fun w p i mid =>
    .step (a := .closeTrade none) trivial rfl (hreconciling _ true)
  have htradePricing : ∀ w p i, Ends core req (w, .tradePricing p i) := fun w p i =>
    .step (a := .price (.ok 1)) trivial rfl (htradeClosing w p i 1)
  have htradeInfo : ∀ w p i, Ends core req (w, .tradeInfo p i) := by
    intro w p i
    refine .step (a := .tradeInfo none) trivial rfl ?_
    unfold afterTradeInfo
    split
    · exact hreconciling _ _
    · split
      · exact htradePricing _ _ _
      · exact hdone _ _
  have hpaperPricing : ∀ w id p, Ends core req (w, .paperPricing id p) := fun w id p =>
    .step (a := .price (.ok 1)) trivial rfl (hpaperClosing w id _)
  have hstart : ∀ w, Ends core req (w, .start) := by
    intro w
    cases htarget : core.closeTarget req with
    | error e => exact .step (a := .resume) trivial (by simp only [closeStep, htarget]) (hdone w (.error e))
    | ok target =>
        refine .step (a := .resume) trivial (by simp only [closeStep, htarget]; rfl) ?_
        unfold closePositionStart
        split
        · split
          · exact hreconciling _ _
          · exact hpaperPricing _ _ _
        · split
          · exact hdone _ _
          · split
            · exact hdone _ _
            · exact htradeInfo _ _ _
  obtain ⟨w, pc⟩ := s
  cases pc with
  | start => exact hstart w
  | paperPricing id p => exact hpaperPricing w id p
  | paperClosing id mid => exact hpaperClosing w id mid
  | tradeInfo p i => exact htradeInfo w p i
  | tradePricing p i => exact htradePricing w p i
  | tradeClosing p i mid => exact htradeClosing w p i mid
  | reconciling success => exact hreconciling w success
  | done outcome => exact hdone w outcome

/-! ### Which position a close addresses -/

/-- Closes are not switched off. -/
def ClosingAllowed (core : TradingCore) : Prop :=
  TradingConfig.isLive core.cfg.mode = true → core.cfg.enableLiveTrading = true

/-- A close that is not switched off goes to the adapter of the venue it names. -/
theorem closeTarget_eq {req : OrderCloseRequest} (hallowed : ClosingAllowed core)
    (hvenue : req.venue ≠ "lighter") :
    core.closeTarget req = (core.getAdapter req.venue).map fun adapter =>
      (adapter, req.positionId) := by
  have hlive : core.cfg.assertLiveTradingEnabled core.cfg.mode = .ok () :=
    TradingConfig.assertLiveTradingEnabled_eq_ok.2 hallowed
  unfold closeTarget
  rw [hlive]
  simp only [hvenue, and_false, if_false]
  cases core.getAdapter req.venue <;> cases TradingConfig.isLive core.cfg.mode <;> rfl

/-- A close that finds no adapter raises. -/
theorem outcome_of_closeTarget_error {req : OrderCloseRequest} {e : CoreError}
    (htarget : core.closeTarget req = .error e) {w w' : World} {answers : List Answer}
    {outcome : Except CoreError Bool}
    (h : core.runClose req w answers = some (w', .done outcome)) : outcome = .error e := by
  have hinv : ((w', .done outcome) : World × ClosePc).2 = .start ∨
      ((w', .done outcome) : World × ClosePc).2 = .done (.error e) := by
    refine Transition.exec_invariant (I := fun s => s.2 = .start ∨ s.2 = .done (.error e)) ?_
      (Or.inl rfl) h
    rintro ⟨w₁, pc₁⟩ a t (rfl | rfl) hstep
    · cases a with
      | resume =>
          simp only [closeStep, htarget, Option.some.injEq] at hstep
          subst hstep
          exact Or.inr rfl
      | _ => cases hstep
    · cases a <;> cases hstep
  rcases hinv with hinv | hinv <;> cases hinv
  rfl

/-- A close addresses the position that the adapter of its venue reads off its identifier. -/
theorem closes_of_names {venue positionId : String} {adapter : AdapterId} {r : PositionRef}
    (hallowed : ClosingAllowed core) (hvenue : venue ≠ "lighter")
    (hadapter : core.getAdapter venue = .ok adapter) (hr : Names adapter positionId r) :
    core.Closes venue positionId r := by
  rintro w hsound hserves hopen req rfl rfl
  refine ⟨ends req (w, .start), fun answers hfine w' outcome hrun => ?_⟩
  have htarget : core.closeTarget req = .ok (adapter, req.positionId) := by
    rw [closeTarget_eq hallowed hvenue, hadapter]
    rfl
  have hexit := closeExit_of_run htarget hrun
  obtain ⟨houtcome, hclosed⟩ := hexit.closes hfine hsound hr hserves hopen
  refine ⟨houtcome, fun r' => ?_⟩
  by_cases hr' : r' = r
  · subst hr'
    simp [hclosed]
  · rw [hexit.frame fun hnames => hr' (hnames.unique hr)]
    simp [hr']

/-- A position that the adapter of the venue does not read off the identifier is not closed. -/
theorem not_closes {venue positionId : String} {r : PositionRef} (hallowed : ClosingAllowed core)
    (hvenue : venue ≠ "lighter")
    (hr : ∀ adapter, core.getAdapter venue = .ok adapter → ¬ Names adapter positionId r) {w : World}
    (hsound : w.Sound) (hserves : w.Serves r) (hopen : w.IsOpen r) :
    ¬ core.Closes venue positionId r := by
  intro hcloses
  obtain ⟨⟨answers, hfine, w', outcome, hrun⟩, hall⟩ := hcloses w hsound hserves hopen
    ⟨venue, positionId, 100, none, by norm_num, le_rfl⟩ rfl rfl
  obtain ⟨rfl, hopen'⟩ := hall answers hfine w' outcome hrun
  have hgone : ¬ w'.IsOpen r := fun h => ((hopen' r).1 h).2 rfl
  cases hadapter : core.getAdapter venue with
  | ok adapter =>
      have htarget : core.closeTarget ⟨venue, positionId, 100, none, by norm_num, le_rfl⟩ =
          .ok (adapter, positionId) := by
        rw [closeTarget_eq hallowed hvenue, hadapter]
        rfl
      exact hgone (((closeExit_of_run htarget hrun).frame (hr adapter hadapter)).2 hopen)
  | error e =>
      -- without an adapter the close raises, so it does not end with a result
      have htarget : core.closeTarget ⟨venue, positionId, 100, none, by norm_num, le_rfl⟩ =
          .error e := by
        rw [closeTarget_eq hallowed hvenue, hadapter]
        rfl
      cases outcome_of_closeTarget_error htarget hrun

/-! ### Identifiers of the paper venue -/

theorem internalId_prefixed (id : String) : internalId ("paper:" ++ id) = id := by
  rw [internalId, Text.startsWith_append, if_pos rfl, Text.dropChars_append (by decide)]

theorem startsWith_newPositionId (uuid : String) :
    Text.startsWith (PaperEngine.newPositionId uuid) "paper:" = false := by
  simp [Text.startsWith, PaperEngine.newPositionId, List.isPrefixOf]

theorem internalId_newPositionId (uuid : String) :
    internalId (PaperEngine.newPositionId uuid) = PaperEngine.newPositionId uuid := by
  rw [internalId, startsWith_newPositionId, if_neg Bool.false_ne_true]

theorem newPositionId_ne_empty (uuid : String) : PaperEngine.newPositionId uuid ≠ "" := by
  intro h
  have hlist := congrArg String.toList h
  simp [PaperEngine.newPositionId] at hlist

/-- The engine knows a position by what is left of the identifier that an open returns. -/
theorem internalId_normalizePositionId (uuid : String) :
    internalId (normalizePositionId "paper" (PaperEngine.newPositionId uuid)) =
      PaperEngine.newPositionId uuid := by
  unfold normalizePositionId
  split
  · exact internalId_prefixed _
  · exact internalId_newPositionId uuid

theorem normalizePositionId_makePositionId (venue : String) (pairId tradeIndex : ℕ) :
    normalizePositionId venue (OstiumAdapter.makePositionId pairId tradeIndex) =
      OstiumAdapter.makePositionId pairId tradeIndex := by
  rw [normalizePositionId, if_neg]
  exact fun h => h.2.2 (OstiumAdapter.contains_colon_makePositionId pairId tradeIndex)

/-- No identifier of a trade is one of the paper venue. -/
theorem normalizePositionId_newPositionId_ne (venue uuid : String) (pairId tradeIndex : ℕ) :
    normalizePositionId venue (PaperEngine.newPositionId uuid) ≠
      OstiumAdapter.makePositionId pairId tradeIndex := by
  intro h
  have hlist := congrArg String.toList h
  unfold normalizePositionId at hlist
  split at hlist <;>
    simp [PaperEngine.newPositionId, OstiumAdapter.makePositionId] at hlist

/-! ### The positions response -/

theorem responsePositionId_paper {p : Position} {uuid : String}
    (h : p.venuePositionId = some (PaperEngine.newPositionId uuid)) :
    responsePositionId "paper" p = "paper:" ++ PaperEngine.newPositionId uuid := by
  have hstart : Text.startsWith (Text.lower (PaperEngine.newPositionId uuid))
      (Text.lower "paper" ++ ":") = false := by
    have hpre : Text.lower "paper" ++ ":" = "paper:" := by decide
    have hid : Text.lower "paper_" = "paper_" := by decide
    rw [hpre, PaperEngine.newPositionId, Text.lower_append, hid]
    exact startsWith_newPositionId _
  simp only [responsePositionId, h, Option.getD_some, hstart, Bool.false_eq_true, if_false,
    if_neg (newPositionId_ne_empty uuid)]
  rfl

theorem responsePositionId_ostium {p : Position} {pairId tradeIndex : ℕ}
    (h : p.venuePositionId = some (OstiumAdapter.makePositionId pairId tradeIndex)) :
    responsePositionId "ostium" p = OstiumAdapter.makePositionId pairId tradeIndex := by
  have hpre : Text.lower "ostium" ++ ":" = "ostium:" := by decide
  have hlower : Text.lower "ostium:" = "ostium:" := by decide
  rw [responsePositionId, h, Option.getD_some, hpre, OstiumAdapter.makePositionId, Text.lower_append,
    hlower, Text.startsWith_append]
  rfl

/-- The adapters are wired under their own names. -/
def WiredByName (core : TradingCore) : Prop :=
  (∀ adapter, core.getAdapter "paper" = .ok adapter → adapter = .paper) ∧
    ∀ adapter, core.getAdapter "ostium" = .ok adapter → adapter = .ostium

/-- The items of the positions response can be closed. -/
theorem listedCloses (hwired : WiredByName core) (hallowed : ClosingAllowed core) {venue : String}
    (hvenue : venue = "paper" ∨ venue = "ostium") : core.ListedCloses venue := by
  intro w hsound adapter positions markPrices ratio hadapter hlist i p hp
  have hitem : (mapPositionsResponse venue positions markPrices ratio)[i]? =
      some (positionItem venue markPrices ratio p) := by
    rw [mapPositionsResponse, List.getElem?_map, hp]
    rfl
  have hmem : p ∈ positions := List.mem_iff_getElem?.2 ⟨i, hp⟩
  rcases hvenue with rfl | rfl
  · obtain rfl := hwired.1 adapter hadapter
    obtain rfl := Except.ok.inj hlist
    obtain ⟨id, hid⟩ := Dict.mem_values_iff.1 hmem
    obtain ⟨uuid, rfl⟩ := hsound.engine.named id p hid
    have hfiled := hsound.engine.filed _ p hid
    -- a position that the engine lists is filed under its own identifier
    have href : p.ref .paper = .paper (PaperEngine.newPositionId uuid) := by
      simp only [Position.ref, Position.positionId, hfiled, if_neg (newPositionId_ne_empty uuid)]
    rw [href]
    refine ⟨Option.isSome_iff_exists.2 ⟨p, hid⟩, _, hitem, ?_⟩
    refine closes_of_names hallowed (by decide) hadapter ⟨rfl, ?_⟩
    rw [positionItem, responsePositionId_paper hfiled, internalId_prefixed]
  · obtain rfl := hwired.2 adapter hadapter
    obtain ⟨t, ht, rfl⟩ := List.mem_map.1 (OstiumAdapter.mem_getOpenPositions hlist hmem)
    obtain ⟨slot, hslot⟩ := Dict.mem_values_iff.1 ht
    obtain rfl : (t.pairId, t.tradeIndex) = slot := hsound.slot slot t hslot
    refine ⟨Option.isSome_iff_exists.2 ⟨t, hslot⟩, _, hitem, ?_⟩
    refine closes_of_names hallowed (by decide) hadapter ⟨rfl, ?_⟩
    rw [positionItem, responsePositionId_ostium rfl, OstiumAdapter.parsePositionId_makePositionId]
    rfl

/-! ### What an open opens -/

/-- No trade was opened so far. -/
def NoTrade (answers : List Answer) : Prop :=
  ∀ slot receipt, .openTrade (.opened slot receipt) ∉ answers

/-- The positions, the trades and the file are those of before. -/
structure SamePositions (w₀ w : World) : Prop where
  engine : w.engine = w₀.engine
  trades : w.trades = w₀.trades
  ostium : w.ostium = w₀.ostium

/-- How an open succeeds, with the identifier the adapter returns: the paper engine has a new
position, Ostium has a new trade, or the file remembered a position. -/
inductive Fills (req : OrderOpenRequest) (w₀ : World) :
    AdapterId → World → String → List Answer → Prop
  | paper {w : World} {answers : List Answer} (uuid : String) (p : Position)
      (hnew : w.engine.positions = w₀.engine.positions.set (PaperEngine.newPositionId uuid) p)
      (htrades : w.trades = w₀.trades) (hnone : NoTrade answers) :
      Fills req w₀ .paper w (PaperEngine.newPositionId uuid) answers
  | trade {w : World} {answers : List Answer} (slot : ℕ × ℕ) (receipt : OpenTradeReceipt)
      (t : OpenTradeInfo) (hengine : w.engine = w₀.engine)
      (hnew : w.trades = w₀.trades.set slot t) (hclient : w.ostium.client ≠ none)
      (hidempotent : w₀.ostium.idempotent req.clientOrderId = none)
      (hone : ∀ slot' receipt', .openTrade (.opened slot' receipt') ∈ answers ↔
        slot' = slot ∧ receipt' = receipt) :
      Fills req w₀ .ostium w (OstiumAdapter.makePositionId receipt.pairId receipt.tradeIndex) answers
  | remembered {w : World} {answers : List Answer} (positionId : String)
      (hengine : w.engine = w₀.engine) (htrades : w.trades = w₀.trades)
      (hidempotent : w₀.ostium.idempotent req.clientOrderId = some positionId)
      (hnone : NoTrade answers) : Fills req w₀ .ostium w positionId answers

/-- What is known of an open that returns a result. -/
def Returns (core : TradingCore) (req : OrderOpenRequest) (w₀ w : World) (answers : List Answer)
    (result : OrderOpenResult) : Prop :=
  result.success = true → ∃ venue adapter positionId, core.openTarget req = .ok (venue, adapter) ∧
    result.positionId = normalizePositionId venue positionId ∧
    Fills req w₀ adapter w positionId answers

/-- Where an open is, with the answers so far. -/
def OpenAt (core : TradingCore) (req : OrderOpenRequest) (w₀ : World) (answers : List Answer)
    (s : World × OpenPc) : Prop :=
  match s.2 with
  | .start => SamePositions w₀ s.1 ∧ NoTrade answers
  | .listing venue adapter => SamePositions w₀ s.1 ∧ NoTrade answers ∧
      core.openTarget req = .ok (venue, adapter)
  | .listed venue adapter _ => SamePositions w₀ s.1 ∧ NoTrade answers ∧
      core.openTarget req = .ok (venue, adapter)
  | .pricing venue adapter => SamePositions w₀ s.1 ∧ NoTrade answers ∧
      core.openTarget req = .ok (venue, adapter) ∧
      (adapter = .ostium → w₀.ostium.client ≠ none ∧ w₀.ostium.idempotent req.clientOrderId = none)
  | .trading venue adapter _ => SamePositions w₀ s.1 ∧ NoTrade answers ∧
      core.openTarget req = .ok (venue, adapter) ∧
      (adapter = .ostium → w₀.ostium.client ≠ none ∧ w₀.ostium.idempotent req.clientOrderId = none)
  | .traded venue adapter result => core.openTarget req = .ok (venue, adapter) ∧
      (result.success = true → Fills req w₀ adapter s.1 result.positionId answers)
  | .reconciling result => Returns core req w₀ s.1 answers result
  | .done (.ok result) => Returns core req w₀ s.1 answers result
  | .done (.error _) => True

section

variable {req : OrderOpenRequest} {w₀ : World}

theorem NoTrade.append {answers : List Answer} (h : NoTrade answers) {a : Answer}
    (ha : ∀ answer, a ≠ .openTrade answer) : NoTrade (answers ++ [a]) := by
  intro slot receipt hmem
  rcases List.mem_append.1 hmem with hold | hnew
  · exact h slot receipt hold
  · exact ha _ (List.mem_singleton.1 hnew).symm

/-- What an open has opened stays so while the world and the answers grow in other ways. -/
theorem Fills.mono {adapter : AdapterId} {w w' : World} {positionId : String}
    {answers : List Answer} (h : Fills req w₀ adapter w positionId answers)
    (hengine : w'.engine = w.engine) (htrades : w'.trades = w.trades)
    (hclient : w'.ostium.client = w.ostium.client) {a : Answer}
    (ha : ∀ answer, a ≠ .openTrade answer) :
    Fills req w₀ adapter w' positionId (answers ++ [a]) := by
  cases h with
  | paper uuid p hnew hold hnone =>
      exact .paper uuid p (by rw [hengine, hnew]) (htrades.trans hold) (hnone.append ha)
  | trade slot receipt t hold hnew hclient' hidempotent hone =>
      refine .trade slot receipt t (hengine.trans hold) (htrades.trans hnew)
        (by rw [hclient]; exact hclient') hidempotent fun slot' receipt' => ?_
      rw [List.mem_append, hone, List.mem_singleton]
      exact or_iff_left fun heq => ha _ heq.symm
  | remembered positionId hold hold' hidempotent hnone =>
      exact .remembered positionId (hengine.trans hold) (htrades.trans hold') hidempotent
        (hnone.append ha)

theorem afterGate_at (answers : List Answer) (bad : Option String) {w : World}
    (hw : SamePositions w₀ w) (hnone : NoTrade answers) :
    OpenAt core req w₀ (answers ++ [.gate bad]) (w, core.afterGate req bad) := by
  unfold afterGate
  split
  · trivial
  · split
    · trivial
    · exact ⟨hw, hnone.append (fun _ h => by cases h), ‹_›⟩

theorem afterPrice_at {answers : List Answer} {w : World} {venue : String} {adapter : AdapterId}
    (mid : Except String ℚ) (h : OpenAt core req w₀ answers (w, .pricing venue adapter)) :
    OpenAt core req w₀ (answers ++ [.price mid]) (w, afterPrice req venue adapter mid) := by
  obtain ⟨hw, hnone, htarget, hostium⟩ := h
  have hnone' : NoTrade (answers ++ [.price mid]) := hnone.append (fun _ h => by cases h)
  unfold afterPrice
  split
  · trivial
  · split
    · exact ⟨htarget, fun hsuccess => by cases hsuccess⟩
    · exact ⟨hw, hnone', htarget, hostium⟩
  · trivial
  · split
    · trivial
    · exact ⟨hw, hnone', htarget, hostium⟩

theorem afterGuard_at {answers : List Answer} {w : World} {venue : String} {adapter : AdapterId}
    {positions : List Position}
    (h : OpenAt core req w₀ answers (w, .listed venue adapter positions)) :
    OpenAt core req w₀ (answers ++ [.resume]) (afterGuard req w venue adapter positions) := by
  obtain ⟨hw, hnone, htarget⟩ := h
  have hnone' : NoTrade (answers ++ [.resume]) := hnone.append (fun _ h => by cases h)
  unfold afterGuard
  split
  · trivial
  · have hw' : SamePositions w₀ (w.log [.openPosition adapter (w.isReal adapter) req]) :=
      ⟨hw.engine, hw.trades, hw.ostium⟩
    dsimp only
    split
    · trivial
    · rename_i result hstart
      obtain ⟨rfl, -, hidempotent, -⟩ := openPositionStart_eq_some hstart
      intro _
      refine ⟨venue, .ostium, result.positionId, htarget, rfl, ?_⟩
      exact .remembered _ hw'.engine hw'.trades (hw.ostium ▸ hidempotent) hnone'
    · rename_i hstart
      refine ⟨hw', hnone', htarget, ?_⟩
      rintro rfl
      rw [← hw.ostium]
      exact openPositionStart_eq_none hstart

theorem paperOpen_at {answers : List Answer} {w : World} {venue : String} {mid : ℚ}
    (h : OpenAt core req w₀ answers (w, .trading venue .paper mid)) (now : String) (timestamp : ℚ)
    (uuid : String) :
    OpenAt core req w₀ (answers ++ [.engineOpen now timestamp uuid])
      ((w.paperOpen req mid now timestamp uuid).2,
        .traded venue .paper (w.paperOpen req mid now timestamp uuid).1) := by
  obtain ⟨hw, hnone, htarget, -⟩ := h
  refine ⟨htarget, fun hsuccess => ?_⟩
  rcases PaperEngine.openPosition_cases w.engine (World.orderRequest req)
    (World.paperOrderId req now) mid timestamp uuid with ⟨hfailed, -⟩ | ⟨fee, -, hid, -, hengine⟩
  · cases hfailed.symm.trans hsuccess
  · have hid' : (w.paperOpen req mid now timestamp uuid).1.positionId =
        PaperEngine.newPositionId uuid := hid
    rw [hid']
    refine .paper uuid (w.engine.newPosition (World.orderRequest req) mid timestamp uuid) ?_ ?_
      (hnone.append (fun _ h => by cases h))
    · rw [World.paperOpen_engine, hengine, ← hw.engine]
    · rw [World.paperOpen_trades, hw.trades]

theorem ostiumOpen_at {answers : List Answer} {w : World} {venue : String} {mid : ℚ}
    (h : OpenAt core req w₀ answers (w, .trading venue .ostium mid)) (answer : OpenTradeAnswer) :
    OpenAt core req w₀ (answers ++ [.openTrade answer])
      ((w.ostiumOpen req mid answer).2,
        .traded venue .ostium (w.ostiumOpen req mid answer).1) := by
  obtain ⟨hw, hnone, htarget, hostium⟩ := h
  obtain ⟨hclient, hidempotent⟩ := hostium rfl
  refine ⟨htarget, fun hsuccess => ?_⟩
  cases answer with
  | fails text => cases hsuccess
  | lost slot text => cases hsuccess
  | opened slot receipt =>
      refine .trade slot receipt (World.tradeOf req slot mid) hw.engine ?_ ?_ hidempotent ?_
      · exact congrArg (Dict.set · slot (World.tradeOf req slot mid)) hw.trades
      · exact hw.ostium ▸ hclient
      · intro slot' receipt'
        rw [List.mem_append, List.mem_singleton, or_iff_right (hnone slot' receipt')]
        simp only [Answer.openTrade.injEq, OpenTradeAnswer.opened.injEq]

theorem saveIdempotent_client (w : World) (adapter : AdapterId) (req : OrderOpenRequest)
    (result : OrderResult) :
    (w.saveIdempotent adapter req result).ostium.client = w.ostium.client := by
  unfold World.saveIdempotent
  split
  · split <;> rfl
  · rfl

theorem saveIdempotent_trades (w : World) (adapter : AdapterId) (req : OrderOpenRequest)
    (result : OrderResult) : (w.saveIdempotent adapter req result).trades = w.trades := by
  unfold World.saveIdempotent
  split
  · split <;> rfl
  · rfl

/-- A step of an open. -/
theorem openStep_at {answers : List Answer} {w w' : World} {pc pc' : OpenPc} {a : Answer}
    (h : OpenAt core req w₀ answers (w, pc)) (hstep : OpenStep core req w pc a w' pc') :
    OpenAt core req w₀ (answers ++ [a]) (w', pc') := by
  cases hstep with
  | gate bad => exact afterGate_at answers bad h.1 h.2
  | listingFails g hg => trivial
  | listing g hg => exact ⟨h.1, h.2.1.append (fun _ h => by cases h), h.2.2⟩
  | guard venue adapter positions => exact afterGuard_at h
  | price venue adapter mid => exact afterPrice_at mid h
  | paperOpen venue mid now timestamp uuid => exact paperOpen_at h now timestamp uuid
  | ostiumOpen venue mid answer => exact ostiumOpen_at h answer
  | save venue adapter result =>
      intro hsuccess
      refine ⟨venue, adapter, result.positionId, h.1, rfl, ?_⟩
      exact (h.2 hsuccess).mono (World.saveIdempotent_engine ..) (saveIdempotent_trades ..)
        (saveIdempotent_client ..) (fun _ h => by cases h)
  | reconciled result g =>
      intro hsuccess
      obtain ⟨venue, adapter, positionId, htarget, hid, hfills⟩ := h hsuccess
      exact ⟨venue, adapter, positionId, htarget, hid,
        hfills.mono rfl rfl rfl (fun _ h => by cases h)⟩

/-- What an open that is over returns. -/
theorem returns_of_run {answers : List Answer} {w : World} {result : OrderOpenResult}
    (h : core.runOpen req w₀ answers = some (w, .done (.ok result))) :
    Returns core req w₀ w answers result := by
  have hstart : OpenAt core req w₀ [] (w₀, .start) :=
    ⟨⟨rfl, rfl, rfl⟩, fun slot receipt hmem => by cases hmem⟩
  have hat : OpenAt core req w₀ ([] ++ answers) (w, .done (.ok result)) :=
    Transition.exec_history (fun es s a t hs hstep => openStep_at hs (openStep_cases hstep)) hstart h
  exact hat

/-! ### Opened positions -/

/-- The position that an open gives to its client: the one it has opened, or the one that the file
of the Ostium adapter remembers. -/
inductive Obtains (req : OrderOpenRequest) (w w' : World) (result : OrderOpenResult) :
    PositionRef → Prop
  | opened {r : PositionRef} (hnew : ¬ w.IsOpen r) (hopen : w'.IsOpen r) : Obtains req w w' result r
  | remembered {slot : ℕ × ℕ} (hidempotent : w.ostium.idempotent req.clientOrderId =
        some (OstiumAdapter.makePositionId slot.1 slot.2))
      (hid : result.positionId = OstiumAdapter.makePositionId slot.1 slot.2) :
      Obtains req w w' result (.trade slot)

variable {w : World} {result : OrderOpenResult} {r : PositionRef}

/-- A new position in a dictionary is the one that was set. -/
theorem eq_of_contains_set {κ ν : Type*} [DecidableEq κ] {d : Dict κ ν} {k k' : κ} {v : ν}
    (hnew : ¬ d.contains k' = true) (h : (d.set k v).contains k' = true) : k' = k := by
  by_contra hne
  exact hnew (by simpa only [Dict.contains, Dict.get?_set_of_ne _ _ hne] using h)

theorem Obtains.eq_paper (h : Obtains req w₀ w result r) {uuid : String} {p : Position}
    (hnew : w.engine.positions = w₀.engine.positions.set (PaperEngine.newPositionId uuid) p)
    (htrades : w.trades = w₀.trades) {venue : String}
    (hid : result.positionId = normalizePositionId venue (PaperEngine.newPositionId uuid)) :
    r = .paper (PaperEngine.newPositionId uuid) := by
  cases h with
  | remembered hidempotent hid' =>
      exact absurd (hid.symm.trans hid') (normalizePositionId_newPositionId_ne venue uuid _ _)
  | opened hclosed hopen =>
      cases r with
      | paper id =>
          simp only [World.IsOpen, hnew] at hclosed hopen
          rw [eq_of_contains_set hclosed hopen]
      | trade slot =>
          simp only [World.IsOpen, htrades] at hclosed hopen
          exact absurd hopen hclosed

theorem Obtains.eq_trade (h : Obtains req w₀ w result r) {slot : ℕ × ℕ} {t : OpenTradeInfo}
    (hengine : w.engine = w₀.engine) (hnew : w.trades = w₀.trades.set slot t)
    (hidempotent : w₀.ostium.idempotent req.clientOrderId = none) : r = .trade slot := by
  cases h with
  | remembered hidempotent' => cases hidempotent.symm.trans hidempotent'
  | opened hclosed hopen =>
      cases r with
      | paper id =>
          simp only [World.IsOpen, hengine] at hclosed hopen
          exact absurd hopen hclosed
      | trade slot' =>
          simp only [World.IsOpen, hnew] at hclosed hopen
          rw [eq_of_contains_set hclosed hopen]

theorem Obtains.eq_remembered (h : Obtains req w₀ w result r) (hengine : w.engine = w₀.engine)
    (htrades : w.trades = w₀.trades) :
    ∃ slot : ℕ × ℕ, r = .trade slot ∧
      result.positionId = OstiumAdapter.makePositionId slot.1 slot.2 := by
  cases h with
  | remembered hidempotent hid => exact ⟨_, rfl, hid⟩
  | opened hclosed hopen =>
      refine absurd ?_ hclosed
      cases r with
      | paper id => simpa only [World.IsOpen, hengine] using hopen
      | trade slot => simpa only [World.IsOpen, htrades] using hopen

/-- A sound world is sound after an open that the client fills on the pair asked for. -/
theorem sound_of_runOpen (hsound : w₀.Sound) {answers : List Answer}
    (hpair : ∀ a ∈ answers, a.OnPair req) {pc : OpenPc}
    (h : core.runOpen req w₀ answers = some (w, pc)) : w.Sound := by
  have hstart : (w₀, OpenPc.start).1.Sound ∧ SoundPc (w₀, OpenPc.start).2 := ⟨hsound, trivial⟩
  have hinv : (w, pc).1.Sound ∧ SoundPc (w, pc).2 := by
    refine Transition.exec_invariant_of_meets (I := fun s => s.1.Sound ∧ SoundPc s.2) ?_ hstart
      (Transition.meets_of_forall hpair _) h
    exact fun s a t hs ha hstep => (openStep_cases hstep).sound hs.1 ha hs.2
  exact hinv.1

/-- An order that reaches the paper adapter was routed to the paper venue. -/
theorem routed_to_paper (hwired : WiredByName core)
    (hvenue : req.venue = "paper" ∨ req.venue = "ostium") {venue : String}
    (hrouted : core.cfg.resolveEffectiveVenue req.venue req.symbol = venue)
    (hadapter : core.getAdapter venue = .ok .paper) : venue = "paper" := by
  subst hrouted
  rcases hvenue with h | h <;> rw [h] at hadapter ⊢
  · exact core.cfg.resolveEffectiveVenue_of_ne (by decide) req.symbol
  · rcases core.cfg.resolveEffectiveVenue_ostium req.symbol with heq | heq
    · rw [heq] at hadapter
      cases hwired.2 _ hadapter
    · exact heq

/-- An order that reaches the Ostium adapter named that venue. -/
theorem routed_to_ostium (hwired : WiredByName core)
    (hvenue : req.venue = "paper" ∨ req.venue = "ostium") {venue : String}
    (hrouted : core.cfg.resolveEffectiveVenue req.venue req.symbol = venue)
    (hadapter : core.getAdapter venue = .ok .ostium) :
    venue = "ostium" ∧ req.venue = "ostium" := by
  subst hrouted
  rcases hvenue with h | h <;> rw [h] at hadapter ⊢
  · rw [core.cfg.resolveEffectiveVenue_of_ne (by decide)] at hadapter
    cases hwired.1 _ hadapter
  · rcases core.cfg.resolveEffectiveVenue_ostium req.symbol with heq | heq
    · exact ⟨heq, rfl⟩
    · rw [heq] at hadapter
      cases hwired.1 _ hadapter

/-- An open that succeeds returns an identifier that closes the position it opened, by the venue
the client named, exactly when the order was not routed away from that venue and the client of
Ostium reported the index of the trade it opened.  The items of the positions response of the
venue always close the positions they stand for. -/
theorem opened_position_closes_iff (hwired : WiredByName core)
    (hvenue : req.venue = "paper" ∨ req.venue = "ostium") (hsound : w₀.Sound) {answers : List Answer}
    (hpair : ∀ a ∈ answers, a.OnPair req)
    (hrun : core.runOpen req w₀ answers = some (w, .done (.ok result)))
    (hsuccess : result.success = true) (hr : Obtains req w₀ w result r) :
    (core.Closes req.venue result.positionId r ∧ core.ListedCloses req.venue) ↔
      core.cfg.resolveEffectiveVenue req.venue req.symbol = req.venue ∧
        ∀ slot receipt, .openTrade (.opened slot receipt) ∈ answers →
          receipt.tradeIndex = slot.2 := by
  obtain ⟨venue, adapter, positionId, htarget, hid, hfills⟩ := returns_of_run hrun hsuccess
  obtain ⟨hguards, hrouted, hadapter⟩ := openTarget_eq_ok.1 htarget
  have hallowed : ClosingAllowed core := fun hlive => (liveGuards_eq_ok.1 hguards hlive).1
  have hsound' := sound_of_runOpen hsound hpair hrun
  have hlighter : req.venue ≠ "lighter" := by
    rcases hvenue with h | h <;> rw [h] <;> decide
  rw [and_iff_left (listedCloses hwired hallowed hvenue), hrouted]
  -- an open position is closed just if the adapter reads it off the identifier
  have hopened : w.IsOpen r → w.Serves r → (core.Closes req.venue result.positionId r ↔
      ∃ adapter, core.getAdapter req.venue = .ok adapter ∧ Names adapter result.positionId r) := by
    intro hopen hserves
    constructor
    · intro hcloses
      by_contra hnot
      exact not_closes hallowed hlighter (fun a ha hnames => hnot ⟨a, ha, hnames⟩) hsound' hserves
        hopen hcloses
    · rintro ⟨a, ha, hnames⟩
      exact closes_of_names hallowed hlighter ha hnames
  cases hfills with
  | paper uuid p hnew htrades hnone =>
      obtain rfl := hr.eq_paper hnew htrades hid
      obtain rfl := routed_to_paper hwired hvenue hrouted hadapter
      have hopen : w.IsOpen (.paper (PaperEngine.newPositionId uuid)) := by
        simp [World.IsOpen, hnew, Dict.contains]
      rw [hopened hopen trivial]
      rcases hvenue with h | h <;> rw [h]
      · refine ⟨fun _ => ⟨rfl, fun slot receipt hmem => absurd hmem (hnone slot receipt)⟩, fun _ =>
          ⟨.paper, hadapter, rfl, ?_⟩⟩
        rw [hid, internalId_normalizePositionId]
      · refine ⟨?_, fun hcond => absurd hcond.1 (by decide)⟩
        rintro ⟨a, ha, hnames⟩
        cases hnames.1.symm.trans (hwired.2 a ha)
  | trade slot receipt t hengine hnew hclient hidempotent hone =>
      obtain rfl := hr.eq_trade hengine hnew hidempotent
      obtain ⟨rfl, h⟩ := routed_to_ostium hwired hvenue hrouted hadapter
      have hopen : w.IsOpen (.trade slot) := by
        simp [World.IsOpen, hnew, Dict.contains]
      have hpairId : receipt.pairId = slot.1 := (hpair _ ((hone slot receipt).2 ⟨rfl, rfl⟩)).2
      -- the identifier has the index of the receipt, and the trade that of its slot
      have hparse : OstiumAdapter.parsePositionId result.positionId =
          .ok ((slot.1 : ℤ), (receipt.tradeIndex : ℤ)) := by
        rw [hid, normalizePositionId_makePositionId, OstiumAdapter.parsePositionId_makePositionId,
          hpairId]
      rw [hopened hopen hclient, h]
      constructor
      · rintro ⟨a, ha, hnames⟩
        refine ⟨rfl, fun slot' receipt' hmem => ?_⟩
        obtain ⟨rfl, rfl⟩ := (hone slot' receipt').1 hmem
        have hindex := Except.ok.inj (hparse.symm.trans hnames.2)
        simpa using hindex
      · rintro ⟨-, hindex⟩
        refine ⟨.ostium, hadapter, rfl, ?_⟩
        rw [hparse, hindex slot receipt ((hone slot receipt).2 ⟨rfl, rfl⟩)]
  | remembered positionId hengine htrades hidempotent hnone =>
      obtain ⟨slot, rfl, hslot⟩ := hr.eq_remembered hengine htrades
      obtain ⟨rfl, h⟩ := routed_to_ostium hwired hvenue hrouted hadapter
      refine iff_of_true ?_ ⟨h.symm, fun slot receipt hmem => absurd hmem (hnone slot receipt)⟩
      rw [h]
      refine closes_of_names hallowed (by decide) hadapter ⟨rfl, ?_⟩
      rw [hslot, OstiumAdapter.parsePositionId_makePositionId]

end

/-- The steps of an open at the paper venue. -/
def paperSteps : List Answer :=
  [.gate none, .listing (.ok []), .resume, .price (.ok 2), .engineOpen "" 0 "a", .resume,
    .listing (.ok [])]

/-- A service with the paper adapter only. -/
def paperOnly : TradingCore where
  cfg := {}
  adapterFactory := some fun venue => if venue = "paper" then some .paper else none

/-- The state after the start of the process, without an Ostium client. -/
def paperWorld : World where
  engine := PaperEngine.init 10000 5
  ostium := { client := none }
  trades := Dict.empty

theorem sound_paperWorld : paperWorld.Sound where
  engine :=
    { slippage_nonneg := by decide
      slippage_lt := by decide
      filed := fun _ _ h => by cases h
      named := fun _ _ h => by cases h
      closable := fun _ _ h => by cases h}
  known := fun _ _ h => by cases h
  slot := fun _ _ h => by cases h
  file := fun _ h => by cases h

theorem wiredByName_paperOnly : WiredByName paperOnly := by
  refine ⟨fun adapter h => ?_, fun adapter h => ?_⟩
  · exact (Except.ok.inj h).symm
  · cases h

/-- An order for the paper venue with the amounts of `eurusdOrder`. -/
def paperEurusd : OrderOpenRequest := paperOrder "EURUSD"

theorem not_isOpen_paperWorld (id : String) : ¬ paperWorld.IsOpen (.paper id) := by
  simp [World.IsOpen, paperWorld, PaperEngine.init, Dict.contains]

/-- What a client reads off the result of an open: whether it succeeded, and the identifier. -/
def returned? : OpenPc → Option (Bool × String)
  | .done (.ok result) => some (result.success, result.positionId)
  | _ => none

/-- An order at a service with the paper adapter only opens the position `paper_a`. -/
theorem runOpen_paperOnly (req : OrderOpenRequest)
    (hrun : (paperOnly.runOpen req paperWorld paperSteps).map
      (fun s => (s.1.engine.positions.contains "paper_a", returned? s.2)) =
        some (true, some (true, "paper:paper_a"))) :
    ∃ w result, paperOnly.runOpen req paperWorld paperSteps = some (w, .done (.ok result)) ∧
      result.success = true ∧ result.positionId = "paper:paper_a" ∧ w.IsOpen (.paper "paper_a") := by
  obtain ⟨⟨w, pc⟩, hpc, hs⟩ := Option.map_eq_some_iff.1 hrun
  obtain ⟨hopen, hreturned⟩ := Prod.mk.inj hs
  cases pc with
  | done outcome =>
      cases outcome with
      | ok result =>
          obtain ⟨hsuccess, hid⟩ := Prod.mk.inj (Option.some.inj hreturned)
          exact ⟨w, result, hpc, hsuccess, hid, hopen⟩
      | error e => cases hreturned
  | _ => cases hreturned

/-- A position opened at the paper venue can be closed there. -/
theorem opened_position_closes_paper :
    paperOnly.Closes "paper" "paper:paper_a" (.paper "paper_a") := by
  obtain ⟨w, result, hrun, hsuccess, hid, hopen⟩ :=
    runOpen_paperOnly paperEurusd (by decide)
  have hcond : ∀ slot receipt, Answer.openTrade (.opened slot receipt) ∈ paperSteps →
      receipt.tradeIndex = slot.2 := by
    simp [paperSteps]
  rw [← hid]
  exact ((opened_position_closes_iff wiredByName_paperOnly (Or.inl rfl) sound_paperWorld
    (by simp [paperSteps, Answer.OnPair]) hrun hsuccess
    (.opened (not_isOpen_paperWorld _) hopen)).2 ⟨rfl, hcond⟩).1

/-- An order for Ostium is routed to the paper venue and opens a position there; a close at Ostium
by the identifier it returned raises, and leaves the position open. -/
theorem routed_position_not_closed :
    ∃ w result, paperOnly.runOpen (eurusdOrder 100 (by norm_num)) paperWorld paperSteps =
        some (w, .done (.ok result)) ∧
      result.success = true ∧ result.positionId = "paper:paper_a" ∧
      ¬ paperWorld.IsOpen (.paper "paper_a") ∧ w.IsOpen (.paper "paper_a") ∧
      paperOnly.runClose ⟨"ostium", "paper:paper_a", 100, none, by norm_num, le_rfl⟩ w [.resume] =
        some (w, .done (.error (.venueNotConfigured "ostium" ["paper"]))) := by
  obtain ⟨w, result, hrun, hsuccess, hid, hopen⟩ :=
    runOpen_paperOnly (eurusdOrder 100 (by norm_num)) (by decide)
  refine ⟨w, result, hrun, hsuccess, hid, not_isOpen_paperWorld _, hopen, ?_⟩
  have htarget : paperOnly.closeTarget ⟨"ostium", "paper:paper_a", 100, none, by norm_num, le_rfl⟩ =
      .error (.venueNotConfigured "ostium" ["paper"]) := by
    decide
  rw [runClose, Transition.exec, closeStep, htarget]
  rfl

end TradingCore
