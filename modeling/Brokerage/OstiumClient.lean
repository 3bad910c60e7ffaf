/-
**The Ostium clients.**

`OstiumClient` talks to the venue through its SDK and reads the trades of the trader from the
storage contract, slot by slot: pair and index address a slot, and a slot with collateral and open
price is an open trade.  After a trade was submitted its index is looked for by scanning the slots
of the pair, again and again until one is found.  `FakeOstiumClient` keeps the trades in memory
and numbers them itself.

A view of the storage is what the reads of one scan return; a read that raises is `none`.  The
views of successive scans may differ, since the venue shows a trade some time after its receipt.

Main definitions:

* `OstiumClient.findTradeIndexSync` — the scan for an open slot;
* `OstiumClient.openTrade` — submitting a trade and finding its index;
* `OstiumClient.getOpenTrades` — the list of open trades;
* `OstiumClient.viewAfterOpen` — the storage of a pair once a trade was opened there;
* `FakeOstiumClient.openTrade` — the same call of the client for tests.

Main results:

* `OstiumClient.findTradeIndexSync_eq_some` — the scan returns the least open index;
* `OstiumClient.openTrade_index_iff` — when the index returned is that of the trade just opened;
* `FakeOstiumClient.openTrade_index` — the test client always returns it.
-/

import Brokerage.Dict

set_option relaxedAutoImplicit false
set_option autoImplicit false

/-- The fields of a slot of the storage contract that the client reads. -/
structure TradeSlot where
  collateral : ℕ
  openPrice : ℕ
  tp : ℕ := 0
  sl : ℕ := 0
  leverage : ℕ := 0
  isLong : Bool := false
  deriving DecidableEq

/-- A slot holds an open trade. -/
def TradeSlot.isOpen (s : TradeSlot) : Bool := 0 < s.collateral && 0 < s.openPrice

/-- An open trade, as the clients report it. -/
structure OpenTradeInfo where
  pairId : ℕ
  tradeIndex : ℕ
  openPrice : ℚ
  tp : ℚ
  sl : ℚ
  collateral : ℚ
  leverage : ℚ
  isLong : Bool
  deriving DecidableEq

/-- What a client reports about a trade it opened. -/
structure OpenTradeReceipt where
  txHash : String
  pairId : ℕ
  tradeIndex : ℕ
  openPrice : ℚ
  deriving DecidableEq

/-- The exceptions a client raises when opening a trade. -/
inductive ClientError
  /-- `OstiumClient: no s'ha trobat trade actiu per pair_id={pairId}` -/
  | tradeNotFound (pairId : ℕ)
  /-- The simulated failure of the test client. -/
  | simulatedFailure
  deriving DecidableEq

namespace OstiumClient

/-- The indices `0, …, FIND_TRADE_MAX_INDEX - 1` are scanned. -/
def FIND_TRADE_MAX_INDEX : ℕ := 32

/-- The number of scans after a submission. -/
def SCAN_ATTEMPTS : ℕ := 7

/-- What the reads of one scan return: the slot at a pair and an index. -/
abbrev View := ℕ → ℕ → Option TradeSlot

/-- Whether a read returned an open trade. -/
def readsOpen (slot : Option TradeSlot) : Bool :=
  match slot with
  | some s => s.isOpen
  | none => false

/-- The first index below `maxIdx` whose slot reads as an open trade. -/
def findTradeIndexSync (view : View) (pairId : ℕ) (maxIdx : ℕ := FIND_TRADE_MAX_INDEX) : Option ℕ :=
  (List.range maxIdx).find? fun idx => readsOpen (view pairId idx)

/-- The scans after a submission: the first index found ends them. -/
def pollTradeIndex (views : ℕ → View) (pairId : ℕ) : Option ℕ :=
  (List.range SCAN_ATTEMPTS).findSome? fun attempt => findTradeIndexSync (views attempt) pairId

/-- The parameters of a submission. -/
structure TradeParams where
  collateral : ℚ
  leverage : ℕ
  assetType : ℕ
  direction : Bool
  tp : Option ℚ
  sl : Option ℚ
  deriving DecidableEq

/-- What is read off the receipt of a submission: the pair of its `OrderOpened` event, if it has
one. -/
structure PerformReceipt where
  txHash : String
  eventPairId : Option ℕ
  deriving DecidableEq

/-- The pair whose slots are scanned: that of the event, or the one that was asked for. -/
def PerformReceipt.foundPairId (receipt : PerformReceipt) (pairId : ℕ) : ℕ :=
  receipt.eventPairId.getD pairId

/-- The parameters of a submission; a trigger that is not positive is left out. -/
def tradeParams (pairId : ℕ) (isLong : Bool) (collateral : ℚ) (leverage : ℕ) (tpPrice slPrice : ℚ) :
    TradeParams where
  collateral := collateral
  leverage := leverage
  assetType := pairId
  direction := isLong
  tp := if tpPrice > 0 then some tpPrice else none
  sl := if slPrice > 0 then some slPrice else none

/-- Opening a trade.  `performTrade` submits it, and `views` are the views of the scans that
follow. -/
def openTrade (performTrade : TradeParams → ℚ → PerformReceipt) (views : ℕ → View) (pairId : ℕ)
    (isLong : Bool) (collateral : ℚ) (leverage : ℕ) (atPrice tpPrice slPrice : ℚ) :
    Except ClientError OpenTradeReceipt :=
  let receipt := performTrade (tradeParams pairId isLong collateral leverage tpPrice slPrice) atPrice
  let foundPairId := receipt.foundPairId pairId
  match pollTradeIndex views foundPairId with
  | none => .error (.tradeNotFound foundPairId)
  | some tradeIndex =>
      .ok { txHash := receipt.txHash, pairId := foundPairId, tradeIndex, openPrice := atPrice }

/-- The trade of a slot, with the amounts in units of the venue. -/
def infoOf (pairId idx : ℕ) (s : TradeSlot) : OpenTradeInfo where
  pairId := pairId
  tradeIndex := idx
  openPrice := s.openPrice / 10 ^ 18
  tp := s.tp / 10 ^ 18
  sl := s.sl / 10 ^ 18
  collateral := s.collateral / 10 ^ 6
  leverage := s.leverage
  isLong := s.isLong

/-- The open trades of some pairs. -/
def getOpenTrades (view : View) (pairIds : List ℕ) : List OpenTradeInfo :=
  pairIds.flatMap fun pairId => (List.range FIND_TRADE_MAX_INDEX).filterMap fun idx =>
    match view pairId idx with
    | some s => if s.isOpen then some (infoOf pairId idx s) else none
    | none => none

/-! ### The scan -/

/-- The scan returns the least open index. -/
theorem findTradeIndexSync_eq_some {view : View} {pairId maxIdx idx : ℕ} :
    findTradeIndexSync view pairId maxIdx = some idx ↔
      idx < maxIdx ∧ readsOpen (view pairId idx) = true ∧
        ∀ j < idx, readsOpen (view pairId j) = false := by
  rw [findTradeIndexSync, List.find?_range_eq_some]
  simp only [List.mem_range, Bool.not_eq_eq_eq_not, Bool.not_true]
  tauto

theorem findTradeIndexSync_eq_none {view : View} {pairId maxIdx : ℕ} :
    findTradeIndexSync view pairId maxIdx = none ↔
      ∀ j < maxIdx, readsOpen (view pairId j) = false := by
  rw [findTradeIndexSync, List.find?_range_eq_none]
  simp

/-- Scans that find nothing are repeated, the first that finds something decides. -/
theorem pollTradeIndex_eq_some {views : ℕ → View} {pairId idx attempt : ℕ}
    (hattempt : attempt < SCAN_ATTEMPTS)
    (hbefore : ∀ k < attempt, findTradeIndexSync (views k) pairId = none)
    (hfound : findTradeIndexSync (views attempt) pairId = some idx) :
    pollTradeIndex views pairId = some idx := by
  obtain ⟨rest, hrest⟩ : ∃ rest, SCAN_ATTEMPTS = attempt + 1 + rest :=
    ⟨SCAN_ATTEMPTS - attempt - 1, by omega⟩
  rw [pollTradeIndex, hrest, List.findSome?_eq_some_iff]
  refine ⟨List.range attempt, attempt, (List.range rest).map (attempt + 1 + ·), ?_, hfound, ?_⟩
  · rw [List.range_add, List.range_succ, List.append_assoc, List.singleton_append]
  · intro k hk
    exact hbefore k (List.mem_range.1 hk)

/-! ### The index of a trade just opened -/

/-- The view of a scan that follows the opening of a trade: the slots of the pair are those of
before, and from scan number `delay` on the slot `newIdx` holds the new trade. -/
def viewAfterOpen (before : ℕ → ℕ → TradeSlot) (pairId newIdx : ℕ) (trade : TradeSlot)
    (delay attempt : ℕ) : View := fun p idx =>
  if delay ≤ attempt ∧ p = pairId ∧ idx = newIdx then some trade else some (before p idx)

section AfterOpen

variable {before : ℕ → ℕ → TradeSlot} {pairId newIdx : ℕ} {trade : TradeSlot} {delay attempt : ℕ}

theorem readsOpen_viewAfterOpen_of_ne {idx : ℕ} (h : idx ≠ newIdx) :
    readsOpen (viewAfterOpen before pairId newIdx trade delay attempt pairId idx) =
      (before pairId idx).isOpen := by
  simp [viewAfterOpen, h, readsOpen]

theorem readsOpen_viewAfterOpen_of_lt (idx : ℕ) (h : attempt < delay) :
    readsOpen (viewAfterOpen before pairId newIdx trade delay attempt pairId idx) =
      (before pairId idx).isOpen := by
  have hd : ¬ delay ≤ attempt := by omega
  simp [viewAfterOpen, hd, readsOpen]

theorem readsOpen_viewAfterOpen_self (h : delay ≤ attempt) :
    readsOpen (viewAfterOpen before pairId newIdx trade delay attempt pairId newIdx) =
      trade.isOpen := by
  simp [viewAfterOpen, h, readsOpen]

/-- As soon as one scan sees an open trade of before at or below every other, that trade is
returned. -/
theorem pollTradeIndex_viewAfterOpen_eq_old (hfree : (before pairId newIdx).isOpen = false)
    {old : ℕ} (hold : (before pairId old).isOpen = true) (hmax : old < FIND_TRADE_MAX_INDEX)
    (hsees : 0 < delay ∨ old < newIdx) :
    pollTradeIndex (viewAfterOpen before pairId newIdx trade delay) pairId ≠ some newIdx := by
  intro hpoll
  -- the first scan already finds something at or below `old`
  have hread : readsOpen (viewAfterOpen before pairId newIdx trade delay 0 pairId old) = true := by
    rw [readsOpen_viewAfterOpen_of_ne, hold]
    rintro rfl
    rw [hfree] at hold
    cases hold
  cases hscan : findTradeIndexSync (viewAfterOpen before pairId newIdx trade delay 0) pairId with
  | none => rw [findTradeIndexSync_eq_none.1 hscan old hmax] at hread; cases hread
  | some idx =>
      have hfirst : pollTradeIndex (viewAfterOpen before pairId newIdx trade delay) pairId = some idx :=
        pollTradeIndex_eq_some (by decide : 0 < SCAN_ATTEMPTS) (by intro k hk; omega) hscan
      rw [hfirst, Option.some_inj] at hpoll
      obtain ⟨-, hopen, hleast⟩ := findTradeIndexSync_eq_some.1 hscan
      rcases hsees with hdelay | hlt
      · rw [readsOpen_viewAfterOpen_of_lt _ hdelay, hpoll, hfree] at hopen
        cases hopen
      · rw [hleast old (by omega)] at hread
        cases hread

/-- When the polling returns the index of the new trade: no trade was open on the pair, or the
first scan sees the new one below all others. -/
theorem pollTradeIndex_viewAfterOpen_iff (htrade : trade.isOpen = true)
    (hfree : (before pairId newIdx).isOpen = false)
    (hbelow : ∀ idx, (before pairId idx).isOpen = true → idx < FIND_TRADE_MAX_INDEX)
    (hdelay : delay < SCAN_ATTEMPTS) :
    pollTradeIndex (viewAfterOpen before pairId newIdx trade delay) pairId = some newIdx ↔
      newIdx < FIND_TRADE_MAX_INDEX ∧
        ((∀ idx, (before pairId idx).isOpen = false) ∨
          (delay = 0 ∧ ∀ idx, (before pairId idx).isOpen = true → newIdx < idx)) := by
  constructor
  · intro hpoll
    constructor
    · -- an index that is returned was scanned
      obtain ⟨attempt, -, hscan⟩ := List.exists_of_findSome?_eq_some hpoll
      exact (findTradeIndexSync_eq_some.1 hscan).1
    · by_cases hnone : ∀ idx, (before pairId idx).isOpen = false
      · exact Or.inl hnone
      · right
        simp only [not_forall, Bool.not_eq_false] at hnone
        obtain ⟨old, hold⟩ := hnone
        constructor
        · by_contra hpos
          exact pollTradeIndex_viewAfterOpen_eq_old hfree hold (hbelow old hold)
            (Or.inl (Nat.pos_of_ne_zero hpos)) hpoll
        · intro idx hidx
          by_contra hle
          have hne : idx ≠ newIdx := by
            rintro rfl
            rw [hfree] at hidx
            cases hidx
          exact pollTradeIndex_viewAfterOpen_eq_old hfree hidx (hbelow idx hidx)
            (Or.inr (by omega)) hpoll
  · rintro ⟨hmax, hnone | ⟨rfl, hleast⟩⟩
    · refine pollTradeIndex_eq_some hdelay ?_ (findTradeIndexSync_eq_some.2 ⟨hmax, ?_, ?_⟩)
      · intro k hk
        rw [findTradeIndexSync_eq_none]
        intro j _
        rw [readsOpen_viewAfterOpen_of_lt j hk, hnone]
      · rw [readsOpen_viewAfterOpen_self le_rfl, htrade]
      · intro j hj
        rw [readsOpen_viewAfterOpen_of_ne (by omega), hnone]
    · refine pollTradeIndex_eq_some hdelay (by intro k hk; omega)
        (findTradeIndexSync_eq_some.2 ⟨hmax, ?_, ?_⟩)
      · rw [readsOpen_viewAfterOpen_self le_rfl, htrade]
      · intro j hj
        rw [readsOpen_viewAfterOpen_of_ne (by omega), Bool.eq_false_iff]
        intro hopen
        have := hleast j hopen
        omega

/-- When the index returned by `openTrade` is that of the trade just opened.  The venue stores the
trade under the pair that `openTrade` looks at, at an index that was free, and shows it to one of
the scans. -/
theorem openTrade_index_iff {performTrade : TradeParams → ℚ → PerformReceipt} {askedPairId : ℕ}
    {isLong : Bool} {collateral : ℚ} {leverage : ℕ} {atPrice tpPrice slPrice : ℚ}
    (hpair : (performTrade (tradeParams askedPairId isLong collateral leverage tpPrice slPrice)
      atPrice).foundPairId askedPairId = pairId)
    (htrade : trade.isOpen = true) (hfree : (before pairId newIdx).isOpen = false)
    (hbelow : ∀ idx, (before pairId idx).isOpen = true → idx < FIND_TRADE_MAX_INDEX)
    (hdelay : delay < SCAN_ATTEMPTS) :
    (∃ receipt, openTrade performTrade (viewAfterOpen before pairId newIdx trade delay) askedPairId
        isLong collateral leverage atPrice tpPrice slPrice = .ok receipt ∧
        receipt.tradeIndex = newIdx) ↔
      newIdx < FIND_TRADE_MAX_INDEX ∧
        ((∀ idx, (before pairId idx).isOpen = false) ∨
          (delay = 0 ∧ ∀ idx, (before pairId idx).isOpen = true → newIdx < idx)) := by
  rw [← pollTradeIndex_viewAfterOpen_iff htrade hfree hbelow hdelay]
  simp only [openTrade, hpair]
  cases pollTradeIndex (viewAfterOpen before pairId newIdx trade delay) pairId with
  | none => simp
  | some idx => simp

end AfterOpen

/-- A slot holding a trade. -/
def someTrade : TradeSlot := { collateral := 100, openPrice := 1, leverage := 5, isLong := true }

/-- The storage of a trader with one open trade, at index `idx` of the pair. -/
def storageWith (pairId idx : ℕ) : ℕ → ℕ → TradeSlot := fun p i =>
  if p = pairId ∧ i = idx then someTrade else { collateral := 0, openPrice := 0 }

/-- With a trade open at index 0, the trade opened at index 1 is reported under index 0. -/
theorem openTrade_returns_older_trade :
    openTrade (fun _ _ => ⟨"0xabc", some 2⟩) (viewAfterOpen (storageWith 2 0) 2 1 someTrade 0) 2 true
        100 5 1 0 0 = .ok { txHash := "0xabc", pairId := 2, tradeIndex := 0, openPrice := 1 } ∧
      (storageWith 2 0 2 0).isOpen = true ∧ (storageWith 2 0 2 1).isOpen = false := by
  decide

/-- With a trade open at index 3, the trade opened at index 0 and seen at once is reported. -/
theorem openTrade_index_iff_below :
    ∃ receipt, openTrade (fun _ _ => ⟨"0xabc", none⟩)
      (viewAfterOpen (storageWith 2 3) 2 0 someTrade 0) 2 true 100 5 1 0 0 = .ok receipt ∧
      receipt.tradeIndex = 0 := by
  have hopen : ∀ idx, (storageWith 2 3 2 idx).isOpen = true → idx = 3 := by
    intro idx h
    by_contra hne
    simp [storageWith, hne, TradeSlot.isOpen] at h
  refine (openTrade_index_iff rfl (by decide) (by decide) ?_ (by decide)).2
    ⟨by decide, Or.inr ⟨rfl, ?_⟩⟩
  · intro idx h
    rw [hopen idx h]
    decide
  · intro idx h
    rw [hopen idx h]
    decide

end OstiumClient

/-! ### The test client -/

/-- The test client: its trades, and the next index of each pair. -/
structure FakeOstiumClient where
  midPrice : ℚ := 217 / 200
  openShouldFail : Bool := false
  trades : Dict (ℕ × ℕ) OpenTradeInfo := Dict.empty
  nextIndex : Dict ℕ ℕ := Dict.empty
  nextTx : ℕ := 0

namespace FakeOstiumClient

/-- The transaction hash with a given number: the number in hexadecimal, on 64 digits. -/
def genTx (n : ℕ) : String := "0xfake" ++ String.ofList (List.leftpad 64 '0' (Nat.toDigits 16 n))

/-- Opening a trade: it is stored under the next index of the pair, which is returned. -/
def openTrade (c : FakeOstiumClient) (pairId : ℕ) (isLong : Bool) (collateral : ℚ) (leverage : ℕ)
    (atPrice tpPrice slPrice : ℚ) : Except ClientError OpenTradeReceipt × FakeOstiumClient :=
  if c.openShouldFail then
    (.error .simulatedFailure, c)
  else
    let tradeIndex := (c.nextIndex.get? pairId).getD 0
    let trade : OpenTradeInfo := {
      pairId, tradeIndex, openPrice := atPrice, tp := tpPrice, sl := slPrice, collateral
      leverage := leverage, isLong }
    (.ok { txHash := genTx (c.nextTx + 1), pairId, tradeIndex, openPrice := atPrice },
      { c with
        nextIndex := c.nextIndex.set pairId (tradeIndex + 1)
        trades := c.trades.set (pairId, tradeIndex) trade
        nextTx := c.nextTx + 1 })

/-- Every stored trade has an index below the next one of its pair. -/
def Numbered (c : FakeOstiumClient) : Prop :=
  ∀ pairId idx, (pairId, idx) ∈ c.trades.keys → idx < (c.nextIndex.get? pairId).getD 0

/-- The index the test client returns is that of the trade it stored, and was free before. -/
theorem openTrade_index {c c' : FakeOstiumClient} (hc : c.Numbered) {pairId : ℕ} {isLong : Bool}
    {collateral : ℚ} {leverage : ℕ} {atPrice tpPrice slPrice : ℚ} {receipt : OpenTradeReceipt}
    (h : c.openTrade pairId isLong collateral leverage atPrice tpPrice slPrice =
      (.ok receipt, c')) :
    (pairId, receipt.tradeIndex) ∉ c.trades.keys ∧
      (pairId, receipt.tradeIndex) ∈ c'.trades.keys ∧ c'.Numbered := by
  unfold openTrade at h
  split at h
  · cases h
  · simp only [Prod.mk.injEq, Except.ok.injEq] at h
    obtain ⟨rfl, rfl⟩ := h
    refine ⟨fun hmem => lt_irrefl _ (hc _ _ hmem), Dict.mem_keys_set.2 (Or.inl rfl), ?_⟩
    intro p idx hmem
    simp only [Dict.get?_set]
    rcases Dict.mem_keys_set.1 hmem with heq | hold
    · obtain ⟨rfl, rfl⟩ := Prod.mk.injEq .. ▸ heq
      simp
    · have hlt := hc p idx hold
      split
      · rename_i hp
        subst hp
        simpa using Nat.lt_succ_of_lt hlt
      · exact hlt

end FakeOstiumClient
