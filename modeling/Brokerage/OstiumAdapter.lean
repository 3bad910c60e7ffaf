/-
**The Ostium execution adapter: identifiers, listing and the idempotency file.**

The adapter names a position by `ostium:{pair_id}:{trade_index}`, lists the open positions from
the trades its client reports, and remembers in a file which position was opened for which client
order id.  This module has the parts of the adapter that do not wait for anything; the calls that
do are stepped through in `TradingCore`.

Main definitions:

* `OstiumAdapter` — the state of the adapter;
* `OstiumAdapter.makePositionId`, `OstiumAdapter.parsePositionId` — position identifiers;
* `OstiumAdapter.getOpenPositions` — the open positions, from the answer of the client;
* `OstiumAdapter.loadIdempotencyMap`, `OstiumAdapter.saveIdempotencyEntry` — the file.

Main results:

* `OstiumAdapter.parsePositionId_makePositionId` — an identifier is read back;
* `OstiumAdapter.getOpenPositions_of_error` — what becomes of a failed listing;
* `OstiumAdapter.idempotent_save` — an entry that was saved is found.
-/

import Brokerage.LiveGuards
import Brokerage.OstiumClient

set_option relaxedAutoImplicit false
set_option autoImplicit false

/-- The types of client, which the adapter tells apart by their name. -/
inductive ClientKind
  | ostiumClient
  | fakeOstiumClient
  deriving DecidableEq

/-- The state of the adapter: its client, if it was started, and the lines of its file. -/
structure OstiumAdapter where
  client : Option ClientKind
  idempotencyFile : List (String × String) := []
  deriving DecidableEq

namespace OstiumAdapter

/-! ### Symbols and pairs -/

/-- The pair of each symbol. -/
def SYMBOL_TO_PAIR_ID : List (String × ℕ) :=
  [("EURUSD", 2), ("XAUUSD", 1), ("BTCUSD", 0), ("ETHUSD", 3), ("GBPUSD", 4), ("GBPJPY", 5),
    ("USDJPY", 6), ("USDCHF", 7), ("AUDUSD", 8), ("USDCAD", 9)]

/-- The base and the quote of each pair. -/
def PAIR_ID_TO_BASE_QUOTE : List (ℕ × String × String) :=
  [(0, "BTC", "USD"), (1, "XAU", "USD"), (2, "EUR", "USD"), (3, "ETH", "USD"), (4, "GBP", "USD"),
    (5, "GBP", "JPY"), (6, "USD", "JPY"), (7, "USD", "CHF"), (8, "AUD", "USD"), (9, "USD", "CAD")]

/-- The pairs whose trades are listed. -/
def KNOWN_PAIR_IDS : List ℕ := SYMBOL_TO_PAIR_ID.map Prod.snd

/-- The pair of a symbol, if it is known, in any (ASCII) letter case. -/
def pairOf (symbol : String) : Option ℕ := SYMBOL_TO_PAIR_ID.lookup (Text.upper symbol)

/-- The symbol of a pair. -/
def symbolOf (pairId : ℕ) : String :=
  match SYMBOL_TO_PAIR_ID.find? fun e => e.2 = pairId with
  | some e => e.1
  | none => "OSTIUM_" ++ toString pairId

/-- Whether a pair that was read off an identifier has a price. -/
def hasPrice (pairId : ℤ) : Bool := PAIR_ID_TO_BASE_QUOTE.any fun e => (e.1 : ℤ) = pairId

theorem hasPrice_of_mem {pairId : ℕ} (h : pairId ∈ KNOWN_PAIR_IDS) : hasPrice pairId = true := by
  have hall : ∀ p ∈ KNOWN_PAIR_IDS, hasPrice p = true := by decide
  exact hall pairId h

/-! ### Position identifiers -/

/-- The identifier of a trade. -/
def makePositionId (pairId tradeIndex : ℕ) : String :=
  "ostium:" ++ (toString pairId ++ ":" ++ toString tradeIndex)

/-- An identifier without the prefix of the venue, in any letter case. -/
def withoutPrefix (pid : String) : String :=
  if Text.startsWith (Text.lower pid) "ostium:" then Text.dropChars 7 pid else pid

/-- The first two of the pieces of an identifier, as numbers. -/
def readPair (positionId : String) (parts : List String) : Except CoreError (ℤ × ℤ) :=
  match parts with
  | first :: second :: _ =>
      match Text.toInt? first, Text.toInt? second with
      | some pairId, some tradeIndex => .ok (pairId, tradeIndex)
      | _, _ => .error (.venueApi (.unreadablePositionId positionId))
  | _ => .error (.venueApi (.invalidPositionId positionId))

/-- The pair and the index in an identifier, with or without the prefix. -/
def parsePositionId (positionId : String) : Except CoreError (ℤ × ℤ) :=
  readPair positionId (Text.splitColon (withoutPrefix (Text.strip positionId)))

theorem isSpace_of_mem_makePositionId {pairId tradeIndex : ℕ} {c : Char}
    (h : c ∈ (makePositionId pairId tradeIndex).toList) : Text.isSpace c = false := by
  simp only [makePositionId, String.toList_append, List.mem_append] at h
  rcases h with hpre | (hpair | hcolon) | hindex
  · have hall : ("ostium:".toList.all fun c => !Text.isSpace c) = true := by decide
    simpa using List.all_eq_true.1 hall c hpre
  · exact Text.isSpace_of_isDigit (Text.isDigit_of_mem_toString hpair)
  · have hall : (":".toList.all fun c => !Text.isSpace c) = true := by decide
    simpa using List.all_eq_true.1 hall c hcolon
  · exact Text.isSpace_of_isDigit (Text.isDigit_of_mem_toString hindex)

theorem withoutPrefix_makePositionId (pairId tradeIndex : ℕ) :
    withoutPrefix (makePositionId pairId tradeIndex) =
      toString pairId ++ ":" ++ toString tradeIndex := by
  have hlower : Text.lower "ostium:" = "ostium:" := by decide
  rw [withoutPrefix, makePositionId, Text.lower_append, hlower, Text.startsWith_append, if_pos rfl,
    Text.dropChars_append (by decide)]

/-- An identifier is read back. -/
theorem parsePositionId_makePositionId (pairId tradeIndex : ℕ) :
    parsePositionId (makePositionId pairId tradeIndex) = .ok ((pairId : ℤ), (tradeIndex : ℤ)) := by
  have hstrip : Text.strip (makePositionId pairId tradeIndex) = makePositionId pairId tradeIndex :=
    Text.strip_of_isSpace fun _ hc => isSpace_of_mem_makePositionId hc
  have hsplit : Text.splitColon (toString pairId ++ ":" ++ toString tradeIndex) =
      [toString pairId, toString tradeIndex] := by
    rw [Text.splitColon_append (Text.colon_not_mem_toString pairId),
      Text.splitColon_of_not_mem (Text.colon_not_mem_toString tradeIndex)]
  rw [parsePositionId, hstrip, withoutPrefix_makePositionId, hsplit]
  simp only [readPair, Text.toInt?_toString]

/-- An identifier of the adapter is not one of the paper venue. -/
theorem contains_colon_makePositionId (pairId tradeIndex : ℕ) :
    ':' ∈ (makePositionId pairId tradeIndex).toList := by
  simp [makePositionId]

/-! ### Listing -/

/-- The position of a reported trade. -/
def positionOf (trade : OpenTradeInfo) : Position where
  pairId := trade.pairId
  tradeIndex := trade.tradeIndex
  symbol := symbolOf trade.pairId
  isLong := trade.isLong
  collateral := trade.collateral
  leverage := trade.leverage
  openPrice := trade.openPrice
  currentPrice := trade.openPrice
  slPrice := if trade.sl > 0 then some trade.sl else none
  tpPrice := if trade.tp > 0 then some trade.tp else none
  venuePositionId := some (makePositionId trade.pairId trade.tradeIndex)

/-- The open positions.  `getOpenTrades` is the answer of the client: the list of trades or the
text of an exception.  The exception of a test client leaves the method, that of any other client
is logged and read as an empty list. -/
def getOpenPositions (a : OstiumAdapter) (getOpenTrades : Except String (List OpenTradeInfo)) :
    Except CoreError (List Position) :=
  match a.client with
  | none => .ok []
  | some .fakeOstiumClient =>
      match getOpenTrades with
      | .error text => .error (.raised text)
      | .ok trades => .ok (trades.map positionOf)
  | some .ostiumClient =>
      match getOpenTrades with
      | .error _ => .ok []
      | .ok trades => .ok (trades.map positionOf)

/-- A failed listing is raised with a test client, and is the empty list otherwise. -/
theorem getOpenPositions_of_error (a : OstiumAdapter) (text : String) :
    a.getOpenPositions (.error text) =
      if a.client = some .fakeOstiumClient then .error (.raised text) else .ok [] := by
  unfold getOpenPositions
  rcases a.client with _ | _ | _ <;> simp

/-- A listed position is that of a reported trade. -/
theorem mem_getOpenPositions {a : OstiumAdapter} {trades : List OpenTradeInfo}
    {positions : List Position} (h : a.getOpenPositions (.ok trades) = .ok positions) {p : Position}
    (hp : p ∈ positions) : p ∈ trades.map positionOf := by
  unfold getOpenPositions at h
  split at h <;> cases h
  · cases hp
  · exact hp
  · exact hp

/-! ### The idempotency file -/

/-- The position of each client order id in the file; a later line replaces an earlier one. -/
def loadIdempotencyMap (a : OstiumAdapter) : Dict String String :=
  a.idempotencyFile.foldl (fun d line => d.set line.1 line.2) Dict.empty

/-- Adding a line to the file. -/
def saveIdempotencyEntry (a : OstiumAdapter) (clientOrderId positionId : String) : OstiumAdapter :=
  { a with idempotencyFile := a.idempotencyFile ++ [(clientOrderId, positionId)] }

/-- The position remembered for the client order id of a request, if it has one. -/
def idempotent (a : OstiumAdapter) (clientOrderId : Option String) : Option String :=
  match clientOrderId with
  | none => none
  | some cid => if cid = "" then none else a.loadIdempotencyMap.get? cid

/-- An entry that was saved is found, and no other one is affected. -/
theorem loadIdempotencyMap_save (a : OstiumAdapter) (cid positionId cid' : String) :
    (a.saveIdempotencyEntry cid positionId).loadIdempotencyMap.get? cid' =
      if cid' = cid then some positionId else a.loadIdempotencyMap.get? cid' := by
  simp only [loadIdempotencyMap, saveIdempotencyEntry, List.foldl_append, List.foldl_cons,
    List.foldl_nil, Dict.get?_set]

theorem idempotent_save {cid : String} (h : cid ≠ "") (a : OstiumAdapter) (positionId : String) :
    (a.saveIdempotencyEntry cid positionId).idempotent (some cid) = some positionId := by
  simp only [idempotent, if_neg h, loadIdempotencyMap_save, if_true]

end OstiumAdapter
