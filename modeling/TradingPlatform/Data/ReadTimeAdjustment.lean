import TradingPlatform.Base.GroupedSums
import TradingPlatform.Data.CorporateActions

/-! # Split adjustment at read time

`derive_split_adjusted_prices`: the timeline of a symbol has its price rows and its
split actions, grouped by date. Symbols and action types are brought to one
spelling by functions of the frame library, which are parameters.
-/

namespace TradingPlatform.Data

open Base

def splitAdjusted : String := "split_adjusted"

def availableReason : String := "split_adjusted_read_time_available"

def noSplitActionsReason : String := "split_adjusted_no_split_actions_in_scope"

def invalidSplitActionsSkippedReason : String := "split_adjusted_invalid_split_actions_skipped"

def supportedSplitCaTypes : List String :=
  ["forward_split", "forward_splits", "reverse_split", "reverse_splits", "split", "splits",
    "stock_split", "stock_splits", "unit_split", "unit_splits"]

/-- A row of `corporate_actions`; a date column that is missing is null. -/
structure SipAction where
  symbol : String
  caType : String
  exDate : Option Int
  processDate : Option Int
  oldRate : Option ℚ
  newRate : Option ℚ

/-- The derived columns beside the raw ones. -/
structure AdjustedRow where
  raw : OhlcvRow
  splitAdjustmentFactor : ℚ
  adjOpen : Option ℚ
  adjHigh : Option ℚ
  adjLow : Option ℚ
  adjClose : Option ℚ
  adjVolume : Option ℚ
  ret : Option ℚ

structure ReadTimeAdjustmentResult where
  frame : List AdjustedRow
  mode : String
  reasonCodes : List String
  splitActionCount : ℕ
  skippedActionCount : ℕ

/-- `ValueError("prices contain duplicate symbol/date rows: symbol=... date=...")` -/
structure DuplicateRows where
  symbol : String
  date : Int

structure TimelineRow where
  action : ActionRow
  isPriceRow : Bool

/-- Spelling of symbols (`strip_chars`, `to_uppercase`) and of action types (`strip_chars`,
`to_lowercase`, `replace_all`). -/
structure Spelling where
  symbol : String → String
  caType : String → String

/-- The rows of each symbol and date become one, by symbol and date. -/
def multiplyByDate (rows : List ActionRow) : List ActionRow :=
  sortByKey ActionRow.key ((groupKeys ActionRow.key rows).map fun k =>
    ⟨(ofLex k).1, (ofLex k).2, ((withKey ActionRow.key rows k).map (·.amount)).prod⟩)

def SipAction.isSplit (spelling : Spelling) (a : SipAction) : Bool :=
  spelling.caType a.caType ∈ supportedSplitCaTypes

def SipAction.toSplit (spelling : Spelling) (a : SipAction) : Option ActionRow :=
  match a.exDate.or a.processDate, a.oldRate, a.newRate with
  | some date, some oldRate, some newRate =>
      if 0 < oldRate ∧ 0 < newRate then
        some ⟨spelling.symbol a.symbol, date, newRate / oldRate⟩
      else none
  | _, _, _ => none

/-- The split actions and the number of those that are not valid. -/
def splitActions (spelling : Spelling) (corporateActions : List SipAction) :
    List ActionRow × ℕ :=
  let splits := corporateActions.filter (·.isSplit spelling)
  let validSplits := splits.filterMap (·.toSplit spelling)
  (multiplyByDate validSplits, splits.length - validSplits.length)

def timelineRows (prices : List OhlcvRow) (splits : List ActionRow) : List TimelineRow :=
  prices.map (fun r => ⟨⟨r.symbol, r.date, 1⟩, true⟩) ++ splits.map fun a => ⟨a, false⟩

def timeline (prices : List OhlcvRow) (splits : List ActionRow) : List TimelineRow :=
  let rows := timelineRows prices splits
  sortByKey (·.action.key) ((groupKeys (·.action.key) rows).map fun k =>
    let group := withKey (·.action.key) rows k
    ⟨⟨(ofLex k).1, (ofLex k).2, (group.map (·.action.amount)).prod⟩, group.any (·.isPriceRow)⟩)

def splitFactorFrame (prices : List OhlcvRow) (splits : List ActionRow) :
    List (SymbolDate × ℚ) :=
  let factors := overKey (fun t => t.action.symbol)
    (fun group => laterTotals (· * ·) 1 (group.map (·.action.amount))) (timeline prices splits)
  (factors.filter (·.1.isPriceRow)).map fun p => (p.1.action.key, p.2.getD 1)

def OhlcvRow.adjustBy (splitFactor : ℚ) (r : OhlcvRow) : AdjustedRow where
  raw := r
  splitAdjustmentFactor := splitFactor
  adjOpen := r.openPrice.map (· / splitFactor)
  adjHigh := r.high.map (· / splitFactor)
  adjLow := r.low.map (· / splitFactor)
  adjClose := r.close.map (· / splitFactor)
  adjVolume := r.volume.map (· * splitFactor)
  ret := none

def returnOn (prevAdjClose adjClose : Option ℚ) : Option ℚ :=
  match prevAdjClose with
  | some previous => if previous ≠ 0 then adjClose.map (· / previous - 1) else none
  | none => none

/-- The rows by symbol and date, with their returns, and back in the order of the input. -/
def withReturns (rows : List (AdjustedRow × ℕ)) : List AdjustedRow :=
  let sorted := sortByKey (·.1.raw.key) rows
  let shifted := overKey (fun p => p.1.raw.symbol)
    (fun group => shift none (group.map (·.1.adjClose))) sorted
  let returns := shifted.map fun p =>
    ({ p.1.1 with ret := returnOn (p.2.getD none) p.1.1.adjClose }, p.1.2)
  (sortByKey Prod.snd returns).map Prod.fst

def normalizePrices (spelling : Spelling) (prices : List OhlcvRow) : List OhlcvRow :=
  prices.map fun r => { r with symbol := spelling.symbol r.symbol }

def adjustedFrame (prices : List OhlcvRow) (splits : List ActionRow) : List AdjustedRow :=
  let joined := leftJoin (fun p : OhlcvRow × ℕ => p.1.key) Prod.fst Prod.snd 1 prices.zipIdx
    (splitFactorFrame prices splits)
  withReturns (joined.map fun p => (p.1.1.adjustBy p.2, p.1.2))

def deriveSplitAdjustedPrices (spelling : Spelling) (prices : List OhlcvRow)
    (corporateActions : List SipAction) : Except DuplicateRows ReadTimeAdjustmentResult :=
  if prices.isEmpty then .ok ⟨[], splitAdjusted, [noSplitActionsReason], 0, 0⟩
  else
    let normalized := normalizePrices spelling prices
    match (groupKeys OhlcvRow.key normalized).find? fun k =>
      1 < (withKey OhlcvRow.key normalized k).length with
    | some k => .error ⟨(ofLex k).1, (ofLex k).2⟩
    | none =>
        let (splits, skippedActionCount) := splitActions spelling corporateActions
        .ok {
          frame := adjustedFrame normalized splits
          mode := splitAdjusted
          reasonCodes :=
            (if skippedActionCount ≠ 0 then [invalidSplitActionsSkippedReason] else []) ++
              (if splits.isEmpty then [noSplitActionsReason] else []) ++ [availableReason]
          splitActionCount := splits.length
          skippedActionCount }

end TradingPlatform.Data
