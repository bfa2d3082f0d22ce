import TradingPlatform.Base.Calendar
import TradingPlatform.Base.LastRow
import TradingPlatform.Base.Table
import Mathlib.Data.Prod.Lex
import Mathlib.Data.List.Dedup
import Mathlib.Data.String.Basic

/-! # The historical ETL

Daily prices in one file a year, and a progress file with the last date of each
symbol. A full run replaces the files of its years, an incremental run merges what
it fetches into them. Files are replaced in one step, and a run that is cut short
leaves the files it has written. The fetcher is a parameter of each run.
-/

namespace TradingPlatform.Data

open Base

variable {V : Type*}

/-- A row, with the columns besides the primary key as its values. -/
structure PriceRow (V : Type*) where
  date : ℤ
  symbol : String
  values : V
  deriving DecidableEq, Repr

/-- `PRIMARY_KEYS` -/
def PriceRow.key (row : PriceRow V) : ℤ ×ₗ String := toLex (row.date, row.symbol)

def PriceRow.year (row : PriceRow V) : ℤ := yearOf row.date

/-- `DEFAULT_START_DATE`, the first of January 2000. -/
def defaultStartDate : ℤ := newYear 2000

/-- An entry of `symbol_last_dates`, by what `date.fromisoformat` makes of it. -/
inductive SavedDate where
  | date (day : ℤ)
  | invalid (text : String)
  deriving DecidableEq, Repr

inductive EtlStatus where
  | running | paused | completed | failed
  deriving DecidableEq, Repr

structure EtlProgress where
  symbolLastDates : String → Option SavedDate
  yearsCompleted : List ℤ
  yearsRemaining : List ℤ
  status : EtlStatus

inductive ProgressFile where
  | missing
  | corrupted
  | saved (progress : EtlProgress)

structure Partition (V : Type*) where
  year : ℤ
  rows : List (PriceRow V)
  deriving DecidableEq, Repr

structure EtlStore (V : Type*) where
  partitions : Table ℤ (Partition V) Partition.year
  progress : ProgressFile

/-- `get_daily_prices`, of symbols from a first to a last date. -/
abbrev Fetch (V : Type*) := List String → ℤ → ℤ → List (PriceRow V)

/-! ## Partitions and progress -/

/-- `_validate_partition`: the primary keys are unique. -/
def validatePartition (rows : List (PriceRow V)) : Bool :=
  (uniqueFirst PriceRow.key rows).length = rows.length

def EtlStore.partition (store : EtlStore V) (year : ℤ) : Option (List (PriceRow V)) :=
  (store.partitions.find? year).map Partition.rows

/-- `_atomic_write_with_quarantine` -/
def EtlStore.write (store : EtlStore V) (year : ℤ) (rows : List (PriceRow V)) : EtlStore V :=
  { store with partitions := store.partitions.upsert ⟨year, rows⟩ }

/-- The rows that `_merge_partition_deterministic` writes. By `_source` and `_seq`, both
descending, the rows with one key are in the reverse order of the concatenation. -/
def mergedRows (existing : Option (List (PriceRow V))) (newDf : List (PriceRow V)) :
    List (PriceRow V) :=
  match existing with
  | some existingDf =>
      sortByKey PriceRow.key
        (uniqueFirst PriceRow.key (sortByKey PriceRow.key (existingDf ++ newDf).reverse))
  | none => sortByKey PriceRow.key (uniqueLast PriceRow.key newDf)

/-- `_merge_partition_deterministic`; the merged rows pass the validation. -/
def EtlStore.mergePartition (store : EtlStore V) (year : ℤ) (newDf : List (PriceRow V)) :
    EtlStore V :=
  store.write year (mergedRows (store.partition year) newDf)

/-- `_load_etl_progress`. A corrupted file is moved away. -/
def EtlStore.loadProgress (store : EtlStore V) : Option EtlProgress × EtlStore V :=
  match store.progress with
  | .missing => (none, store)
  | .corrupted => (none, { store with progress := .missing })
  | .saved progress => (some progress, store)

/-- `_save_etl_progress` -/
def EtlStore.saveProgress (store : EtlStore V) (progress : EtlProgress) : EtlStore V :=
  { store with progress := .saved progress }

/-- `_parse_symbol_dates` -/
def parseSymbolDates (today : ℤ) (progress : Option EtlProgress) (symbol : String) : Option ℤ :=
  match progress.bind fun p => p.symbolLastDates symbol with
  | some (.date day) => some (min day today)
  | _ => none

/-- The latest date of a symbol in the rows, but not after today. -/
def maxDate (today : ℤ) (rows : List (PriceRow V)) (symbol : String) : Option ℤ :=
  (((rows.filter fun r => r.symbol = symbol).map PriceRow.date).max?).map fun d => min d today

/-! ## Incremental runs -/

structure IncrementalCall (V : Type*) where
  symbols : List String
  today : ℤ
  fetch : Fetch V

/-- Each symbol to fetch with its first date. -/
def fetchStarts (lastDates : String → Option ℤ) (symbols : List String) (today : ℤ) :
    List (ℤ × String) :=
  symbols.filterMap fun symbol =>
    let last := (lastDates symbol).getD defaultStartDate
    if last ≥ today then none else some (last + 1, symbol)

/-- `date_to_symbols` -/
def dateToSymbols (starts : List (ℤ × String)) : List (ℤ × List String) :=
  (starts.map Prod.fst).dedup.map fun start =>
    (start, (starts.filter fun s => s.1 = start).map Prod.snd)

/-- `combined_df`, after the filter on future dates. -/
def IncrementalCall.combined (call : IncrementalCall V) (lastDates : String → Option ℤ) :
    List (PriceRow V) :=
  ((dateToSymbols (fetchStarts lastDates call.symbols call.today)).flatMap fun batch =>
    call.fetch batch.2 batch.1 call.today).filter fun r => r.date ≤ call.today

def affectedYears (rows : List (PriceRow V)) : List ℤ := (rows.map PriceRow.year).dedup

def EtlStore.mergeYears (store : EtlStore V) (combined : List (PriceRow V)) (years : List ℤ) :
    EtlStore V :=
  years.foldl (fun store year =>
    store.mergePartition year (combined.filter fun r => r.year = year)) store

/-- `symbol_last_dates` after the run. -/
def IncrementalCall.cursors (call : IncrementalCall V) (lastDates : String → Option ℤ)
    (symbol : String) : Option ℤ :=
  if symbol ∈ (fetchStarts lastDates call.symbols call.today).map Prod.snd then
    match maxDate call.today (call.combined lastDates) symbol with
    | some date => some date
    | none => lastDates symbol
  else lastDates symbol

/-- The progress that the run saves. -/
def IncrementalCall.nextProgress (call : IncrementalCall V) (progress : Option EtlProgress) :
    EtlProgress where
  symbolLastDates := fun symbol =>
    (call.cursors (parseSymbolDates call.today progress) symbol).map SavedDate.date
  yearsCompleted := (progress.map EtlProgress.yearsCompleted).getD []
  yearsRemaining := (progress.map EtlProgress.yearsRemaining).getD []
  status := .completed

/-- `run_incremental_etl`. Where nothing is left after the filter, as where nothing is to be
fetched or was fetched, it returns early. -/
def EtlStore.runIncremental (store : EtlStore V) (call : IncrementalCall V) : EtlStore V :=
  let (progress, store) := store.loadProgress
  let combined := call.combined (parseSymbolDates call.today progress)
  if combined = [] then store
  else
    (store.mergeYears combined (affectedYears combined)).saveProgress (call.nextProgress progress)

/-- A run that ends once the partitions of these years, in whatever order, are written. -/
def EtlStore.crashIncremental (store : EtlStore V) (call : IncrementalCall V)
    (written : List ℤ) : EtlStore V :=
  let (progress, store) := store.loadProgress
  let combined := call.combined (parseSymbolDates call.today progress)
  store.mergeYears combined ((affectedYears combined).filter fun year => year ∈ written)

/-! ## Full runs -/

structure FullCall (V : Type*) where
  symbols : List String
  startDate : ℤ
  endDate : ℤ
  resume : Bool
  today : ℤ
  fetch : Fetch V

/-- The end date, clamped to today. -/
def FullCall.lastDate (call : FullCall V) : ℤ := min call.endDate call.today

def FullCall.freshProgress (call : FullCall V) : EtlProgress where
  symbolLastDates := fun _ => none
  yearsCompleted := []
  yearsRemaining := yearRange (yearOf call.startDate) (yearOf call.lastDate)
  status := .running

/-- The progress that the run starts from, whose remaining years are the years of the run. -/
def EtlStore.beginFull (store : EtlStore V) (call : FullCall V) : EtlProgress × EtlStore V :=
  if call.resume then
    match store.loadProgress with
    | (some progress, store) =>
        if progress.status = .running ∨ progress.status = .paused then (progress, store)
        else (call.freshProgress, store)
    | (none, store) => (call.freshProgress, store)
  else (call.freshProgress, store)

/-- The rows of a year, up to today. -/
def FullCall.yearData (call : FullCall V) (year : ℤ) : List (PriceRow V) :=
  (call.fetch call.symbols (max (newYear year) call.startDate)
    (min (newYear (year + 1) - 1) call.lastDate)).filter fun r => r.date ≤ call.today

def EtlProgress.completeYear (progress : EtlProgress) (year : ℤ) : EtlProgress :=
  { progress with
    yearsCompleted := progress.yearsCompleted ++ [year]
    yearsRemaining := progress.yearsRemaining.erase year }

/-- One year of the loop; rows with a repeated key are refused. -/
def FullCall.fetchYear (call : FullCall V) (state : EtlProgress × EtlStore V) (year : ℤ) :
    Option (EtlProgress × EtlStore V) :=
  let df := sortByKey PriceRow.key (call.yearData year)
  if df = [] then some (state.1.completeYear year, state.2)
  else if validatePartition df then
    let progress := state.1.completeYear year
    some (progress, (state.2.write year df).saveProgress progress)
  else none

/-- The progress in the end: the dates of all that is stored. -/
def FullCall.finalProgress (call : FullCall V) (progress : EtlProgress) (store : EtlStore V) :
    EtlProgress :=
  let allData := store.partitions.rows.flatMap Partition.rows
  { progress with
    symbolLastDates :=
      if store.partitions.rows = [] then progress.symbolLastDates
      else fun symbol => (maxDate call.today allData symbol).map SavedDate.date
    status := .completed }

/-- `run_full_etl`, where it does not raise. -/
def EtlStore.runFull (store : EtlStore V) (call : FullCall V) : Option (EtlStore V) := do
  let begun := store.beginFull call
  let (progress, store) ← begun.1.yearsRemaining.foldlM call.fetchYear begun
  return store.saveProgress (call.finalProgress progress store)

/-- A full run that ends after some years; `torn` is the year whose partition is written by then
without the progress being saved. -/
def EtlStore.interruptFull (store : EtlStore V) (call : FullCall V) (years : ℕ)
    (torn : Option ℤ) : Option (EtlStore V) := do
  let begun := store.beginFull call
  let (_, store) ← (begun.1.yearsRemaining.take years).foldlM call.fetchYear begun
  match torn with
  | none => return store
  | some year =>
      let df := sortByKey PriceRow.key (call.yearData year)
      if begun.1.yearsRemaining[years]? = some year ∧ df ≠ [] ∧ validatePartition df then
        return store.write year df
      else return store

end TradingPlatform.Data
