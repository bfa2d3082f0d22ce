import Mathlib.Algebra.BigOperators.Group.List.Basic
import Mathlib.Data.Prod.Lex
import Mathlib.Data.String.Basic
import TradingPlatform.Base.Calendar
import TradingPlatform.Base.LastRow
import TradingPlatform.Base.Run
import TradingPlatform.Base.Text
import TradingPlatform.Data.SnapshotStore

/-! # The sync of the SIP bars

A full sync writes one file for each year, into a directory that is named by a hash of
what is asked for, and signs them in the end. Syncs of several processes interleave. A
lock that is held too long is broken, so that none of them counts on it.
-/

namespace TradingPlatform.Data.Sip

open Base

variable {P : Type*} {V : Type}

/-! ## Bars -/

/-- A bar as the client answers it; a time that cannot be read is none. -/
structure RawBar (V : Type) where
  symbol : String
  timestamp : Option ℤ
  openPrice : Option V
  high : Option V
  low : Option V
  close : Option V
  volume : Option V
  tradeCount : Option V
  vwap : Option V

structure BarRow (V : Type) where
  date : ℤ
  symbol : String
  openPrice : V
  high : V
  low : V
  close : V
  volume : V
  tradeCount : Option V
  vwap : Option V
  deriving DecidableEq, Repr

structure BarsPage (V : Type) where
  data : List (String × Option (List (RawBar V)))
  nextPageToken : Option String

/-- The answer for some symbols, a year and a page token, unless the client raises. -/
abbrev BarsClient (V : Type) := List String → ℤ → Option String → Option (BarsPage V)

/-- With `str.upper`. -/
structure SipManager where
  upper : String → String
  requestChunkSize : ℕ
  feed : String
  adjustment : String

def maxPagesPerRequest : ℕ := 1000

/-- `history_start` -/
def historyStartYear : ℤ := 2016

def BarRow.key (row : BarRow V) : ℤ ×ₗ String := toLex (row.date, row.symbol)

/-- `_row_from_bar` raises where a required field is missing. -/
def SipManager.rowFromBar (manager : SipManager) (fallbackSymbol : String) (bar : RawBar V) :
    Option (BarRow V) := do
  let symbol := if bar.symbol = "" then fallbackSymbol else bar.symbol
  let date ← bar.timestamp
  let close ← bar.close
  return {
    date
    symbol := strip (manager.upper symbol)
    openPrice := ← bar.openPrice
    high := ← bar.high
    low := ← bar.low
    close
    volume := ← bar.volume
    tradeCount := bar.tradeCount
    vwap := bar.vwap }

def SipManager.rowsFromResponse (manager : SipManager) (page : BarsPage V) :
    Option (List (BarRow V)) :=
  let entries := page.data.filter fun entry => entry.1 ∉ ["next_page_token", "next_token"]
  (entries.flatMap fun entry => (entry.2.getD []).map fun bar => (entry.1, bar)).mapM fun entry =>
    manager.rowFromBar entry.1 entry.2

def nextPageTokenFromResponse (page : BarsPage V) : Option String :=
  page.nextPageToken.bind fun token => if strip token = "" then none else some (strip token)

/-- The pages from a token on, unless there are more than are left. -/
def SipManager.fetchPages (manager : SipManager) (client : BarsClient V) (chunk : List String)
    (year : ℤ) : ℕ → Option String → Option (List (BarRow V))
  | 0, _ => none
  | left + 1, pageToken => do
      let page ← client chunk year pageToken
      let rows ← manager.rowsFromResponse page
      match nextPageTokenFromResponse page with
      | none => return rows
      | some token => return rows ++ (← manager.fetchPages client chunk year left (some token))

def SipManager.rowsToFrame (manager : SipManager) (rows : List (BarRow V)) (year : ℤ) :
    List (BarRow V) :=
  let rows := rows.filter fun row => newYear year ≤ row.date ∧ row.date < newYear (year + 1)
  sortByKey BarRow.key (uniqueLast BarRow.key
    (rows.map fun row => { row with symbol := manager.upper row.symbol }))

/-- `_normalize_symbols` raises where none is left. -/
def SipManager.normalizeSymbols (manager : SipManager) (symbols : List String) :
    Option (List String) :=
  let normalized := (symbols.map fun symbol => strip (manager.upper symbol)).filter (· ≠ "")
  if normalized = [] then none else some (sortByKey id (uniqueFirst id normalized))

def validYearRange (startYear endYear currentYear : ℤ) : Bool :=
  historyStartYear ≤ startYear ∧ startYear ≤ endYear ∧ endYear ≤ currentYear

/-- `_fetch_year_frame` -/
def SipManager.fetchYearFrame (manager : SipManager) (client : BarsClient V)
    (symbols : List String) (year currentYear : ℤ) : Option (List (BarRow V)) := do
  let symbols ← manager.normalizeSymbols symbols
  guard (validYearRange year year currentYear)
  let rows ← (symbols.toChunks manager.requestChunkSize).mapM fun chunk =>
    manager.fetchPages client chunk year maxPagesPerRequest none
  return manager.rowsToFrame rows.flatten year

/-! ## Files and manifests -/

structure SipPath where
  syncId : String
  year : ℤ
  deriving DecidableEq, Repr

/-- The path below the directory of the snapshots. -/
def SipPath.text (path : SipPath) : String :=
  path.syncId ++ "/" ++ toString path.year ++ ".parquet"

abbrev SipFiles (V : Type) := SipPath → Option (List (BarRow V))

structure SipManifest where
  filePaths : List SipPath
  rowCount : ℕ
  startDate : ℤ
  endDate : ℤ
  checksum : String
  manifestVersion : ℕ
  deriving DecidableEq, Repr

/-- `_build_sync_id` -/
def SipManager.buildSyncId (manager : SipManager) (sha : Sha256 (List (BarRow V)))
    (symbols : List String) (startYear endYear : ℤ) : String :=
  let params := "|".intercalate
    [",".intercalate symbols, toString startYear, toString endYear, manager.feed,
      manager.adjustment]
  String.ofList ((sha.ofText params).toList.take 12)

/-- `compute_combined_checksum_for_paths`: of the files that exist, sorted by path. -/
def combinedChecksum (sha : Sha256 (List (BarRow V))) (files : SipFiles V)
    (filePaths : List SipPath) : String :=
  sha.ofText (String.join (((sortByKey SipPath.text filePaths).filterMap files).map sha.ofFile))

inductive SipError where
  | noManifest
  | missingFile (path : SipPath)
  | checksumMismatch
  | rowCountMismatch (manifest computed : ℕ)
  deriving DecidableEq, Repr

/-- `verify_integrity`, of the current manifest. -/
def verifyIntegrity (sha : Sha256 (List (BarRow V))) (files : SipFiles V) :
    Option SipManifest → List SipError
  | none => [.noManifest]
  | some manifest =>
      let missing := manifest.filePaths.filter fun path => (files path).isNone
      let totalRows := (manifest.filePaths.map fun path => ((files path).getD []).length).sum
      if missing ≠ [] then missing.map .missingFile
      else
        (if combinedChecksum sha files manifest.filePaths = manifest.checksum then []
          else [.checksumMismatch]) ++
        (if totalRows = manifest.rowCount then []
          else [.rowCountMismatch manifest.rowCount totalRows])

/-! ## Full syncs -/

structure SipCall where
  manager : SipManager
  symbols : List String
  startYear : ℤ
  endYear : Option ℤ

/-- `end_year or` the current year; zero is no year. -/
def SipCall.resolvedEndYear (call : SipCall) (currentYear : ℤ) : ℤ :=
  match call.endYear with
  | some year => if year = 0 then currentYear else year
  | none => currentYear

/-- A full sync that is running. Once its manifest is created it carries that, with the files as
they were for the checksum. -/
structure SipSync (V : Type) where
  manager : SipManager
  symbols : List String
  syncId : String
  years : List ℤ
  filePaths : List SipPath
  rowCount : ℕ
  partitionDates : List (ℤ × ℤ)
  created : Option (SipManifest × SipFiles V)

/-- The files, the current manifest with the files that it signed, and the syncs. -/
structure SipSystem (P : Type*) (V : Type) where
  files : SipFiles V
  published : Option (SipManifest × SipFiles V)
  syncs : P → Option (SipSync V)

/-- What a process does next. Wherever it may raise or be killed, it does so by `raise`. -/
inductive SipAction (P : Type*) (V : Type) where
  | start (p : P) (call : SipCall) (currentYear : ℤ) (enoughDisk : Bool)
  | syncYear (p : P) (client : BarsClient V) (currentYear : ℤ) (enoughDisk : Bool)
  | create (p : P)
  | save (p : P)
  | raise (p : P)

def SipSystem.current (s : SipSystem P V) : Option SipManifest := s.published.map Prod.fst

/-- The sync before its first year, unless it raises. -/
def SipCall.begin (call : SipCall) (sha : Sha256 (List (BarRow V))) (currentYear : ℤ)
    (enoughDisk : Bool) : Option (SipSync V) := do
  let symbols ← call.manager.normalizeSymbols call.symbols
  let endYear := call.resolvedEndYear currentYear
  guard (validYearRange call.startYear endYear currentYear ∧ enoughDisk)
  return {
    manager := call.manager
    symbols
    syncId := call.manager.buildSyncId sha symbols call.startYear endYear
    years := yearRange call.startYear endYear
    filePaths := []
    rowCount := 0
    partitionDates := []
    created := none }

/-- `_frame_date_bounds` -/
def frameDateBounds (df : List (BarRow V)) : List (ℤ × ℤ) :=
  match (df.map BarRow.date).min?, (df.map BarRow.date).max? with
  | some first, some last => [(first, last)]
  | _, _ => []

/-- The next file that is written, with the sync after it, unless the sync raises. -/
def SipSync.writeYear (sync : SipSync V) (client : BarsClient V) (currentYear : ℤ)
    (enoughDisk : Bool) : Option (SipPath × List (BarRow V) × SipSync V) :=
  match sync.years with
  | [] => none
  | year :: years => do
      let df ← sync.manager.fetchYearFrame client sync.symbols year currentYear
      guard enoughDisk
      let path := ⟨sync.syncId, year⟩
      return (path, df, { sync with
        years
        filePaths := sync.filePaths ++ [path]
        rowCount := sync.rowCount + df.length
        partitionDates := sync.partitionDates ++ frameDateBounds df })

/-- `_create_manifest`, unless there are no rows. -/
def SipSync.createManifest (sync : SipSync V) (sha : Sha256 (List (BarRow V)))
    (files : SipFiles V) : Option SipManifest :=
  if sync.rowCount = 0 then none
  else do
    let startDate ← (sync.partitionDates.map Prod.fst).min?
    let endDate ← (sync.partitionDates.map Prod.snd).max?
    return {
      filePaths := sync.filePaths
      rowCount := sync.rowCount
      startDate
      endDate
      checksum := combinedChecksum sha files sync.filePaths
      manifestVersion := 1 }

/-- `save_manifest` raises where a file is missing, and sets the version. -/
def SipSystem.saved (s : SipSystem P V) (manifest : SipManifest) : Option SipManifest :=
  if ∀ path ∈ manifest.filePaths, (s.files path).isSome then
    match s.current with
    | some current => some { manifest with manifestVersion := current.manifestVersion + 1 }
    | none => some manifest
  else none

variable [DecidableEq P]

def SipSystem.put (s : SipSystem P V) (p : P) (sync : Option (SipSync V)) : SipSystem P V :=
  { s with syncs := Function.update s.syncs p sync }

def sipStep (sha : Sha256 (List (BarRow V))) (s : SipSystem P V) : SipAction P V → SipSystem P V
  | .start p call currentYear enoughDisk =>
      match s.syncs p with
      | some _ => s
      | none => s.put p (call.begin sha currentYear enoughDisk)
  | .syncYear p client currentYear enoughDisk =>
      match s.syncs p with
      | none => s
      | some sync =>
          match sync.writeYear client currentYear enoughDisk with
          | none => s.put p none
          | some (path, df, sync) =>
              { s.put p (some sync) with files := Function.update s.files path (some df) }
  | .create p =>
      match s.syncs p with
      | none => s
      | some sync =>
          if sync.years = [] ∧ sync.created.isNone then
            s.put p ((sync.createManifest sha s.files).map fun manifest =>
              { sync with created := some (manifest, s.files) })
          else s
  | .save p =>
      match s.syncs p with
      | none => s
      | some sync =>
          match sync.created with
          | none => s
          | some (manifest, files) =>
              match s.saved manifest with
              | none => s.put p none
              | some manifest => { s.put p none with published := some (manifest, files) }
  | .raise p => s.put p none

end TradingPlatform.Data.Sip
