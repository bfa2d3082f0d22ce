import TradingPlatform.Base.Interleaving
import Mathlib.Algebra.Order.Ring.Rat
import Mathlib.Order.Lattice

/-! # Caches of a custom universe

A universe is a file that is written once and may be deleted, and then written anew. The managers
of several processes keep what they computed from it: the enriched constituents with the file's
mtime before the computation, the unresolved tickers with a generation of the process. A call is
cut into its file operations and its sections under the cache lock; what lies between them
touches nothing that is shared.
-/

namespace TradingPlatform.Data

open Base

/-! ## Definitions and market data -/

inductive FilterField where
  | marketCap | adv20d
  deriving DecidableEq, Repr

inductive FilterOperator where
  | gt | lt | gte | lte
  deriving DecidableEq, Repr

structure UniverseFilter where
  field : FilterField
  operator : FilterOperator
  value : ℚ

/-- What the constituents are computed from. -/
structure UniverseDefinition where
  baseUniverseId : Option String
  filters : List UniverseFilter
  excludeSymbols : List String
  manualSymbols : Option (List String)

structure EnrichedRow where
  permno : ℕ
  ticker : Option String
  marketCap : Option ℚ
  adv20d : Option ℚ
  deriving DecidableEq

inductive UniverseError where
  | notFound | crspUnavailable | cannotResolve | mutatedConcurrently
  deriving DecidableEq, Repr

inductive TickerLookup where
  | permno (n : ℕ)
  /-- `AmbiguousTickerError`, with the candidates -/
  | ambiguous (first : ℕ) (others : List ℕ)
  /-- `DataNotFoundError` -/
  | notFound
  /-- `ManifestVersionChangedError` -/
  | manifestChanged

/-- The market data of the providers, which does not change. -/
structure UniverseMarket (D : Type) where
  crspConfigured : Bool
  tickerToPermno : String → D → TickerLookup
  enrichPermnos : List ℕ → D → Except UniverseError (List EnrichedRow)
  constituents : String → D → Except UniverseError (List ℕ)

variable {D : Type}

/-- The loop over the manual symbols: the permnos and the tickers without one. -/
def resolveTickers (market : UniverseMarket D) (asOfDate : D) :
    List String → Except UniverseError (List ℕ × List String)
  | [] => .ok ([], [])
  | ticker :: rest =>
      match market.tickerToPermno ticker.toUpper asOfDate with
      | .manifestChanged => .error .crspUnavailable
      | .permno n =>
          (resolveTickers market asOfDate rest).map fun r => (n :: r.1, r.2)
      | .ambiguous first others =>
          (resolveTickers market asOfDate rest).map fun r => (others.foldl max first :: r.1, r.2)
      | .notFound =>
          (resolveTickers market asOfDate rest).map fun r => (r.1, ticker :: r.2)

def UniverseFilter.passes (f : UniverseFilter) (row : EnrichedRow) : Bool :=
  let column := match f.field with
    | .marketCap => row.marketCap
    | .adv20d => row.adv20d
  match f.operator with
  | .gt => column.any (f.value < ·)
  | .lt => column.any (· < f.value)
  | .gte => column.any (f.value ≤ ·)
  | .lte => column.any (· ≤ f.value)

/-- Exclusions, which keep a missing ticker, and filters, which drop a missing number. -/
def UniverseDefinition.narrow (d : UniverseDefinition) (rows : List EnrichedRow) :
    List EnrichedRow :=
  (rows.filter fun row => row.ticker.all fun ticker =>
      !(d.excludeSymbols.map String.toUpper).contains ticker).filter fun row =>
    d.filters.all fun f => f.passes row

def enrichedRows (market : UniverseMarket D) (d : UniverseDefinition) (asOfDate : D)
    (permnos : List ℕ) : Except UniverseError (List EnrichedRow) :=
  if permnos.isEmpty then .ok []
  else (market.enrichPermnos permnos asOfDate).map d.narrow

/-- `if meta.manual_symbols`: a list that is there and not empty. -/
def UniverseDefinition.manualList (d : UniverseDefinition) : Option (List String) :=
  d.manualSymbols.filter fun symbols => !symbols.isEmpty

/-- The other branches of the computation. -/
def baseRows (market : UniverseMarket D) (d : UniverseDefinition) (asOfDate : D) :
    Except UniverseError (List EnrichedRow) :=
  match d.baseUniverseId.filter (· ≠ "") with
  | none => .error .cannotResolve
  | some base => (market.constituents base asOfDate).bind (enrichedRows market d asOfDate)

/-! ## The shared state -/

/-- The file of the universe. The version counts the saves. -/
structure SavedUniverse where
  definition : UniverseDefinition
  mtime : ℕ
  version : ℕ

structure EnrichedEntry where
  rows : List EnrichedRow
  wallNs : ℤ
  sourceMtime : ℕ
  version : ℕ

structure UnresolvedEntry where
  tickers : List String
  generation : ℕ
  version : ℕ

/-- The caches of one process for the universe, and its locks for the dates. -/
structure UniverseManager (D : Type) where
  enrichedCache : D → Option EnrichedEntry
  lastUnresolved : D → Option UnresolvedEntry
  universeGeneration : ℕ
  computeLocks : D → Option ℕ
  lockHeld : ℕ → Bool
  nextLock : ℕ

inductive CacheKind where
  | enriched | unresolved
  deriving DecidableEq, Repr

/-- What a call returned: the version it was derived from, and the saves that had completed when
the call started. -/
structure ReturnedResult where
  kind : CacheKind
  version : ℕ
  completedAtStart : List ℕ
  deriving DecidableEq

/-- The record of the run: it is read by no call. -/
structure UniverseHistory where
  lastVersion : ℕ
  lastMtime : ℕ
  completed : List ℕ
  deleted : List ℕ
  deletedBefore : ℕ → List ℕ
  returned : List ReturnedResult

structure UniverseWorld (P D : Type) where
  file : Option SavedUniverse
  fileLocked : Bool
  managers : P → UniverseManager D
  history : UniverseHistory

/-! ## The calls, cut into actions -/

/-- Where a call stands, with what it carries along. -/
inductive UniverseCall (D : Type) where
  | idle
  | enrichedLookup (date : D)
  | enrichedWait (date : D) (lock : ℕ)
  | enrichedRecheck (date : D) (lock : ℕ)
  | enrichedSnapshot (date : D) (lock genBefore attempt : ℕ)
  | enrichedRead (date : D) (lock genBefore attempt preMtime : ℕ)
  | enrichedList (date : D) (lock genBefore attempt preMtime : ℕ) (saved : SavedUniverse)
      (resolved : List ℕ × List String)
  | enrichedCompare (date : D) (lock genBefore attempt preMtime version : ℕ)
      (rows : List EnrichedRow)
  | enrichedStore (date : D) (lock preMtime version : ℕ) (rows : List EnrichedRow)
  | enrichedGiveUp (date : D) (lock : ℕ)
  | enrichedLeave (lock version : ℕ)
  | enrichedRaise (date : D) (lock : ℕ)
  | enrichedCleanUp (date : D)
  | unresolvedLookup (date : D)
  | unresolvedRead (date : D)
  | unresolvedStore (date : D) (version : ℕ) (tickers : List String)
  | saveLock (definition : UniverseDefinition)
  | saveCheck (definition : UniverseDefinition)
  | saveRename (definition : UniverseDefinition)
  | saveSync (version : ℕ)
  | saveUnlock (version : Option ℕ)
  | saveBump (version : ℕ)
  | deleteLock
  | deleteCheck
  | deleteUnlink
  | deleteUnlock (deleted : Bool)
  | deleteBump

structure UniverseThread (D : Type) where
  call : UniverseCall D
  completedAtStart : List ℕ

/-- What an action takes from outside: the clock, how much later than a tick after the last save
a file is written, whether the file system or the limit per user refuses, and what the bounds on
the sizes of the caches, which count the entries of all universes, push out. -/
structure ActionInput (D : Type) where
  now : ℤ
  sinceLastSave : ℕ
  refused : Bool
  oldest : Option D
  pruneLists : Bool
  pruneLocks : Bool

inductive UniverseRequest (D : Type) where
  | getEnriched (date : D)
  | getUnresolved (date : D)
  | saveCustom (definition : UniverseDefinition)
  | deleteCustom

inductive UniverseAction (D : Type) where
  | start (request : UniverseRequest D)
  | go (input : ActionInput D)

def cacheTtlNs : ℤ := 1800000000000

def maxGenRetries : ℕ := 2

/-- A file that is gone counts as modified. -/
def isCustomModifiedSince (file : Option SavedUniverse) (ts : ℕ) : Bool :=
  match file with
  | none => true
  | some saved => ts < saved.mtime

def sourceMtime (file : Option SavedUniverse) : ℕ := (file.map SavedUniverse.mtime).getD 0

/-- The cache entry that a lookup returns. The file is asked within the section. -/
def cachedEntry (file : Option SavedUniverse) (m : UniverseManager D) (date : D) (now : ℤ) :
    Option EnrichedEntry :=
  (m.enrichedCache date).filter fun e =>
    now - e.wallNs < cacheTtlNs && !isCustomModifiedSince file e.sourceMtime

def cachedTickers (m : UniverseManager D) (date : D) : Option UnresolvedEntry :=
  (m.lastUnresolved date).filter fun e => e.generation = m.universeGeneration

def UniverseManager.setHeld (m : UniverseManager D) (lock : ℕ) (held : Bool) :
    UniverseManager D :=
  { m with lockHeld := Function.update m.lockHeld lock held }

/-- Drops the locks that the predicate selects, but none that is held. -/
def UniverseManager.dropLocks (m : UniverseManager D) (p : D → Bool) : UniverseManager D :=
  { m with
    computeLocks := fun date =>
      (m.computeLocks date).filter fun lock => !p date || m.lockHeld lock }

/-- The section of a deletion. -/
def UniverseManager.forget (m : UniverseManager D) : UniverseManager D :=
  { m with
    universeGeneration := m.universeGeneration + 1
    enrichedCache := fun _ => none
    lastUnresolved := fun _ => none }.dropLocks fun _ => true

def UniverseManager.bump (m : UniverseManager D) : UniverseManager D :=
  { m with universeGeneration := m.universeGeneration + 1 }

section

variable [DecidableEq D]

/-- The lock of the date, made when there is none. -/
def UniverseManager.ensureLock (m : UniverseManager D) (date : D) : UniverseManager D × ℕ :=
  match m.computeLocks date with
  | some lock => (m, lock)
  | none =>
      ({ m with
          computeLocks := Function.update m.computeLocks date (some m.nextLock)
          nextLock := m.nextLock + 1 }, m.nextLock)

def UniverseManager.storeTickers (m : UniverseManager D) (date : D) (tickers : List String)
    (version : ℕ) : UniverseManager D :=
  { m with
    lastUnresolved :=
      Function.update m.lastUnresolved date (some ⟨tickers, m.universeGeneration, version⟩) }

/-- The oldest entry, with its list and its lock, when the cache is too large. -/
def UniverseManager.evict (m : UniverseManager D) (oldest : Option D) : UniverseManager D :=
  match oldest with
  | none => m
  | some date =>
      { m with
        enrichedCache := Function.update m.enrichedCache date none
        lastUnresolved := Function.update m.lastUnresolved date none }.dropLocks (· = date)

/-- The section that stores an entry and keeps the sizes within their bounds. -/
def UniverseManager.storeRows (m : UniverseManager D) (date : D) (e : EnrichedEntry)
    (input : ActionInput D) : UniverseManager D :=
  let m := { m with enrichedCache := Function.update m.enrichedCache date (some e) }
  let m := m.evict input.oldest
  let m :=
    if input.pruneLists then
      { m with
        lastUnresolved := fun date =>
          (m.lastUnresolved date).filter fun _ => (m.enrichedCache date).isSome }
    else m
  if input.pruneLocks then m.dropLocks fun date => (m.enrichedCache date).isNone else m

variable {P T : Type} [DecidableEq P]

def UniverseWorld.setManager (w : UniverseWorld P D) (p : P) (m : UniverseManager D) :
    UniverseWorld P D :=
  { w with managers := Function.update w.managers p m }

def UniverseWorld.record (w : UniverseWorld P D) (kind : CacheKind) (version : ℕ)
    (thread : UniverseThread D) : UniverseWorld P D :=
  { w with
    history := { w.history with
      returned := ⟨kind, version, thread.completedAtStart⟩ :: w.history.returned } }

/-- The rename that makes the new file the universe's. -/
def UniverseWorld.rename (w : UniverseWorld P D) (definition : UniverseDefinition)
    (sinceLastSave : ℕ) : UniverseWorld P D :=
  let version := w.history.lastVersion + 1
  let mtime := w.history.lastMtime + sinceLastSave + 1
  { w with
    file := some ⟨definition, mtime, version⟩
    history := { w.history with
      lastVersion := version
      lastMtime := mtime
      deletedBefore := Function.update w.history.deletedBefore version w.history.deleted } }

def UniverseWorld.unlink (w : UniverseWorld P D) : UniverseWorld P D :=
  { w with
    file := none
    history := { w.history with
      deleted := (w.file.map SavedUniverse.version).toList ++ w.history.deleted } }

def UniverseWorld.complete (w : UniverseWorld P D) (version : ℕ) : UniverseWorld P D :=
  { w with history := { w.history with completed := version :: w.history.completed } }

def UniverseThread.at (thread : UniverseThread D) (call : UniverseCall D) : UniverseThread D :=
  { thread with call }

/-- `_compute_enriched` up to its section or, without a manual list, to its end. -/
def computeEnriched (market : UniverseMarket D) (file : Option SavedUniverse) (date : D)
    (lock genBefore attempt preMtime : ℕ) : UniverseCall D :=
  match file with
  | none => .enrichedRaise date lock
  | some saved =>
      match saved.definition.manualList with
      | some symbols =>
          if market.crspConfigured then
            match resolveTickers market date symbols with
            | .error _ => .enrichedRaise date lock
            | .ok resolved => .enrichedList date lock genBefore attempt preMtime saved resolved
          else .enrichedRaise date lock
      | none =>
          match baseRows market saved.definition date with
          | .error _ => .enrichedRaise date lock
          | .ok rows => .enrichedCompare date lock genBefore attempt preMtime saved.version rows

/-- An action of a call to `get_enriched_constituents`. -/
def goEnriched (market : UniverseMarket D) (p : P) (w : UniverseWorld P D)
    (thread : UniverseThread D) (input : ActionInput D) : UniverseWorld P D × UniverseThread D :=
  let m := w.managers p
  match thread.call with
  | .enrichedLookup date =>
      match cachedEntry w.file m date input.now with
      | some e => (w.record .enriched e.version thread, thread.at .idle)
      | none =>
          let made := m.ensureLock date
          (w.setManager p made.1, thread.at (.enrichedWait date made.2))
  | .enrichedWait date lock =>
      if m.lockHeld lock then (w, thread)
      else (w.setManager p (m.setHeld lock true), thread.at (.enrichedRecheck date lock))
  | .enrichedRecheck date lock =>
      match cachedEntry w.file m date input.now with
      | some e => (w, thread.at (.enrichedLeave lock e.version))
      | none => (w, thread.at (.enrichedSnapshot date lock m.universeGeneration 0))
  | .enrichedSnapshot date lock genBefore attempt =>
      (w, thread.at (.enrichedRead date lock genBefore attempt (sourceMtime w.file)))
  | .enrichedRead date lock genBefore attempt preMtime =>
      (w, thread.at (computeEnriched market w.file date lock genBefore attempt preMtime))
  | .enrichedList date lock genBefore attempt preMtime saved resolved =>
      (w.setManager p (m.storeTickers date resolved.2 saved.version),
        match enrichedRows market saved.definition date resolved.1 with
        | .error _ => thread.at (.enrichedRaise date lock)
        | .ok rows =>
            thread.at (.enrichedCompare date lock genBefore attempt preMtime saved.version rows))
  | .enrichedCompare date lock genBefore attempt preMtime version rows =>
      if genBefore = m.universeGeneration then
        (w, thread.at (.enrichedStore date lock preMtime version rows))
      else if attempt < maxGenRetries then
        (w, thread.at (.enrichedSnapshot date lock m.universeGeneration (attempt + 1)))
      else (w, thread.at (.enrichedGiveUp date lock))
  | .enrichedStore date lock preMtime version rows =>
      (w.setManager p (m.storeRows date ⟨rows, input.now, preMtime, version⟩ input),
        thread.at (.enrichedLeave lock version))
  | .enrichedGiveUp date lock => (w, thread.at (.enrichedRaise date lock))
  | .enrichedLeave lock version =>
      ((w.setManager p (m.setHeld lock false)).record .enriched version thread, thread.at .idle)
  | .enrichedRaise date lock =>
      (w.setManager p (m.setHeld lock false), thread.at (.enrichedCleanUp date))
  | .enrichedCleanUp date =>
      (if (m.enrichedCache date).isNone then w.setManager p (m.dropLocks (· = date)) else w,
        thread.at .idle)
  | _ => (w, thread)

/-- An action of a call to `get_unresolved_tickers`. -/
def goUnresolved (market : UniverseMarket D) (p : P) (w : UniverseWorld P D)
    (thread : UniverseThread D) : UniverseWorld P D × UniverseThread D :=
  let m := w.managers p
  match thread.call with
  | .unresolvedLookup date =>
      match cachedTickers m date with
      | some e => (w.record .unresolved e.version thread, thread.at .idle)
      | none => (w, thread.at (.unresolvedRead date))
  | .unresolvedRead date =>
      match w.file with
      | none => (w, thread.at .idle)
      | some saved =>
          match saved.definition.manualSymbols.filter fun _ => market.crspConfigured with
          | none => (w.record .unresolved saved.version thread, thread.at .idle)
          | some symbols =>
              match resolveTickers market date symbols with
              | .error _ => (w, thread.at .idle)
              | .ok resolved =>
                  (w, thread.at (.unresolvedStore date saved.version resolved.2))
  | .unresolvedStore date version tickers =>
      ((w.setManager p (m.storeTickers date tickers version)).record .unresolved version thread,
        thread.at .idle)
  | _ => (w, thread)

/-- An action of a call to `save_custom`, whose definition is valid and normalised. -/
def goSave (p : P) (w : UniverseWorld P D) (thread : UniverseThread D) (input : ActionInput D) :
    UniverseWorld P D × UniverseThread D :=
  match thread.call with
  | .saveLock definition =>
      if w.fileLocked then (w, thread)
      else ({ w with fileLocked := true }, thread.at (.saveCheck definition))
  | .saveCheck definition =>
      if w.file.isSome then (w, thread.at (.saveUnlock none))
      else (w, thread.at (.saveRename definition))
  | .saveRename definition =>
      if input.refused then (w, thread.at (.saveUnlock none))
      else
        (w.rename definition input.sinceLastSave,
          thread.at (.saveSync (w.history.lastVersion + 1)))
  | .saveSync version =>
      (w, thread.at (.saveUnlock (if input.refused then none else some version)))
  | .saveUnlock version =>
      ({ w with fileLocked := false }, thread.at (version.elim .idle .saveBump))
  | .saveBump version =>
      ((w.setManager p (w.managers p).bump).complete version, thread.at .idle)
  | _ => (w, thread)

/-- An action of a call to `delete_custom`. -/
def goDelete (p : P) (w : UniverseWorld P D) (thread : UniverseThread D) :
    UniverseWorld P D × UniverseThread D :=
  match thread.call with
  | .deleteLock =>
      if w.fileLocked then (w, thread)
      else ({ w with fileLocked := true }, thread.at .deleteCheck)
  | .deleteCheck =>
      if w.file.isSome then (w, thread.at .deleteUnlink) else (w, thread.at (.deleteUnlock false))
  | .deleteUnlink => (w.unlink, thread.at (.deleteUnlock true))
  | .deleteUnlock deleted =>
      ({ w with fileLocked := false }, thread.at (if deleted then .deleteBump else .idle))
  | .deleteBump => (w.setManager p (w.managers p).forget, thread.at .idle)
  | _ => (w, thread)

def firstCall : UniverseRequest D → UniverseCall D
  | .getEnriched date => .enrichedLookup date
  | .getUnresolved date => .unresolvedLookup date
  | .saveCustom definition => .saveLock definition
  | .deleteCustom => .deleteLock

/-- An idle thread starts a call; a thread in a call takes its next action. -/
def universeAction (market : UniverseMarket D) (processOf : T → P) (t : T)
    (w : UniverseWorld P D) (thread : UniverseThread D) :
    UniverseAction D → UniverseWorld P D × UniverseThread D
  | .start request =>
      match thread.call with
      | .idle => (w, ⟨firstCall request, w.history.completed⟩)
      | _ => (w, thread)
  | .go input =>
      match thread.call with
      | .idle => (w, thread)
      | .unresolvedLookup _ | .unresolvedRead _ | .unresolvedStore .. =>
          goUnresolved market (processOf t) w thread
      | .saveLock _ | .saveCheck _ | .saveRename _ | .saveSync _ | .saveUnlock _
      | .saveBump _ => goSave (processOf t) w thread input
      | .deleteLock | .deleteCheck | .deleteUnlink | .deleteUnlock _ | .deleteBump =>
          goDelete (processOf t) w thread
      | _ => goEnriched market (processOf t) w thread input

def universeStep (market : UniverseMarket D) (processOf : T → P) [DecidableEq T] :
    Threads T (UniverseWorld P D) (UniverseThread D) → T × UniverseAction D →
      Threads T (UniverseWorld P D) (UniverseThread D) :=
  interleave (universeAction market processOf)

def emptyManager : UniverseManager D :=
  ⟨fun _ => none, fun _ => none, 0, fun _ => none, fun _ => false, 0⟩

/-- Managers without entries over a directory that may hold a file already. -/
def initialUniverse (file : Option (UniverseDefinition × ℕ)) :
    Threads T (UniverseWorld P D) (UniverseThread D) where
  shared :=
    { file := file.map fun f => ⟨f.1, f.2, 0⟩
      fileLocked := false
      managers := fun _ => emptyManager
      history := ⟨0, (file.map Prod.snd).getD 0, [], [], fun _ => [], []⟩ }
  loc := fun _ => ⟨.idle, []⟩

end

end TradingPlatform.Data
