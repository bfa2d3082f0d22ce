import TradingPlatform.Base.Table
import TradingPlatform.Data.SignedSync

/-! # What the syncs of a dataset leave out

Against a source whose rows become visible on the day of their date or later. The
manifest covers the days up to its end date, and an incremental sync asks only for
those after it: rows that become visible for the days before are left out.
-/

namespace TradingPlatform.Data.Wrds

open Base

variable {κ V : Type*}

/-- A row of the source, with the day on which it becomes visible. -/
structure SourceRow (κ V : Type*) extends WrdsRow κ V where
  visibleOn : ℤ
  date_le_visibleOn : date ≤ visibleOn

abbrev Source (κ V : Type*) := Table (ℤ ×ₗ κ) (SourceRow κ V) fun row => row.toWrdsRow.key

/-- What the source answers on a day. -/
def sourceQuery (source : Source κ V) (day : ℤ) : Query κ V := fun first last =>
  (source.rows.filter fun row =>
    row.visibleOn ≤ day ∧ first ≤ row.date ∧ row.date ≤ last).map SourceRow.toWrdsRow

structure RegularClock extends SyncClock where
  regular : toSyncClock.Regular

/-- The store on a day, with the day of the last sync that was successful. -/
structure CoverageState (κ V : Type*) where
  store : WrdsStore κ V
  day : ℤ
  lastRun : ℤ

/-- A sync some days later than the last one. -/
inductive CoverageEvent where
  | full (later : ℕ) (startYear : ℤ) (endYear : Option ℤ) (clock : RegularClock)
      (killed torn : Bool)
  | incremental (later : ℕ) (clock : RegularClock)

def CoverageEvent.later : CoverageEvent → ℕ
  | .full later _ _ _ _ _ => later
  | .incremental later _ => later

variable (writer : SyncWriter) (source : Source κ V)

def fullCall (day startYear : ℤ) (endYear : Option ℤ) : FullSync κ V where
  writer
  startYear
  endYear
  currentYear := yearOf day
  query := sourceQuery source day

def incrementalCall (day : ℤ) : IncrementalSync κ V where
  writer
  today := day
  query := sourceQuery source day

variable [LinearOrder κ]

def coverageOutcome (sha : Sha256 (List (WrdsRow κ V))) (s : CoverageState κ V) :
    CoverageEvent → Option WrdsManifest × WrdsStore κ V
  | .full later startYear endYear clock killed torn =>
      fullSync sha s.store (fullCall writer source (s.day + later) startYear endYear)
        clock.toSyncClock killed torn
  | .incremental later clock =>
      incrementalSync sha s.store (incrementalCall writer source (s.day + later))
        clock.toSyncClock

def coverageStep (sha : Sha256 (List (WrdsRow κ V))) (s : CoverageState κ V)
    (event : CoverageEvent) : CoverageState κ V :=
  let outcome := coverageOutcome writer source sha s event
  let day := s.day + event.later
  { store := outcome.2
    day
    lastRun := if outcome.1.isSome then day else s.lastRun }

/-! ## Properties -/

def WrdsStore.Stores (store : WrdsStore κ V) (row : WrdsRow κ V) : Prop :=
  ∃ rows ∈ store.files row.year, row ∈ rows

/-- The rows that are visible on a day, in the range of the manifest up to that day, are stored
in files that it lists. -/
def CoveredOn (source : Source κ V) (day : ℤ) (store : WrdsStore κ V) (manifest : WrdsManifest) :
    Prop :=
  ∀ row ∈ source.rows, row.visibleOn ≤ day → manifest.startDate ≤ row.date →
    row.date ≤ min manifest.endDate day →
      row.year ∈ manifest.filePaths ∧ store.Stores row.toWrdsRow

/-- After a successful sync the range of its manifest is covered, and after an incremental one
whatever is visible from the start date on is stored. -/
def NoHole (sha : Sha256 (List (WrdsRow κ V))) (s : CoverageState κ V) (event : CoverageEvent) :
    Prop :=
  ∀ manifest ∈ (coverageOutcome writer source sha s event).1,
    CoveredOn source (s.day + event.later) (coverageOutcome writer source sha s event).2
        manifest ∧
      match event with
      | .incremental later _ => ∀ row ∈ source.rows, row.visibleOn ≤ s.day + later →
          manifest.startDate ≤ row.date →
            (coverageOutcome writer source sha s event).2.Stores row.toWrdsRow
      | .full _ _ _ _ _ _ => True

/-- The sync has time for so many years. -/
def RegularClock.LastsFor (clock : RegularClock) (years : List ℤ) : Prop :=
  years.length ≤ clock.years.length ∧ clock.toSyncClock.InTime

/-- A full sync that resumes has each visible row of its range among the years that are left, or
in the file of a completed year. -/
def ResumesCovered (s : CoverageState κ V) (day : ℤ) (call : FullSync κ V) (clock : RegularClock) :
    Prop :=
  ∀ progress ∈ s.store.resumable, clock.LastsFor progress.yearsRemaining →
    ∀ row ∈ source.rows, row.visibleOn ≤ day → newYear call.startYear ≤ row.date →
      row.date ≤ min (newYear (call.lastYear + 1) - 1) day →
        row.year ∈ progress.yearsRemaining ∨
          row.year ∈ progress.yearsCompleted ∧ s.store.Stores row.toWrdsRow

/-- Since the last successful sync no row became visible in the range that the manifest covers by
now, unless it was stored meanwhile. -/
def NoneLate (s : CoverageState κ V) (day : ℤ) (clock : RegularClock) : Prop :=
  ∀ manifest ∈ s.store.manifest,
    (manifest.endDate < day →
      clock.LastsFor (yearRange (yearOf manifest.endDate) (yearOf day))) →
    ∀ row ∈ source.rows, s.lastRun < row.visibleOn → row.visibleOn ≤ day →
      manifest.startDate ≤ row.date → row.date ≤ min manifest.endDate day →
        (row.year ∈ manifest.filePaths ∨
          manifest.endDate < day ∧ row.year = yearOf manifest.endDate) ∧
        s.store.Stores row.toWrdsRow

def Timely (s : CoverageState κ V) : CoverageEvent → Prop
  | .full later startYear endYear clock _ _ =>
      ResumesCovered source s (s.day + later)
        (fullCall writer source (s.day + later) startYear endYear) clock
  | .incremental later clock => NoneLate source s (s.day + later) clock

/-! ## The source -/

variable {writer} {source} {s : CoverageState κ V} {day day' : ℤ} {store store' : WrdsStore κ V}
  {r : WrdsRow κ V}

omit [LinearOrder κ] in
theorem mem_sourceQuery {first last : ℤ} : r ∈ sourceQuery source day first last ↔
    (∃ row ∈ source.rows, row.toWrdsRow = r ∧ row.visibleOn ≤ day) ∧
      first ≤ r.date ∧ r.date ≤ last := by
  rw [sourceQuery, List.mem_map]
  constructor
  · rintro ⟨row, hrow, rfl⟩
    obtain ⟨hmem, hkept⟩ := List.mem_filter.mp hrow
    rw [decide_eq_true_eq] at hkept
    exact ⟨⟨row, hmem, rfl, hkept.1⟩, hkept.2⟩
  · rintro ⟨⟨row, hmem, rfl, hvisible⟩, hrange⟩
    exact ⟨row, List.mem_filter.mpr ⟨hmem, decide_eq_true ⟨hvisible, hrange⟩⟩, rfl⟩

omit [LinearOrder κ] in
/-- Rows of the source with one key are one row. -/
theorem source_unique {r r' : WrdsRow κ V} (h : ∃ row ∈ source.rows, row.toWrdsRow = r ∧
      row.visibleOn ≤ day) (h' : ∃ row ∈ source.rows, row.toWrdsRow = r' ∧ row.visibleOn ≤ day')
    (hkey : r.key = r'.key) : r = r' := by
  obtain ⟨row, hmem, rfl, -⟩ := h
  obtain ⟨row', hmem', rfl, -⟩ := h'
  rw [List.inj_on_of_nodup_map source.keys_nodup hmem hmem' hkey]

theorem validatePartition_iff {rows : List (WrdsRow κ V)} :
    validatePartition rows = true ↔ (rows.map WrdsRow.key).Nodup := by
  rw [validatePartition, decide_eq_true_eq]
  exact length_uniqueFirst_eq_iff

omit [LinearOrder κ] in
theorem nodup_sourceQuery (first last : ℤ) :
    ((sourceQuery source day first last).map WrdsRow.key).Nodup := by
  rw [sourceQuery, List.map_map]
  exact source.keys_nodup.sublist (List.filter_sublist.map _)

omit [LinearOrder κ] in
theorem mem_fullNewDf {startYear : ℤ} {endYear : Option ℤ} {year : ℤ} :
    r ∈ (fullCall writer source day startYear endYear).newDf year ↔
      (∃ row ∈ source.rows, row.toWrdsRow = r ∧ row.visibleOn ≤ day) ∧ r.year = year := by
  have hyear : r.year = year ↔ newYear year ≤ r.date ∧ r.date ≤ newYear (year + 1) - 1 := by
    rw [WrdsRow.year, yearOf_eq_iff]
    exact and_congr_right fun _ => by omega
  rw [hyear]
  exact mem_sourceQuery

/-! ## Files of the source -/

/-- The files hold rows of the source that are visible by that day, in the file of their year. -/
structure Filed (source : Source κ V) (day : ℤ) (store : WrdsStore κ V) : Prop where
  unique : ∀ year, ∀ rows ∈ store.files year, (rows.map WrdsRow.key).Nodup
  rows : ∀ year, ∀ rows ∈ store.files year, ∀ r ∈ rows, r.year = year ∧
    ∃ row ∈ source.rows, row.toWrdsRow = r ∧ row.visibleOn ≤ day

/-- No row is lost. -/
def Grown (store store' : WrdsStore κ V) : Prop := ∀ r, store.Stores r → store'.Stores r

omit [LinearOrder κ] in
theorem Filed.mono (h : Filed source day store) (hle : day ≤ day') : Filed source day' store where
  unique := h.unique
  rows := by
    intro year rows hrows r hr
    obtain ⟨hyear, row, hmem, heq, hvisible⟩ := h.rows year rows hrows r hr
    exact ⟨hyear, row, hmem, heq, hvisible.trans hle⟩

omit [LinearOrder κ] in
theorem filed_rewritten (h : Filed source day store) {startYear : ℤ} {endYear : Option ℤ}
    {years : List ℤ}
    (hwritten : Rewritten (fullCall writer source day startYear endYear) years store store') :
    Filed source day store' ∧ Grown store store' := by
  refine ⟨⟨?_, ?_⟩, ?_⟩
  · intro year rows hrows
    rw [hwritten year] at hrows
    split at hrows
    · cases hrows
      exact nodup_sourceQuery _ _
    · exact h.unique year rows hrows
  · intro year rows hrows r hr
    rw [hwritten year] at hrows
    split at hrows
    · cases hrows
      obtain ⟨hsource, hyear⟩ := mem_fullNewDf.mp hr
      exact ⟨hyear, hsource⟩
    · exact h.rows year rows hrows r hr
  · rintro r ⟨rows, hrows, hr⟩
    unfold WrdsStore.Stores
    rw [hwritten r.year]
    split
    · exact ⟨_, rfl, mem_fullNewDf.mpr ⟨(h.rows _ rows hrows r hr).2, rfl⟩⟩
    · exact ⟨rows, hrows, hr⟩

/-! ## Full syncs -/

section Full

variable {startYear : ℤ} {endYear : Option ℤ} {clock : RegularClock} {killed torn : Bool}
  {sha : Sha256 (List (WrdsRow κ V))}

theorem full_succeeds_iff (call : FullSync κ V)
    (hcall : call = fullCall writer source day startYear endYear) :
    call.Succeeds store clock.toSyncClock ↔
      (call.initialProgress store).yearsRemaining.length ≤ clock.years.length := by
  refine and_iff_left ?_
  intro year _
  rw [hcall, validatePartition_iff]
  exact nodup_sourceQuery _ _

/-- The outcome of a full sync, by whether it has the time. -/
theorem full_outcome (sha : Sha256 (List (WrdsRow κ V))) (clock : RegularClock)
    (killed torn : Bool) (hkept : store.Kept) (call : FullSync κ V)
    (hcall : call = fullCall writer source day startYear endYear) :
    (¬clock.LastsFor (call.initialProgress store).yearsRemaining →
      (fullSync sha store call clock.toSyncClock killed torn).1 = none) ∧
    (clock.LastsFor (call.initialProgress store).yearsRemaining →
      ∃ manifest, (fullSync sha store call clock.toSyncClock killed torn).1 = some manifest ∧
        (fullSync sha store call clock.toSyncClock killed torn).2.manifest = some manifest ∧
        manifest.startDate = newYear call.startYear ∧
        manifest.endDate = newYear (call.lastYear + 1) - 1 ∧
        manifest.filePaths = (call.initialProgress store).yearsCompleted ++
          (call.initialProgress store).yearsRemaining ∧
        Rewritten call (call.initialProgress store).yearsRemaining store
          (fullSync sha store call clock.toSyncClock killed torn).2) := by
  by_cases hlong : (call.initialProgress store).yearsRemaining.length ≤ clock.years.length
  · have hsucceeds := (full_succeeds_iff call hcall).mpr hlong
    obtain ⟨loop, hsynced, -, hsaved, hrefused⟩ :=
      fullSync_outcome sha killed torn hkept clock.regular hsucceeds
    constructor
    · intro hlate
      exact hrefused fun hintime => hlate ⟨hlong, hintime⟩
    · intro hlasts
      rw [hsaved hlasts.2]
      exact ⟨_, rfl, rfl, rfl, rfl, hsynced.filePaths, hsynced.files⟩
  · constructor
    · intro _
      apply fullSync_of_not_succeeds
      rwa [full_succeeds_iff call hcall]
    · intro hlasts
      exact absurd hlasts.1 hlong

omit [LinearOrder κ] in
/-- A visible row is stored in a listed file just where its year was left, or completed with the
row stored. -/
theorem full_row_iff (call : FullSync κ V)
    (hcall : call = fullCall writer source day startYear endYear) {completed remaining : List ℤ}
    (hwritten : Rewritten call remaining store store') {row : SourceRow κ V}
    (hrow : row ∈ source.rows) (hvisible : row.visibleOn ≤ day) :
    (row.year ∈ completed ++ remaining ∧ store'.Stores row.toWrdsRow) ↔
      row.year ∈ remaining ∨ row.year ∈ completed ∧ store.Stores row.toWrdsRow := by
  unfold WrdsStore.Stores
  rw [hwritten row.toWrdsRow.year, List.mem_append]
  by_cases hleft : row.year ∈ remaining
  · have hfetched : row.toWrdsRow ∈ call.newDf row.year := by
      rw [hcall]
      exact mem_fullNewDf.mpr ⟨⟨row, hrow, rfl, hvisible⟩, rfl⟩
    rw [if_pos hleft]
    exact iff_of_true ⟨Or.inr hleft, _, rfl, hfetched⟩ (Or.inl hleft)
  · rw [if_neg hleft, or_iff_left hleft, or_iff_right hleft]

omit [LinearOrder κ] in
theorem year_requested {call : FullSync κ V} {row : SourceRow κ V}
    (hfrom : newYear call.startYear ≤ row.date)
    (hto : row.date ≤ min (newYear (call.lastYear + 1) - 1) day) :
    row.year ∈ call.requestedYears := by
  rw [FullSync.requestedYears, mem_yearRange]
  have hlast := (le_min_iff.mp hto).1
  exact ⟨le_yearOf hfrom, yearOf_le (by omega)⟩

omit [LinearOrder κ] in
theorem resumesCovered_iff {call : FullSync κ V} : ResumesCovered source s day call clock ↔
    (clock.LastsFor (call.initialProgress s.store).yearsRemaining →
      ∀ row ∈ source.rows, row.visibleOn ≤ day → newYear call.startYear ≤ row.date →
        row.date ≤ min (newYear (call.lastYear + 1) - 1) day →
          row.year ∈ (call.initialProgress s.store).yearsRemaining ∨
            row.year ∈ (call.initialProgress s.store).yearsCompleted ∧
              s.store.Stores row.toWrdsRow) := by
  unfold ResumesCovered FullSync.initialProgress
  cases s.store.resumable with
  | none =>
      refine iff_of_true (fun progress hprogress => by cases hprogress) ?_
      intro _ row _ _ hfrom hto
      exact Or.inl (year_requested hfrom hto)
  | some progress => simp

theorem full_covers_iff (hkept : s.store.Kept) (call : FullSync κ V)
    (hcall : call = fullCall writer source day startYear endYear) :
    (∀ manifest ∈ (fullSync sha s.store call clock.toSyncClock killed torn).1,
      CoveredOn source day (fullSync sha s.store call clock.toSyncClock killed torn).2 manifest) ↔
      ResumesCovered source s day call clock := by
  obtain ⟨hrefused, hsigned⟩ := full_outcome sha clock killed torn hkept call hcall
  rw [resumesCovered_iff]
  by_cases hlasts : clock.LastsFor (call.initialProgress s.store).yearsRemaining
  · obtain ⟨manifest, hmanifest, -, hstart, hend, hpaths, hwritten⟩ := hsigned hlasts
    rw [hmanifest, imp_iff_right hlasts]
    constructor
    · intro hcovered row hrow hvisible hfrom hto
      rw [← hstart] at hfrom
      rw [← hend] at hto
      have hstored := hcovered manifest rfl row hrow hvisible hfrom hto
      rw [hpaths] at hstored
      exact (full_row_iff call hcall hwritten hrow hvisible).mp hstored
    · intro hresumes other hother row hrow hvisible hfrom hto
      cases hother
      rw [hstart] at hfrom
      rw [hend] at hto
      rw [hpaths]
      exact (full_row_iff call hcall hwritten hrow hvisible).mpr
        (hresumes row hrow hvisible hfrom hto)
  · rw [hrefused hlasts]
    exact iff_of_true (fun manifest hmanifest => by cases hmanifest) fun h => absurd h hlasts

end Full

/-! ## Incremental syncs -/

section Incremental

variable {lastDate : ℤ} {existing : List (WrdsRow κ V)} {newDf : List (WrdsRow κ V)}

/-- Merged with rows of the source, rows of the source stay and the new ones are added. -/
theorem mem_mergedRows (hexisting : ∀ r ∈ existing, ∃ row ∈ source.rows, row.toWrdsRow = r ∧
      row.visibleOn ≤ day) (hnew : ∀ r ∈ newDf, ∃ row ∈ source.rows, row.toWrdsRow = r ∧
      row.visibleOn ≤ day) (hnodup : (newDf.map WrdsRow.key).Nodup) :
    r ∈ mergedRows existing newDf ↔ r ∈ existing ∨ r ∈ newDf := by
  have hdeduped : ∀ r, r ∈ uniqueLast WrdsRow.key newDf ↔ r ∈ newDf := by
    intro r
    rw [mem_uniqueLast]
    exact ⟨fun hlast => (mem_of_lastRow hlast).1, lastRow_of_nodup hnodup⟩
  rw [mergedRows, mem_sortByKey, List.mem_append, List.mem_filter, hdeduped, decide_eq_true_eq,
    List.mem_map]
  constructor
  · rintro (⟨hold, -⟩ | hfetched)
    · exact Or.inl hold
    · exact Or.inr hfetched
  · rintro (hold | hfetched)
    · by_cases htaken : ∃ n ∈ uniqueLast WrdsRow.key newDf, n.key = r.key
      · obtain ⟨n, hn, hkey⟩ := htaken
        have hfetched := (hdeduped n).mp hn
        rw [source_unique (hnew n hfetched) (hexisting r hold) hkey] at hfetched
        exact Or.inr hfetched
      · exact Or.inl ⟨hold, htaken⟩
    · exact Or.inr hfetched

theorem nodup_mergedRows (hexisting : (existing.map WrdsRow.key).Nodup) :
    ((mergedRows existing newDf).map WrdsRow.key).Nodup := by
  rw [mergedRows, nodup_sortByKey, List.map_append, List.nodup_append]
  refine ⟨hexisting.sublist (List.filter_sublist.map _), nodup_uniqueLast, ?_⟩
  rintro k hk k' hk' rfl
  obtain ⟨r, hr, rfl⟩ := List.mem_map.mp hk
  exact of_decide_eq_true (List.mem_filter.mp hr).2 hk'

omit [LinearOrder κ] in
/-- From the year of the last date on, what is asked for are the rows after it. -/
theorem mem_incrementalNewDf {year : ℤ} (hyear : yearOf lastDate ≤ year) :
    r ∈ (incrementalCall writer source day).newDf lastDate year ↔
      (∃ row ∈ source.rows, row.toWrdsRow = r ∧ row.visibleOn ≤ day) ∧
        r.year = year ∧ lastDate < r.date := by
  have ⟨hfirst, hnext⟩ := yearOf_spec lastDate
  unfold IncrementalSync.newDf incrementalCall
  dsimp only
  rw [mem_sourceQuery, WrdsRow.year, yearOf_eq_iff]
  apply and_congr_right
  intro _
  split
  · rename_i heq
    rw [heq]
    omega
  · rename_i hne
    have hle := newYear_le (lt_of_le_of_ne hyear (Ne.symm hne))
    omega

/-- What syncing these years adds. -/
structure Advanced (call : IncrementalSync κ V) (lastDate : ℤ) (years : List ℤ)
    (loop loop' : IncrementalLoop κ V) : Prop where
  stores : ∀ r, loop'.store.Stores r ↔
    loop.store.Stores r ∨ r.year ∈ years ∧ r ∈ call.newDf lastDate r.year
  files : ∀ year, (loop'.store.files year).isSome ↔ (loop.store.files year).isSome ∨ year ∈ years
  filePaths : ∀ year, year ∈ loop'.filePaths ↔ year ∈ loop.filePaths ∨ year ∈ years
  manifest : loop'.store.manifest = loop.store.manifest
  acquiredAt : loop'.lock.token.acquiredAt = loop.lock.token.acquiredAt

omit [LinearOrder κ] in
theorem advanced_nil {call : IncrementalSync κ V} (loop : IncrementalLoop κ V) :
    Advanced call lastDate [] loop loop := by
  constructor <;> simp

omit [LinearOrder κ] in
theorem Advanced.trans {call : IncrementalSync κ V} {loop loop' loop'' : IncrementalLoop κ V}
    {first second : List ℤ} (h : Advanced call lastDate first loop loop')
    (h' : Advanced call lastDate second loop' loop'') :
    Advanced call lastDate (first ++ second) loop loop'' where
  stores := by
    intro r
    rw [h'.stores, h.stores, List.mem_append, or_assoc, ← or_and_right]
  files := by
    intro year
    rw [h'.files, h.files, List.mem_append, or_assoc]
  filePaths := by
    intro year
    rw [h'.filePaths, h.filePaths, List.mem_append, or_assoc]
  manifest := h'.manifest.trans h.manifest
  acquiredAt := h'.acquiredAt.trans h.acquiredAt

/-- The file of a year holds its rows and the new ones by then. -/
theorem partition_advanced (h : Filed source day store) (year : ℤ) {df : List (WrdsRow κ V)}
    (hdf : ∀ r ∈ df, ∃ row ∈ source.rows, row.toWrdsRow = r ∧ row.visibleOn ≤ day)
    (hnodup : (df.map WrdsRow.key).Nodup) :
    ∃ store' count rows, store.syncYearPartition year df true = some (store', count) ∧
      store' = { store with files := Function.update store.files year (some rows) } ∧
      (rows.map WrdsRow.key).Nodup ∧
      ∀ r, r ∈ rows ↔ (∃ existing ∈ store.files year, r ∈ existing) ∨ r ∈ df := by
  have hwrite : ∀ {rows : List (WrdsRow κ V)}, (rows.map WrdsRow.key).Nodup →
      store.writePartition year rows =
        some ({ store with files := Function.update store.files year (some rows) },
          rows.length) := by
    intro rows hrows
    rw [WrdsStore.writePartition, if_pos (validatePartition_iff.mpr hrows)]
  unfold WrdsStore.syncYearPartition
  cases hfile : store.files year with
  | none =>
      refine ⟨_, _, df, hwrite hnodup, rfl, hnodup, ?_⟩
      simp
  | some existing =>
      have hexisting := h.unique year existing hfile
      dsimp only
      by_cases hempty : df = []
      · rw [if_pos hempty]
        refine ⟨store, existing.length, existing, rfl, ?_, hexisting, ?_⟩
        · rw [← hfile, Function.update_eq_self]
        · simp [hempty]
      · rw [if_neg hempty]
        refine ⟨_, _, _, hwrite (nodup_mergedRows hexisting), rfl, nodup_mergedRows hexisting, ?_⟩
        intro r
        rw [mem_mergedRows (fun r hr => (h.rows year existing hfile r hr).2) hdf hnodup]
        simp

/-- A year of the source is never refused. -/
theorem advanced_year {loop : IncrementalLoop κ V} (h : Filed source day loop.store) {year : ℤ}
    (hyear : yearOf lastDate ≤ year) (now : Timestamp) :
    ∃ loop', (incrementalCall writer source day).syncYear lastDate loop year now = some loop' ∧
      Advanced (incrementalCall writer source day) lastDate [year] loop loop' ∧
      Filed source day loop'.store ∧ loop'.lock = loop.lock.refreshIfDue now := by
  have hnew : ∀ r ∈ (incrementalCall writer source day).newDf lastDate year,
      (∃ row ∈ source.rows, row.toWrdsRow = r ∧ row.visibleOn ≤ day) ∧
        r.year = year ∧ lastDate < r.date := fun r hr => (mem_incrementalNewDf hyear).mp hr
  obtain ⟨store', count, rows, hpartition, rfl, hnodup, hrows⟩ :=
    partition_advanced h year (fun r hr => (hnew r hr).1) (nodup_sourceQuery _ _)
  refine ⟨_, by rw [IncrementalSync.syncYear, hpartition]; rfl, ?_, ?_, rfl⟩
  · constructor
    · intro r
      unfold WrdsStore.Stores
      by_cases heq : r.year = year
      · subst heq
        dsimp only
        rw [Function.update_self]
        simp [hrows]
      · dsimp only
        rw [Function.update_of_ne heq]
        simp [heq]
    · intro other
      dsimp only
      by_cases heq : other = year
      · rw [heq, Function.update_self]
        simp
      · rw [Function.update_of_ne heq]
        simp [heq]
    · intro other
      by_cases heq : other = year <;> simp [heq]
    · rfl
    · exact acquiredAt_refreshIfDue _ _
  · constructor
    · intro other file hfile
      dsimp only at hfile
      by_cases heq : other = year
      · rw [heq, Function.update_self] at hfile
        cases hfile
        exact hnodup
      · rw [Function.update_of_ne heq] at hfile
        exact h.unique other file hfile
    · intro other file hfile r hr
      dsimp only at hfile
      by_cases heq : other = year
      · rw [heq, Function.update_self] at hfile
        cases hfile
        rw [heq]
        rcases (hrows r).mp hr with ⟨existing, hexisting, hold⟩ | hfetched
        · exact h.rows year existing hexisting r hold
        · exact ⟨(hnew r hfetched).2.1, (hnew r hfetched).1⟩
      · rw [Function.update_of_ne heq] at hfile
        exact h.rows other file hfile r hr

theorem advanced_years {steps : List (ℤ × Timestamp)} {loop : IncrementalLoop κ V}
    (h : Filed source day loop.store) (hsteps : ∀ step ∈ steps, yearOf lastDate ≤ step.1)
    {acquired : Timestamp} (hclock : ∀ step ∈ steps, acquired ≤ step.2)
    (hloop : acquired + lockTimeout ≤ loop.lock.token.expiresAt) :
    ∃ loop', (incrementalCall writer source day).syncYears lastDate loop steps = (loop', true) ∧
      Advanced (incrementalCall writer source day) lastDate (steps.map Prod.fst) loop loop' ∧
      Filed source day loop'.store ∧ acquired + lockTimeout ≤ loop'.lock.token.expiresAt := by
  induction steps generalizing loop with
  | nil => exact ⟨loop, rfl, advanced_nil loop, h, hloop⟩
  | cons step steps ih =>
      obtain ⟨year, now⟩ := step
      obtain ⟨next, hnext, hadvanced, hfiled, hlock⟩ :=
        advanced_year h (hsteps (year, now) List.mem_cons_self) now
      have hexpires : acquired + lockTimeout ≤ next.lock.token.expiresAt := by
        rw [hlock]
        exact expiresAt_refreshIfDue (hclock (year, now) List.mem_cons_self) hloop
      obtain ⟨loop', hyears, hlater, hlast, hstill⟩ := ih hfiled
        (fun step hstep => hsteps step (List.mem_cons_of_mem _ hstep))
        (fun step hstep => hclock step (List.mem_cons_of_mem _ hstep)) hexpires
      refine ⟨loop', ?_, hadvanced.trans hlater, hlast, hstill⟩
      rw [IncrementalSync.syncYears, hnext]
      exact hyears

variable {clock : RegularClock} {sha : Sha256 (List (WrdsRow κ V))} {current : WrdsManifest}

/-- An incremental sync that is not up to date. -/
theorem incrementalSync_eq (sha : Sha256 (List (WrdsRow κ V))) {call : IncrementalSync κ V}
    (hcurrent : store.manifest = some current) (hlate : current.endDate < call.today)
    {loop : IncrementalLoop κ V}
    (hloop : call.syncYears current.endDate (call.begin store current clock.toSyncClock)
      ((call.years current.endDate).zip clock.years) = (loop, true)) :
    incrementalSync sha store call clock.toSyncClock =
      if (call.years current.endDate).length ≤ clock.years.length then
        loop.store.saveManifest (call.manifest sha current loop) loop.lock clock.save
      else (none, loop.store) := by
  unfold incrementalSync
  rw [hcurrent]
  dsimp only
  rw [if_neg (not_le.mpr hlate), hloop]
  simp

/-- The outcome of an incremental sync that is not up to date, by whether it has the time. -/
theorem incremental_outcome (writer : SyncWriter) (clock : RegularClock)
    (sha : Sha256 (List (WrdsRow κ V))) (h : Filed source day store)
    (hlisted : ∀ year ∈ current.filePaths, (store.files year).isSome)
    (hcurrent : store.manifest = some current) (hlate : current.endDate < day) :
    ∃ loop, Advanced (incrementalCall writer source day) current.endDate
        ((yearRange (yearOf current.endDate) (yearOf day)).take clock.years.length)
        ((incrementalCall writer source day).begin store current clock.toSyncClock) loop ∧
      Filed source day loop.store ∧
      (∀ year ∈ loop.filePaths, (loop.store.files year).isSome) ∧
      (¬clock.LastsFor (yearRange (yearOf current.endDate) (yearOf day)) →
        incrementalSync sha store (incrementalCall writer source day) clock.toSyncClock =
          (none, loop.store)) ∧
      (clock.LastsFor (yearRange (yearOf current.endDate) (yearOf day)) →
        incrementalSync sha store (incrementalCall writer source day) clock.toSyncClock =
          (some ((incrementalCall writer source day).manifest sha current loop),
            { loop.store with
              manifest :=
                some ((incrementalCall writer source day).manifest sha current loop) })) := by
  have hyears : ∀ step ∈ (yearRange (yearOf current.endDate) (yearOf day)).zip clock.years,
      yearOf current.endDate ≤ step.1 := by
    intro step hstep
    exact (mem_yearRange.mp (List.of_mem_zip hstep).1).1
  have hclock : ∀ step ∈ (yearRange (yearOf current.endDate) (yearOf day)).zip clock.years,
      clock.acquired ≤ step.2 := by
    intro step hstep
    have hsorted := (clock.regular.1.imp fun _ _ hnext => hnext.1).pairwise
    exact List.rel_of_pairwise_cons hsorted (List.of_mem_zip hstep).2
  have hbegin : Filed source day
      ((incrementalCall writer source day).begin store current clock.toSyncClock).store := h
  obtain ⟨loop, hloop, hadvanced, hfiled, hexpires⟩ :=
    advanced_years hbegin hyears hclock (le_refl _)
  rw [map_fst_zip_eq_take] at hadvanced
  have hlock := lockHeld_iff_inTime hadvanced.acquiredAt hexpires
  have hexist : ∀ year ∈ loop.filePaths, (loop.store.files year).isSome := by
    intro year hyear
    rw [hadvanced.files]
    exact ((hadvanced.filePaths year).mp hyear).imp_left (hlisted year)
  have hsync := incrementalSync_eq sha hcurrent hlate hloop
  refine ⟨loop, hadvanced, hfiled, hexist, ?_, ?_⟩
  · intro hshort
    rw [hsync]
    split
    · rename_i hlong
      rw [WrdsStore.saveManifest, if_neg fun hand => hshort ⟨hlong, hlock.mp hand.1⟩]
    · rfl
  · intro hlasts
    have hlong : ((incrementalCall writer source day).years current.endDate).length ≤
        clock.years.length := hlasts.1
    rw [hsync, if_pos hlong, WrdsStore.saveManifest, if_pos ⟨hlock.mpr hlasts.2, hexist⟩]

omit [LinearOrder κ] in
/-- What an incremental sync does not ask for is listed and stored where it was before. -/
theorem advanced_row_iff {loop : IncrementalLoop κ V}
    (h : Advanced (incrementalCall writer source day) current.endDate
      (yearRange (yearOf current.endDate) (yearOf day))
      ((incrementalCall writer source day).begin store current clock.toSyncClock) loop)
    {row : SourceRow κ V} (hrow : row ∈ source.rows) (hvisible : row.visibleOn ≤ day) :
    (row.year ∈ loop.filePaths ∧ loop.store.Stores row.toWrdsRow) ↔
      current.endDate < row.date ∨
        (row.year ∈ current.filePaths ∨ row.year = yearOf current.endDate) ∧
          store.Stores row.toWrdsRow := by
  have hto : row.year ≤ yearOf day := yearOf_mono (row.date_le_visibleOn.trans hvisible)
  rw [h.filePaths, h.stores]
  change ((row.year ∈ current.filePaths ∨ _) ∧ (store.Stores row.toWrdsRow ∨ _)) ↔ _
  by_cases hnew : current.endDate < row.date
  · have hyear : row.year ∈ yearRange (yearOf current.endDate) (yearOf day) :=
      mem_yearRange.mpr ⟨yearOf_mono (le_of_lt hnew), hto⟩
    have hfetched : row.toWrdsRow ∈
        (incrementalCall writer source day).newDf current.endDate row.year :=
      (mem_incrementalNewDf (mem_yearRange.mp hyear).1).mpr
        ⟨⟨row, hrow, rfl, hvisible⟩, rfl, hnew⟩
    exact iff_of_true ⟨Or.inr hyear, Or.inr ⟨hyear, hfetched⟩⟩ (Or.inl hnew)
  · have hfrom : row.year ≤ yearOf current.endDate := yearOf_mono (not_lt.mp hnew)
    have hyear : row.year ∈ yearRange (yearOf current.endDate) (yearOf day) ↔
        row.year = yearOf current.endDate := by
      rw [mem_yearRange]
      omega
    have hnone : ¬(row.year ∈ yearRange (yearOf current.endDate) (yearOf day) ∧ row.toWrdsRow ∈
        (incrementalCall writer source day).newDf current.endDate row.year) := by
      rintro ⟨hlisted, hfetched⟩
      exact hnew ((mem_incrementalNewDf (mem_yearRange.mp hlisted).1).mp hfetched).2.2
    rw [or_iff_left hnone, hyear, or_iff_right hnew]

end Incremental

/-! ## Runs -/

/-- What the store keeps while no sync leaves a hole. -/
structure CoverageState.Sound (source : Source κ V) (s : CoverageState κ V) : Prop where
  filed : Filed source s.day s.store
  kept : s.store.Kept
  listed : ∀ manifest ∈ s.store.manifest, ∀ year ∈ manifest.filePaths,
    (s.store.files year).isSome
  covered : ∀ manifest ∈ s.store.manifest, CoveredOn source s.lastRun s.store manifest
  lastRun_le : s.lastRun ≤ s.day

variable {sha : Sha256 (List (WrdsRow κ V))} {clock : RegularClock}

omit [LinearOrder κ] in
theorem CoveredOn.mono {manifest : WrdsManifest} (h : CoveredOn source day store manifest)
    (hgrown : Grown store store') : CoveredOn source day store' manifest := by
  intro row hrow hvisible hfrom hto
  obtain ⟨hlisted, hstored⟩ := h row hrow hvisible hfrom hto
  exact ⟨hlisted, hgrown _ hstored⟩

omit [LinearOrder κ] in
/-- What was visible on the last run needs no condition. -/
theorem CoverageState.Sound.noneLate_iff (h : s.Sound source) : NoneLate source s day clock ↔
    ∀ manifest ∈ s.store.manifest,
      (manifest.endDate < day →
        clock.LastsFor (yearRange (yearOf manifest.endDate) (yearOf day))) →
      ∀ row ∈ source.rows, row.visibleOn ≤ day → manifest.startDate ≤ row.date →
        row.date ≤ min manifest.endDate day →
          (row.year ∈ manifest.filePaths ∨
            manifest.endDate < day ∧ row.year = yearOf manifest.endDate) ∧
          s.store.Stores row.toWrdsRow := by
  constructor
  · intro hnone manifest hmanifest hlasts row hrow hvisible hfrom hto
    by_cases hlate : s.lastRun < row.visibleOn
    · exact hnone manifest hmanifest hlasts row hrow hlate hvisible hfrom hto
    · have hearly := not_lt.mp hlate
      have hby : row.date ≤ min manifest.endDate s.lastRun :=
        le_min (le_min_iff.mp hto).1 (row.date_le_visibleOn.trans hearly)
      exact (h.covered manifest hmanifest row hrow hearly hfrom hby).imp_left Or.inl
  · intro hall manifest hmanifest hlasts row hrow _
    exact hall manifest hmanifest hlasts row hrow

/-- An incremental sync leaves no hole just where no row is late. -/
theorem incremental_noHole_iff (h : s.Sound source) (later : ℕ) :
    NoHole writer source sha s (.incremental later clock) ↔
      NoneLate source s (s.day + later) clock := by
  rw [h.noneLate_iff]
  unfold NoHole coverageOutcome CoverageEvent.later
  dsimp only
  have hfiled : Filed source (s.day + later) s.store := h.filed.mono (by omega)
  generalize s.day + (later : ℤ) = day at hfiled ⊢
  cases hcurrent : s.store.manifest with
  | none =>
      have hnone : incrementalSync sha s.store (incrementalCall writer source day)
          clock.toSyncClock = (none, s.store) := by
        unfold incrementalSync
        rw [hcurrent]
      rw [hnone]
      simp
  | some current =>
      by_cases hlate : current.endDate < day
      · obtain ⟨loop, hadvanced, -, -, hrefused, hsigned⟩ :=
          incremental_outcome writer clock sha hfiled (h.listed current hcurrent) hcurrent hlate
        by_cases hlasts : clock.LastsFor (yearRange (yearOf current.endDate) (yearOf day))
        · rw [List.take_of_length_le hlasts.1] at hadvanced
          rw [hsigned hlasts]
          constructor
          · intro hnoHole manifest hmanifest _ row hrow hvisible hfrom hto
            cases hmanifest
            have ⟨hend, hday⟩ := le_min_iff.mp hto
            have hstored := (hnoHole _ rfl).1 row hrow hvisible hfrom (le_min hday hday)
            rw [and_iff_right hlate]
            exact ((advanced_row_iff hadvanced hrow hvisible).mp hstored).resolve_left
              (not_lt.mpr hend)
          · intro hall manifest hmanifest
            cases hmanifest
            have hstored : ∀ row ∈ source.rows, row.visibleOn ≤ day →
                current.startDate ≤ row.date →
                  row.year ∈ loop.filePaths ∧ loop.store.Stores row.toWrdsRow := by
              intro row hrow hvisible hfrom
              apply (advanced_row_iff hadvanced hrow hvisible).mpr
              by_cases hnew : current.endDate < row.date
              · exact Or.inl hnew
              · have hday := row.date_le_visibleOn.trans hvisible
                have hold := hall current rfl (fun _ => hlasts) row hrow hvisible hfrom
                  (le_min (not_lt.mp hnew) hday)
                rw [and_iff_right hlate] at hold
                exact Or.inr hold
            constructor
            · intro row hrow hvisible hfrom _
              exact hstored row hrow hvisible hfrom
            · intro row hrow hvisible hfrom
              exact (hstored row hrow hvisible hfrom).2
        · rw [hrefused hlasts]
          constructor
          · intro _ manifest hmanifest hneeded
            cases hmanifest
            exact absurd (hneeded hlate) hlasts
          · intro _ manifest hmanifest
            cases hmanifest
      · have hupToDate : incrementalSync sha s.store (incrementalCall writer source day)
            clock.toSyncClock = (some current, s.store) := by
          unfold incrementalSync
          rw [hcurrent]
          exact if_pos (not_lt.mp hlate)
        rw [hupToDate]
        constructor
        · intro hnoHole manifest hmanifest _ row hrow hvisible hfrom hto
          cases hmanifest
          exact ((hnoHole current rfl).1 row hrow hvisible hfrom hto).imp_left Or.inl
        · intro hall manifest hmanifest
          cases hmanifest
          have hcovered : CoveredOn source day s.store current := by
            intro row hrow hvisible hfrom hto
            obtain ⟨hlisted, hstored⟩ :=
              hall current rfl (fun hend => absurd hend hlate) row hrow hvisible hfrom hto
            exact ⟨hlisted.resolve_right fun hend => hlate hend.1, hstored⟩
          refine ⟨hcovered, ?_⟩
          intro row hrow hvisible hfrom
          have hday := row.date_le_visibleOn.trans hvisible
          exact (hcovered row hrow hvisible hfrom (le_min (hday.trans (not_lt.mp hlate)) hday)).2

/-- A full sync leaves no hole just where it resumes what covers its range. -/
theorem full_noHole_iff (h : s.Sound source) (later : ℕ) (startYear : ℤ) (endYear : Option ℤ)
    (killed torn : Bool) :
    NoHole writer source sha s (.full later startYear endYear clock killed torn) ↔
      ResumesCovered source s (s.day + later)
        (fullCall writer source (s.day + later) startYear endYear) clock := by
  rw [← full_covers_iff h.kept _ rfl]
  constructor
  · intro hnoHole manifest hmanifest
    exact (hnoHole manifest hmanifest).1
  · intro hcovers manifest hmanifest
    exact ⟨hcovers manifest hmanifest, trivial⟩

theorem noHole_iff_timely (h : s.Sound source) (event : CoverageEvent) :
    NoHole writer source sha s event ↔ Timely writer source s event := by
  cases event with
  | full later startYear endYear clock killed torn =>
      exact full_noHole_iff h later startYear endYear killed torn
  | incremental later clock => exact incremental_noHole_iff h later

omit [LinearOrder κ] in
/-- A sync that returns no manifest changes none and loses no row. -/
theorem CoverageState.Sound.refused (h : s.Sound source) (hday : s.day ≤ day)
    (hmanifest : store.manifest = s.store.manifest) (hfiled : Filed source day store)
    (hgrown : Grown s.store store)
    (hfiles : ∀ year, (s.store.files year).isSome → (store.files year).isSome)
    (hkept : store.Kept) : CoverageState.Sound source ⟨store, day, s.lastRun⟩ where
  filed := hfiled
  kept := hkept
  listed := by
    intro manifest hcurrent year hyear
    rw [hmanifest] at hcurrent
    exact hfiles year (h.listed manifest hcurrent year hyear)
  covered := by
    intro manifest hcurrent
    rw [hmanifest] at hcurrent
    exact (h.covered manifest hcurrent).mono hgrown
  lastRun_le := h.lastRun_le.trans hday

theorem sound_full (h : s.Sound source) {later : ℕ} {startYear : ℤ} {endYear : Option ℤ}
    {killed torn : Bool}
    (hnoHole : NoHole writer source sha s (.full later startYear endYear clock killed torn)) :
    (coverageStep writer source sha s (.full later startYear endYear clock killed torn)).Sound
      source := by
  have hday : s.day ≤ s.day + later := by omega
  have hfiled := h.filed.mono hday
  unfold NoHole at hnoHole
  unfold coverageStep
  unfold coverageOutcome at hnoHole ⊢
  dsimp only [CoverageEvent.later] at hnoHole ⊢
  generalize s.day + (later : ℤ) = day at hnoHole hday hfiled ⊢
  have hkept := kept_full h.kept sha (fullCall writer source day startYear endYear)
    clock.toSyncClock killed torn
  obtain ⟨⟨written, -, hwritten⟩, hunchanged⟩ := fullSync_files sha s.store
    (fullCall writer source day startYear endYear) clock.toSyncClock killed torn
  obtain ⟨hstill, hgrown⟩ := filed_rewritten hfiled hwritten
  obtain ⟨hrefused, hsigned⟩ := full_outcome sha clock killed torn h.kept
    (fullCall writer source day startYear endYear) rfl
  by_cases hlasts : clock.LastsFor
      ((fullCall writer source day startYear endYear).initialProgress s.store).yearsRemaining
  · obtain ⟨manifest, hmanifest, hsaved, -, -, hpaths, hyears⟩ := hsigned hlasts
    rw [hmanifest] at hnoHole ⊢
    refine ⟨hstill, hkept, ?_, ?_, le_refl _⟩
    · intro other hother year hyear
      dsimp only at hother ⊢
      rw [hsaved] at hother
      cases hother
      rw [hpaths, List.mem_append] at hyear
      rcases hyear with hcompleted | hleft
      · exact hyears.isSome (completed_kept h.kept hcompleted)
      · rw [hyears year, if_pos hleft]
        rfl
    · intro other hother
      dsimp only at hother ⊢
      rw [hsaved] at hother
      cases hother
      exact (hnoHole manifest rfl).1
  · have hnone := hrefused hlasts
    rw [hnone]
    exact h.refused hday (hunchanged hnone) hstill hgrown (fun year => hwritten.isSome) hkept

theorem sound_incremental (h : s.Sound source) {later : ℕ}
    (hnoHole : NoHole writer source sha s (.incremental later clock)) :
    (coverageStep writer source sha s (.incremental later clock)).Sound source := by
  have hday : s.day ≤ s.day + later := by omega
  have hfiled := h.filed.mono hday
  unfold NoHole at hnoHole
  unfold coverageStep
  unfold coverageOutcome at hnoHole ⊢
  dsimp only [CoverageEvent.later] at hnoHole ⊢
  generalize s.day + (later : ℤ) = day at hnoHole hday hfiled ⊢
  have hkept := kept_incremental h.kept sha (incrementalCall writer source day) clock.toSyncClock
  cases hcurrent : s.store.manifest with
  | none =>
      have hnone : incrementalSync sha s.store (incrementalCall writer source day)
          clock.toSyncClock = (none, s.store) := by
        unfold incrementalSync
        rw [hcurrent]
      rw [hnone]
      exact h.refused hday rfl hfiled (fun _ => id) (fun _ => id) h.kept
  | some current =>
      by_cases hlate : current.endDate < day
      · obtain ⟨loop, hadvanced, hloop, hlisted, hrefused, hsigned⟩ :=
          incremental_outcome writer clock sha hfiled (h.listed current hcurrent) hcurrent hlate
        by_cases hlasts : clock.LastsFor (yearRange (yearOf current.endDate) (yearOf day))
        · rw [hsigned hlasts] at hnoHole hkept ⊢
          refine ⟨⟨hloop.unique, hloop.rows⟩, hkept, ?_, ?_, le_refl _⟩
          · intro manifest hmanifest
            cases hmanifest
            exact hlisted
          · intro manifest hmanifest
            cases hmanifest
            exact (hnoHole _ rfl).1
        · rw [hrefused hlasts] at hkept ⊢
          refine h.refused hday hadvanced.manifest hloop ?_ ?_ hkept
          · intro r hstored
            exact (hadvanced.stores r).mpr (Or.inl hstored)
          · intro year hsome
            exact (hadvanced.files year).mpr (Or.inl hsome)
      · have hupToDate : incrementalSync sha s.store (incrementalCall writer source day)
            clock.toSyncClock = (some current, s.store) := by
          unfold incrementalSync
          rw [hcurrent]
          exact if_pos (not_lt.mp hlate)
        rw [hupToDate] at hnoHole ⊢
        refine ⟨hfiled, h.kept, h.listed, ?_, le_refl _⟩
        intro manifest hmanifest
        dsimp only at hmanifest ⊢
        rw [hcurrent] at hmanifest
        cases hmanifest
        exact (hnoHole current rfl).1

theorem sound_step (h : s.Sound source) {event : CoverageEvent}
    (hnoHole : NoHole writer source sha s event) :
    (coverageStep writer source sha s event).Sound source := by
  cases event with
  | full later startYear endYear clock killed torn => exact sound_full h hnoHole
  | incremental later clock => exact sound_incremental h hnoHole

/-- Before the first sync. -/
def CoverageState.begin (day : ℤ) : CoverageState κ V := ⟨.empty, day, day⟩

omit [LinearOrder κ] in
theorem sound_begin (day : ℤ) : (CoverageState.begin day).Sound source where
  filed := by
    constructor
    · intro year rows hrows
      cases hrows
    · intro year rows hrows
      cases hrows
  kept := by
    intro progress hprogress
    cases hprogress
  listed := by
    intro manifest hmanifest
    cases hmanifest
  covered := by
    intro manifest hmanifest
    cases hmanifest
  lastRun_le := le_refl _

/-- A row of the second of June 2024, which is visible on that day. -/
def juneRow : SourceRow ℕ Unit where
  date := 739039
  id := 10107
  values := ()
  visibleOn := 739039
  date_le_visibleOn := le_refl _

def juneSource : Source ℕ Unit := ⟨[juneRow], by simp⟩

def juneClock : RegularClock := ⟨⟨0, [10], 20⟩, by decide⟩

/-- The year is synced on the first of June, and again two days later. -/
def juneRun : List CoverageEvent :=
  [.full 0 2024 none juneClock false false, .incremental 2 juneClock]

end TradingPlatform.Data.Wrds
