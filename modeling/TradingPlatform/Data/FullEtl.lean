import TradingPlatform.Data.IncrementalEtl

/-! # Full runs and the stored history

A full run replaces the files of its years by what it fetches for them. It loses what is
stored there of other symbols and other days, and one that resumes leaves out the years
that the run before it has done. Neither is so where the step condition is met.
-/

namespace TradingPlatform.Data

open Base

variable {V : Type*}

/-- All rows of the symbols between two days. -/
def provided (history : History V) : Fetch V := fun symbols start stop =>
  history.rows.filter fun r => r.symbol ∈ symbols ∧ start ≤ r.date ∧ r.date ≤ stop

/-- The arguments of a full run and the day it runs on. -/
structure FullRequest where
  symbols : List String
  startDate : ℤ
  endDate : ℤ
  resume : Bool
  today : ℤ

def FullRequest.call (request : FullRequest) (history : History V) : FullCall V where
  symbols := request.symbols
  startDate := request.startDate
  endDate := request.endDate
  resume := request.resume
  today := request.today
  fetch := provided history

structure EtlSystem (V : Type*) where
  history : History V
  store : EtlStore V

inductive EtlEvent (V : Type*) where
  | publish (row : PriceRow V)
  | full (request : FullRequest)
  | interrupted (request : FullRequest) (years : ℕ) (torn : Option ℤ)
  | incremental (symbols : List String) (today : ℤ)
  | crashed (symbols : List String) (today : ℤ) (written : List ℤ)

def etlStep (s : EtlSystem V) : EtlEvent V → EtlSystem V
  | .publish row => { s with history := (s.history.insert row).getD s.history }
  | .full request =>
      { s with store := (s.store.runFull (request.call s.history)).getD s.store }
  | .interrupted request years torn =>
      { s with store := (s.store.interruptFull (request.call s.history) years torn).getD s.store }
  | .incremental symbols today =>
      { s with store := s.store.runIncremental ⟨symbols, today, provided s.history⟩ }
  | .crashed symbols today written =>
      { s with store := s.store.crashIncremental ⟨symbols, today, provided s.history⟩ written }

/-- A row of the range that a full run is asked for. -/
def FullRequest.Covers (request : FullRequest) (row : PriceRow V) : Prop :=
  row.symbol ∈ request.symbols ∧ request.startDate ≤ row.date ∧
    row.date ≤ min request.endDate request.today

def EtlStore.HasKey (store : EtlStore V) (key : ℤ ×ₗ String) : Prop :=
  ∃ year, ∃ rows ∈ store.partition year, ∃ row ∈ rows, row.key = key

/-- No key is lost, and a full run has stored every row of its range. -/
def KeepsHistory (s : EtlSystem V) (event : EtlEvent V) : Prop :=
  (∀ key, s.store.HasKey key → (etlStep s event).store.HasKey key) ∧
    match event with
    | .full request =>
        ∀ row ∈ s.history.rows, request.Covers row → (etlStep s event).store.Stored row
    | _ => True

/-- The years that a full run goes through: those that the last one left, where it resumes. -/
def FullRequest.years (request : FullRequest) (s : EtlSystem V) : List ℤ :=
  (s.store.beginFull (request.call s.history)).1.yearsRemaining

/-- The files of these years hold only rows of the range, unless nothing is fetched for them. -/
def FullRequest.Replaces (request : FullRequest) (s : EtlSystem V) (years : List ℤ) : Prop :=
  ∀ year ∈ years, (∃ row ∈ s.history.rows, row.year = year ∧ request.Covers row) →
    ∀ rows ∈ s.store.partition year, ∀ row ∈ rows, request.Covers row

/-- The rows of the range are of these years, or stored. -/
def FullRequest.Reaches (request : FullRequest) (s : EtlSystem V) (years : List ℤ) : Prop :=
  ∀ row ∈ s.history.rows, request.Covers row → row.year ∈ years ∨ s.store.Stored row

/-- The years whose files an interrupted run may have written. -/
def FullRequest.yearsUntil (request : FullRequest) (s : EtlSystem V) (years : ℕ)
    (torn : Option ℤ) : List ℤ :=
  (request.years s).take years ++
    (torn.filter fun year => (request.years s)[years]? = some year).toList

def Lossless (s : EtlSystem V) : EtlEvent V → Prop
  | .full request => request.Replaces s (request.years s) ∧ request.Reaches s (request.years s)
  | .interrupted request years torn => request.Replaces s (request.yearsUntil s years torn)
  | _ => True

/-- What is stored are rows of the provider, each in the file of its year. -/
def EtlSystem.Filed (s : EtlSystem V) : Prop :=
  ∀ year, ∀ rows ∈ s.store.partition year, ∀ row ∈ rows, row ∈ s.history.rows ∧ row.year = year

variable {s : EtlSystem V} {store : EtlStore V} {year : ℤ} {row : PriceRow V}

/-! ## What a full run writes -/

variable {request : FullRequest} {history : History V} {years : List ℤ}

theorem mem_yearData : row ∈ (request.call history).yearData year ↔
    row ∈ history.rows ∧ row.year = year ∧ request.Covers row := by
  rw [FullCall.yearData, List.mem_filter, decide_eq_true_eq]
  change (row ∈ history.rows.filter _ ∧ row.date ≤ request.today) ↔ _
  rw [List.mem_filter, PriceRow.year, yearOf_eq_iff, FullRequest.Covers]
  simp only [FullRequest.call, FullCall.lastDate, decide_eq_true_eq, max_le_iff, le_min_iff]
  constructor
  · rintro ⟨⟨hmem, hsymbol, ⟨hfirst, hstart⟩, hnext, hend, htoday⟩, -⟩
    exact ⟨hmem, ⟨hfirst, by omega⟩, hsymbol, hstart, hend, htoday⟩
  · rintro ⟨hmem, ⟨hfirst, hnext⟩, hsymbol, hstart, hend, htoday⟩
    exact ⟨⟨hmem, hsymbol, ⟨hfirst, hstart⟩, by omega, hend, htoday⟩, htoday⟩

/-- The rows that a full run stores for a year. -/
def FullRequest.fetched (request : FullRequest) (history : History V) (year : ℤ) :
    List (PriceRow V) :=
  sortByKey PriceRow.key ((request.call history).yearData year)

theorem mem_fetched : row ∈ request.fetched history year ↔
    row ∈ history.rows ∧ row.year = year ∧ request.Covers row := by
  rw [FullRequest.fetched, mem_sortByKey, mem_yearData]

theorem fetched_ne_nil : request.fetched history year ≠ [] ↔
    ∃ row ∈ history.rows, row.year = year ∧ request.Covers row := by
  rw [← List.length_pos_iff, List.length_pos_iff_exists_mem]
  exact exists_congr fun _ => mem_fetched

/-- Rows of the provider have distinct keys, so that no year is refused. -/
theorem validatePartition_fetched : validatePartition (request.fetched history year) = true := by
  rw [validatePartition_iff, FullRequest.fetched, nodup_sortByKey]
  have hsub : ((request.call history).yearData year).Sublist history.rows :=
    List.filter_sublist.trans List.filter_sublist
  exact history.keys_nodup.sublist (hsub.map PriceRow.key)

/-- The files of these years are replaced, where something was fetched for them. -/
def Replaced (request : FullRequest) (history : History V) (years : List ℤ)
    (store store' : EtlStore V) : Prop :=
  ∀ year, store'.partition year =
    if year ∈ years ∧ request.fetched history year ≠ [] then some (request.fetched history year)
    else store.partition year

theorem replaced_write (store : EtlStore V) (hsome : request.fetched history year ≠ []) :
    Replaced request history [year] store (store.write year (request.fetched history year)) := by
  intro other
  rw [partition_write]
  by_cases heq : other = year
  · subst heq
    rw [if_pos rfl, if_pos ⟨List.mem_singleton_self _, hsome⟩]
  · rw [if_neg heq, if_neg fun h => heq (List.mem_singleton.mp h.1)]

theorem replaced_nothing (store : EtlStore V) (hnone : request.fetched history year = []) :
    Replaced request history [year] store store := by
  intro other
  rw [if_neg]
  rintro ⟨hmem, hsome⟩
  rw [List.mem_singleton.mp hmem] at hsome
  exact hsome hnone

theorem replaced_nil (store : EtlStore V) : Replaced request history [] store store := by
  intro year
  rw [if_neg fun h => absurd h.1 List.not_mem_nil]

theorem Replaced.trans {first second : List ℤ} {store store' store'' : EtlStore V}
    (h : Replaced request history first store store')
    (h' : Replaced request history second store' store'') :
    Replaced request history (first ++ second) store store'' := by
  intro year
  rw [h' year, h year]
  by_cases hlater : year ∈ second ∧ request.fetched history year ≠ []
  · rw [if_pos hlater, if_pos ⟨List.mem_append_right _ hlater.1, hlater.2⟩]
  · rw [if_neg hlater]
    by_cases hearlier : year ∈ first ∧ request.fetched history year ≠ []
    · rw [if_pos hearlier, if_pos ⟨List.mem_append_left _ hearlier.1, hearlier.2⟩]
    · rw [if_neg hearlier, if_neg]
      rintro ⟨hmem, hsome⟩
      rcases List.mem_append.mp hmem with hmem | hmem
      · exact hearlier ⟨hmem, hsome⟩
      · exact hlater ⟨hmem, hsome⟩

variable (request history) in
theorem replaced_fetchYear (state : EtlProgress × EtlStore V) (year : ℤ) :
    ∃ state', (request.call history).fetchYear state year = some state' ∧
      Replaced request history [year] state.2 state'.2 := by
  unfold FullCall.fetchYear
  dsimp only
  change ∃ state', (if request.fetched history year = [] then _
    else if validatePartition (request.fetched history year) then _ else _) = some state' ∧ _
  by_cases hnone : request.fetched history year = []
  · rw [if_pos hnone]
    exact ⟨_, rfl, replaced_nothing state.2 hnone⟩
  · rw [if_neg hnone, if_pos validatePartition_fetched]
    exact ⟨_, rfl, replaced_write state.2 hnone⟩

variable (request history) in
theorem replaced_fetchYears (years : List ℤ) (state : EtlProgress × EtlStore V) :
    ∃ state', years.foldlM (request.call history).fetchYear state = some state' ∧
      Replaced request history years state.2 state'.2 := by
  induction years generalizing state with
  | nil => exact ⟨state, rfl, replaced_nil state.2⟩
  | cons year years ih =>
      obtain ⟨next, hnext, hfirst⟩ := replaced_fetchYear request history state year
      obtain ⟨state', hstate', hrest⟩ := ih next
      refine ⟨state', ?_, hfirst.trans hrest⟩
      rw [List.foldlM_cons, hnext]
      exact hstate'

theorem partition_beginFull (store : EtlStore V) (call : FullCall V) (year : ℤ) :
    (store.beginFull call).2.partition year = store.partition year := by
  unfold EtlStore.beginFull
  split
  · have hloaded := partition_loadProgress store year
    split
    · rename_i hload
      rw [hload] at hloaded
      split
      · exact hloaded
      · exact hloaded
    · rename_i hload
      rw [hload] at hloaded
      exact hloaded
  · rfl

/-- A full run goes through all its years. -/
theorem replaced_runFull (request : FullRequest) (s : EtlSystem V) :
    ∃ store', s.store.runFull (request.call s.history) = some store' ∧
      Replaced request s.history (request.years s) s.store store' := by
  obtain ⟨⟨progress, store'⟩, hfold, hreplaced⟩ := replaced_fetchYears request s.history
    (request.years s) (s.store.beginFull (request.call s.history))
  refine ⟨store'.saveProgress ((request.call s.history).finalProgress progress store'), ?_, ?_⟩
  · unfold EtlStore.runFull
    dsimp only
    rw [FullRequest.years] at hfold
    rw [hfold]
    rfl
  · intro year
    rw [← partition_beginFull s.store (request.call s.history) year]
    exact hreplaced year

theorem replaced_interruptFull (request : FullRequest) (s : EtlSystem V) (years : ℕ)
    (torn : Option ℤ) :
    ∃ store', s.store.interruptFull (request.call s.history) years torn = some store' ∧
      Replaced request s.history (request.yearsUntil s years torn) s.store store' := by
  obtain ⟨⟨progress, begun⟩, hfold, hreplaced⟩ := replaced_fetchYears request s.history
    ((request.years s).take years) (s.store.beginFull (request.call s.history))
  have hbegun : Replaced request s.history ((request.years s).take years) s.store begun := by
    intro year
    rw [← partition_beginFull s.store (request.call s.history) year]
    exact hreplaced year
  unfold EtlStore.interruptFull FullRequest.yearsUntil
  dsimp only
  rw [FullRequest.years] at hfold
  rw [hfold]
  cases torn with
  | none => exact ⟨begun, rfl, hbegun.trans (replaced_nil begun)⟩
  | some year =>
      change ∃ store', (if (request.years s)[years]? = some year ∧
          request.fetched s.history year ≠ [] ∧
          validatePartition (request.fetched s.history year) then
          some (begun.write year (request.fetched s.history year))
        else some begun) = some store' ∧ _
      rw [Option.filter_some]
      by_cases hnext : (request.years s)[years]? = some year
      · rw [if_pos (decide_eq_true hnext)]
        by_cases hnone : request.fetched s.history year = []
        · rw [if_neg fun h => h.2.1 hnone]
          exact ⟨_, rfl, hbegun.trans (replaced_nothing begun hnone)⟩
        · rw [if_pos ⟨hnext, hnone, validatePartition_fetched⟩]
          exact ⟨_, rfl, hbegun.trans (replaced_write begun hnone)⟩
      · rw [if_neg fun h => hnext h.1, decide_eq_false hnext]
        exact ⟨_, rfl, hbegun.trans (replaced_nil begun)⟩

/-! ## What it loses and what it reaches -/

/-- With the files replaced, no key is lost just where only rows of the range were stored there. -/
theorem keeps_iff_replaces (hfiled : s.Filed) {store' : EtlStore V}
    (h : Replaced request s.history years s.store store') :
    (∀ key, s.store.HasKey key → store'.HasKey key) ↔ request.Replaces s years := by
  have hsame : ∀ r ∈ s.history.rows, ∀ r' ∈ s.history.rows, r.key = r'.key → r = r' :=
    fun r hr r' hr' hkey => List.inj_on_of_nodup_map s.history.keys_nodup hr hr' hkey
  constructor
  · intro hkeeps year hyear hsome rows hrows row hrow
    have hold := hfiled year rows hrows row hrow
    obtain ⟨year', rows', hrows', row', hrow', hkey⟩ :=
      hkeeps row.key ⟨year, rows, hrows, row, hrow, rfl⟩
    rw [h year'] at hrows'
    split at hrows'
    · cases hrows'
      obtain ⟨hmem, -, hcovers⟩ := mem_fetched.mp hrow'
      rwa [← hsame row' hmem row hold.1 hkey]
    · -- the row would be stored where it was, in a file that is replaced
      rename_i hkept
      have hfile := hfiled year' rows' hrows' row' hrow'
      rw [hsame row' hfile.1 row hold.1 hkey, hold.2] at hfile
      rw [← hfile.2] at hkept
      exact absurd ⟨hyear, fetched_ne_nil.mpr hsome⟩ hkept
  · rintro hreplaces key ⟨year, rows, hrows, row, hrow, rfl⟩
    by_cases hreplaced : year ∈ years ∧ request.fetched s.history year ≠ []
    · have hcovers := hreplaces year hreplaced.1 (fetched_ne_nil.mp hreplaced.2) rows hrows row hrow
      have hold := hfiled year rows hrows row hrow
      refine ⟨year, request.fetched s.history year, ?_, row,
        mem_fetched.mpr ⟨hold.1, hold.2, hcovers⟩, rfl⟩
      rw [h year, if_pos hreplaced]
      rfl
    · refine ⟨year, rows, ?_, row, hrow, rfl⟩
      rw [h year, if_neg hreplaced]
      exact hrows

theorem stores_iff_reaches {store' : EtlStore V}
    (h : Replaced request s.history years s.store store') :
    (∀ row ∈ s.history.rows, request.Covers row → store'.Stored row) ↔
      request.Reaches s years := by
  constructor
  · intro hstores row hrow hcovers
    obtain ⟨rows, hrows, hmem⟩ := hstores row hrow hcovers
    rw [h row.year] at hrows
    split at hrows
    · rename_i hreplaced
      exact Or.inl hreplaced.1
    · exact Or.inr ⟨rows, hrows, hmem⟩
  · intro hreaches row hrow hcovers
    unfold EtlStore.Stored
    rw [h row.year]
    by_cases hyear : row.year ∈ years
    · have hfetched : row ∈ request.fetched s.history row.year :=
        mem_fetched.mpr ⟨hrow, rfl, hcovers⟩
      rw [if_pos ⟨hyear, List.ne_nil_of_mem hfetched⟩]
      exact ⟨_, rfl, hfetched⟩
    · rw [if_neg fun hreplaced => hyear hreplaced.1]
      rcases hreaches row hrow hcovers with hlisted | hstored
      · exact absurd hlisted hyear
      · exact hstored

/-- Merged rows lose no key. -/
theorem hasKey_mergeYears {combined : List (PriceRow V)} (hnodup : years.Nodup)
    (key : ℤ ×ₗ String) (h : store.HasKey key) : (store.mergeYears combined years).HasKey key := by
  obtain ⟨year, rows, hrows, row, hrow, rfl⟩ := h
  by_cases hyear : year ∈ years
  · obtain ⟨last, hlast⟩ : ∃ last, lastRow PriceRow.key
        (rows ++ combined.filter fun r => r.year = year) row.key = some last :=
      exists_lastRow (List.mem_append_left _ hrow)
    obtain ⟨-, hkey⟩ := mem_of_lastRow hlast
    refine ⟨year, mergedRows (some rows) (combined.filter fun r => r.year = year), ?_, last, ?_,
      hkey⟩
    · have hrows : store.partition year = some rows := hrows
      rw [partition_mergeYears hnodup, if_pos hyear, hrows]
      rfl
    · rw [mem_mergedRows, hkey]
      exact hlast
  · refine ⟨year, rows, ?_, row, hrow, rfl⟩
    rw [partition_mergeYears hnodup, if_neg hyear]
    exact hrows

/-! ## Filed rows -/

theorem filed_replaced (hfiled : s.Filed) {store' : EtlStore V}
    (h : Replaced request s.history years s.store store') :
    EtlSystem.Filed { s with store := store' } := by
  intro year rows hrows row hrow
  change rows ∈ store'.partition year at hrows
  rw [h year] at hrows
  split at hrows
  · cases hrows
    obtain ⟨hmem, hyear, -⟩ := mem_fetched.mp hrow
    exact ⟨hmem, hyear⟩
  · exact hfiled year rows hrows row hrow

theorem filed_mergeYears (hfiled : s.Filed) {combined : List (PriceRow V)}
    (hcombined : ∀ r ∈ combined, r ∈ s.history.rows) (hnodup : years.Nodup) :
    EtlSystem.Filed { s with store := s.store.mergeYears combined years } := by
  intro year rows hrows row hrow
  change rows ∈ (s.store.mergeYears combined years).partition year at hrows
  rw [partition_mergeYears hnodup] at hrows
  split at hrows
  · cases hrows
    obtain ⟨hmem, -⟩ := mem_of_lastRow (mem_mergedRows.mp hrow)
    rcases List.mem_append.mp hmem with hold | hnew
    · cases hpartition : s.store.partition year with
      | none =>
          rw [hpartition] at hold
          exact absurd hold List.not_mem_nil
      | some existing =>
          rw [hpartition] at hold
          exact hfiled year existing hpartition row hold
    · obtain ⟨hmem, hyear⟩ := List.mem_filter.mp hnew
      exact ⟨hcombined row hmem, of_decide_eq_true hyear⟩
  · exact hfiled year rows hrows row hrow

theorem mem_combined_provided {symbols : List String} {today : ℤ} {lastDates : String → Option ℤ}
    (h : row ∈ (⟨symbols, today, provided history⟩ : IncrementalCall V).combined lastDates) :
    row ∈ history.rows := by
  rw [IncrementalCall.combined, List.mem_filter, List.mem_flatMap] at h
  obtain ⟨⟨batch, -, hfetched⟩, -⟩ := h
  exact List.mem_of_mem_filter hfetched

/-- Some years were merged with rows of the provider. -/
def Merged (history : History V) (store store' : EtlStore V) : Prop :=
  ∃ (combined : List (PriceRow V)) (years : List ℤ), (∀ r ∈ combined, r ∈ history.rows) ∧
    years.Nodup ∧
    ∀ year, store'.partition year = (store.mergeYears combined years).partition year

theorem partition_mergeYears_loadProgress {combined : List (PriceRow V)} (hnodup : years.Nodup)
    (year : ℤ) : (store.loadProgress.2.mergeYears combined years).partition year =
      (store.mergeYears combined years).partition year := by
  rw [partition_mergeYears hnodup, partition_mergeYears hnodup, partition_loadProgress]

theorem merged_run (store : EtlStore V) (symbols : List String) (today : ℤ) :
    Merged history store (store.runIncremental ⟨symbols, today, provided history⟩) := by
  unfold EtlStore.runIncremental
  dsimp only
  split
  · exact ⟨[], [], by simp, List.nodup_nil, partition_loadProgress store⟩
  · exact ⟨_, _, fun r hr => mem_combined_provided hr, nodup_affectedYears,
      partition_mergeYears_loadProgress nodup_affectedYears⟩

theorem merged_crash (store : EtlStore V) (symbols : List String) (today : ℤ)
    (written : List ℤ) :
    Merged history store (store.crashIncremental ⟨symbols, today, provided history⟩ written) := by
  unfold EtlStore.crashIncremental
  dsimp only
  exact ⟨_, _, fun r hr => mem_combined_provided hr, nodup_affectedYears.filter _,
    partition_mergeYears_loadProgress (nodup_affectedYears.filter _)⟩

theorem Merged.hasKey {store' : EtlStore V} (h : Merged history store store')
    (key : ℤ ×ₗ String) (hkey : store.HasKey key) : store'.HasKey key := by
  obtain ⟨combined, years, -, hnodup, hpartitions⟩ := h
  have hmerged : (store.mergeYears combined years).HasKey key :=
    hasKey_mergeYears hnodup key hkey
  obtain ⟨year, rows, hrows, row, hrow, rfl⟩ := hmerged
  rw [← hpartitions year] at hrows
  exact ⟨year, rows, hrows, row, hrow, rfl⟩

theorem Merged.filed {store' : EtlStore V} (hfiled : s.Filed)
    (h : Merged s.history s.store store') : EtlSystem.Filed { s with store := store' } := by
  obtain ⟨combined, years, hcombined, hnodup, hpartitions⟩ := h
  intro year rows hrows
  change rows ∈ store'.partition year at hrows
  rw [hpartitions year] at hrows
  exact filed_mergeYears hfiled hcombined hnodup year rows hrows

theorem filed_step (hfiled : s.Filed) (event : EtlEvent V) : (etlStep s event).Filed := by
  cases event with
  | publish row =>
      intro year rows hrows r hr
      have ⟨hmem, hyear⟩ := hfiled year rows hrows r hr
      refine ⟨?_, hyear⟩
      change r ∈ ((s.history.insert row).getD s.history).rows
      cases hinsert : s.history.insert row with
      | none => exact hmem
      | some history => exact (Table.mem_insert hinsert).mpr (Or.inl hmem)
  | full request =>
      obtain ⟨store', hrun, hreplaced⟩ := replaced_runFull request s
      rw [etlStep, hrun]
      exact filed_replaced hfiled hreplaced
  | interrupted request years torn =>
      obtain ⟨store', hrun, hreplaced⟩ := replaced_interruptFull request s years torn
      rw [etlStep, hrun]
      exact filed_replaced hfiled hreplaced
  | incremental symbols today => exact (merged_run s.store symbols today).filed hfiled
  | crashed symbols today written => exact (merged_crash s.store symbols today written).filed hfiled

/-! ## Runs -/

theorem keepsHistory_iff (hfiled : s.Filed) (event : EtlEvent V) :
    KeepsHistory s event ↔ Lossless s event := by
  cases event with
  | publish row => exact iff_of_true ⟨fun _ h => h, trivial⟩ trivial
  | full request =>
      obtain ⟨store', hrun, hreplaced⟩ := replaced_runFull request s
      unfold KeepsHistory
      rw [etlStep, hrun]
      exact and_congr (keeps_iff_replaces hfiled hreplaced) (stores_iff_reaches hreplaced)
  | interrupted request years torn =>
      obtain ⟨store', hrun, hreplaced⟩ := replaced_interruptFull request s years torn
      unfold KeepsHistory
      rw [etlStep, hrun]
      exact (and_iff_left trivial).trans (keeps_iff_replaces hfiled hreplaced)
  | incremental symbols today =>
      exact iff_of_true ⟨(merged_run s.store symbols today).hasKey, trivial⟩ trivial
  | crashed symbols today written =>
      exact iff_of_true ⟨(merged_crash s.store symbols today written).hasKey, trivial⟩ trivial

/-- In a run no key is lost and every full run stores all of its range just where each full run
finds in the files that it replaces only rows of its own range, and goes through the year of
every row of its range that is not stored yet. -/
theorem full_runs_keep_history (s : EtlSystem V) (hfiled : s.Filed) (events : List (EtlEvent V)) :
    EachStep etlStep KeepsHistory s events ↔ EachStep etlStep Lossless s events :=
  eachStep_congr (P := EtlSystem.Filed) (C := KeepsHistory) (D := Lossless)
    (fun _ event h _ => filed_step h event) (fun _ event h => keepsHistory_iff h event)
    hfiled events

section Decidable

instance (request : FullRequest) (row : PriceRow V) : Decidable (request.Covers row) :=
  inferInstanceAs (Decidable (_ ∧ _ ∧ _))

instance [DecidableEq V] (store : EtlStore V) (row : PriceRow V) : Decidable (store.Stored row) :=
  inferInstanceAs (Decidable (∃ rows ∈ store.partition row.year, row ∈ rows))

instance (request : FullRequest) (s : EtlSystem V) (years : List ℤ) :
    Decidable (request.Replaces s years) :=
  inferInstanceAs (Decidable (∀ year ∈ years,
    (∃ row ∈ s.history.rows, row.year = year ∧ request.Covers row) →
      ∀ rows ∈ s.store.partition year, ∀ row ∈ rows, request.Covers row))

instance [DecidableEq V] (request : FullRequest) (s : EtlSystem V) (years : List ℤ) :
    Decidable (request.Reaches s years) :=
  inferInstanceAs (Decidable (∀ row ∈ s.history.rows, request.Covers row →
    row.year ∈ years ∨ s.store.Stored row))

instance [DecidableEq V] (s : EtlSystem V) (event : EtlEvent V) : Decidable (Lossless s event) :=
  match event with
  | .full _ => inferInstanceAs (Decidable (_ ∧ _))
  | .interrupted _ _ _ => inferInstanceAs (Decidable (FullRequest.Replaces _ _ _))
  | .publish _ | .incremental _ _ | .crashed _ _ _ => instDecidableTrue

end Decidable

def emptySystem : EtlSystem Unit := ⟨.empty, .empty, .missing⟩

/-- A full run over the days from the second of January 2024 to the tenth. -/
def januaryRequest (symbols : List String) : FullRequest :=
  ⟨symbols, newYear 2024 + 1, newYear 2024 + 9, true, newYear 2024 + 9⟩

/-- A row is published between two full runs with the same arguments, the first one resumed. -/
def januaryRun : List (EtlEvent Unit) :=
  [.publish ⟨newYear 2024 + 1, "MSFT", ()⟩, .publish ⟨newYear 2024 + 2, "AAPL", ()⟩,
    .interrupted (januaryRequest ["AAPL", "MSFT"]) 0 (some 2024),
    .full (januaryRequest ["AAPL", "MSFT"]),
    .publish ⟨newYear 2024 + 3, "AAPL", ()⟩, .incremental ["AAPL"] (newYear 2024 + 9),
    .full (januaryRequest ["AAPL", "MSFT"])]

theorem full_runs_keep_history_january :
    EachStep etlStep KeepsHistory emptySystem januaryRun :=
  (full_runs_keep_history emptySystem (fun _ _ hrows => by cases hrows) januaryRun).mpr
    (by decide +kernel)

/-- One symbol is run after two. -/
def narrowedRun : List (EtlEvent Unit) :=
  [.publish ⟨newYear 2024 + 1, "MSFT", ()⟩, .publish ⟨newYear 2024 + 2, "AAPL", ()⟩,
    .full (januaryRequest ["AAPL", "MSFT"]), .full (januaryRequest ["AAPL"])]

theorem exists_of_hasKey {key : ℤ ×ₗ String} (h : store.HasKey key) :
    ∃ partition ∈ store.partitions.rows, ∃ row ∈ partition.rows, row.key = key := by
  obtain ⟨year, rows, hrows, row, hrow, hkey⟩ := h
  obtain ⟨partition, hfind, rfl⟩ := Option.map_eq_some_iff.mp hrows
  exact ⟨partition, Table.find?_mem hfind, row, hrow, hkey⟩

theorem narrowed_run_loses_history : ¬EachStep etlStep KeepsHistory emptySystem narrowedRun := by
  rintro ⟨-, -, -, ⟨hkeeps, -⟩, -⟩
  have hbefore : EtlStore.HasKey (run etlStep emptySystem (narrowedRun.take 3)).store
      (toLex (newYear 2024 + 1, "MSFT")) :=
    ⟨2024, [⟨newYear 2024 + 1, "MSFT", ()⟩, ⟨newYear 2024 + 2, "AAPL", ()⟩], by decide +kernel,
      ⟨newYear 2024 + 1, "MSFT", ()⟩, List.mem_cons_self, rfl⟩
  have hafter : ∀ partition ∈ (run etlStep emptySystem narrowedRun).store.partitions.rows,
      ∀ row ∈ partition.rows, row.key ≠ toLex (newYear 2024 + 1, "MSFT") := by
    decide +kernel
  obtain ⟨partition, hpartition, row, hrow, hkey⟩ := exists_of_hasKey (hkeeps _ hbefore)
  exact hafter partition hpartition row hrow hkey

end TradingPlatform.Data
