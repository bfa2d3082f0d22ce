import TradingPlatform.Base.Run
import TradingPlatform.Data.HistoricalEtl

/-! # Incremental runs leave no hole

Against a provider whose rows are fixed, but of which a run may see only those up
to some date, or none: whatever a saved date covers is stored, wherever a run is
cut short.
-/

namespace TradingPlatform.Data

open Base

variable {V : Type*}

/-- All rows of the provider. -/
abbrev History (V : Type*) := Table (ℤ ×ₗ String) (PriceRow V) PriceRow.key

/-- How the provider answers during a run: for each symbol with its rows up to some date, or with
nothing. -/
structure Answers (history : History V) where
  fetch : Fetch V
  lag : String → Option ℤ
  mem_fetch : ∀ symbols start stop r, r ∈ fetch symbols start stop ↔
    r ∈ history.rows ∧ r.symbol ∈ symbols ∧ start ≤ r.date ∧ r.date ≤ stop ∧
      ∃ last ∈ lag r.symbol, r.date ≤ last

/-- These answers reach no further than those. -/
def Answers.Within {history : History V} (answers answers' : Answers history) : Prop :=
  ∀ symbol, ∀ last ∈ answers.lag symbol, ∃ last' ∈ answers'.lag symbol, last ≤ last'

inductive IncrementalEvent (history : History V) where
  | run (symbols : List String) (today : ℤ) (answers : Answers history)
  | crash (symbols : List String) (today : ℤ) (answers : Answers history) (written : List ℤ)

def incrementalStep {history : History V} (store : EtlStore V) :
    IncrementalEvent history → EtlStore V
  | .run symbols today answers => store.runIncremental ⟨symbols, today, answers.fetch⟩
  | .crash symbols today answers written =>
      store.crashIncremental ⟨symbols, today, answers.fetch⟩ written

/-- `symbol_last_dates[symbol]` in the progress file. -/
def EtlStore.cursor (store : EtlStore V) (symbol : String) : Option ℤ :=
  match store.progress with
  | .saved progress =>
      match progress.symbolLastDates symbol with
      | some (.date day) => some day
      | _ => none
  | _ => none

def EtlStore.Stored (store : EtlStore V) (row : PriceRow V) : Prop :=
  ∃ rows ∈ store.partition row.year, row ∈ rows

structure Sound (history : History V) (store : EtlStore V) : Prop where
  unique : ∀ year, ∀ rows ∈ store.partition year, (rows.map PriceRow.key).Nodup
  complete : ∀ symbol, ∀ day ∈ store.cursor symbol, ∀ row ∈ history.rows, row.symbol = symbol →
    defaultStartDate < row.date → row.date ≤ day → store.Stored row

variable {history : History V} {store store' : EtlStore V} {year : ℤ} {row : PriceRow V}

/-! ## Merged rows -/

variable {existing : Option (List (PriceRow V))} {newDf newDf' : List (PriceRow V)}

theorem mem_mergedRows : row ∈ mergedRows existing newDf ↔
    lastRow PriceRow.key (existing.getD [] ++ newDf) row.key = some row := by
  cases existing with
  | none =>
      rw [mergedRows, mem_sortByKey, mem_uniqueLast]
      rfl
  | some existingDf =>
      rw [mergedRows, mem_sortByKey, mem_uniqueFirst, withKey_sortByKey, ← mem_uniqueFirst,
        mem_uniqueFirst_reverse]
      rfl

theorem nodup_mergedRows : ((mergedRows existing newDf).map PriceRow.key).Nodup := by
  cases existing with
  | none => exact nodup_sortByKey.mpr nodup_uniqueLast
  | some existingDf => exact nodup_sortByKey.mpr nodup_uniqueFirst

theorem pairwise_mergedRows :
    (mergedRows existing newDf).Pairwise fun r s => r.key ≤ s.key := by
  cases existing with
  | none => exact pairwise_sortByKey _
  | some existingDf => exact pairwise_sortByKey _

theorem validatePartition_iff {rows : List (PriceRow V)} :
    validatePartition rows = true ↔ (rows.map PriceRow.key).Nodup := by
  rw [validatePartition, decide_eq_true_eq]
  exact length_uniqueFirst_eq_iff

/-- Merged rows pass the validation, so that a merge always writes. -/
theorem validatePartition_mergedRows : validatePartition (mergedRows existing newDf) = true :=
  validatePartition_iff.mpr nodup_mergedRows

theorem lastRow_mergedRows (k : ℤ ×ₗ String) :
    lastRow PriceRow.key (mergedRows existing newDf) k =
      lastRow PriceRow.key (existing.getD [] ++ newDf) k := by
  cases hlast : lastRow PriceRow.key (existing.getD [] ++ newDf) k with
  | none =>
      rw [lastRow_eq_none] at hlast ⊢
      intro r hr
      exact hlast r (mem_of_lastRow (mem_mergedRows.mp hr)).1
  | some r =>
      obtain ⟨-, rfl⟩ := mem_of_lastRow hlast
      exact lastRow_of_nodup nodup_mergedRows (mem_mergedRows.mpr hlast)

/-- What is merged first makes no difference where the rows merged after it have all its keys. -/
theorem mergedRows_mergedRows (h : ∀ r ∈ newDf, ∃ s ∈ newDf', s.key = r.key) :
    mergedRows (some (mergedRows existing newDf)) newDf' = mergedRows existing newDf' := by
  apply eq_of_mem_iff pairwise_mergedRows pairwise_mergedRows nodup_mergedRows nodup_mergedRows
  intro r
  rw [mem_mergedRows, mem_mergedRows, lastRow_append, lastRow_append, Option.getD_some,
    lastRow_mergedRows, lastRow_append]
  cases hnew : lastRow PriceRow.key newDf' r.key with
  | some s => rfl
  | none =>
      have hfirst : lastRow PriceRow.key newDf r.key = none := by
        rw [lastRow_eq_none] at hnew ⊢
        intro s hs hkey
        obtain ⟨s', hs', hsame⟩ := h s hs
        exact hnew s' hs' (hsame.trans hkey)
      rw [hfirst]
      rfl

/-! ## Partitions -/

theorem partition_write (store : EtlStore V) (year : ℤ) (rows : List (PriceRow V)) (other : ℤ) :
    (store.write year rows).partition other =
      if other = year then some rows else store.partition other := by
  rw [EtlStore.write, EtlStore.partition, Table.find?_upsert, EtlStore.partition]
  split
  · rfl
  · rfl

theorem partition_mergeYears {years : List ℤ} (hnodup : years.Nodup)
    (combined : List (PriceRow V)) (store : EtlStore V) (year : ℤ) :
    (store.mergeYears combined years).partition year =
      if year ∈ years then
        some (mergedRows (store.partition year) (combined.filter fun r => r.year = year))
      else store.partition year := by
  induction years generalizing store with
  | nil => rfl
  | cons first years ih =>
      rw [List.nodup_cons] at hnodup
      change ((store.mergePartition first _).mergeYears combined years).partition year = _
      rw [ih hnodup.2, EtlStore.mergePartition, partition_write]
      by_cases hyear : year = first
      · subst hyear
        rw [if_neg hnodup.1, if_pos rfl, if_pos List.mem_cons_self]
      · rw [if_neg hyear]
        by_cases hlater : year ∈ years
        · rw [if_pos hlater, if_pos (List.mem_cons_of_mem _ hlater)]
        · rw [if_neg hlater, if_neg (by simp [hyear, hlater])]

theorem progress_mergeYears (combined : List (PriceRow V)) (years : List ℤ) (store : EtlStore V) :
    (store.mergeYears combined years).progress = store.progress := by
  induction years generalizing store with
  | nil => rfl
  | cons first years ih => exact ih (store.mergePartition first _)

theorem mem_affectedYears {rows : List (PriceRow V)} :
    year ∈ affectedYears rows ↔ ∃ r ∈ rows, r.year = year := by
  rw [affectedYears, List.mem_dedup, List.mem_map]

theorem nodup_affectedYears {rows : List (PriceRow V)} : (affectedYears rows).Nodup :=
  List.nodup_dedup _

/-- Rows of the provider, once stored, are not lost to its other rows. -/
theorem stored_mergedRows {newDf : List (PriceRow V)} (hrow : row ∈ history.rows)
    (hnew : ∀ r ∈ newDf, r ∈ history.rows)
    (hunique : ((existing.getD []).map PriceRow.key).Nodup)
    (h : row ∈ existing.getD [] ∨ row ∈ newDf) : row ∈ mergedRows existing newDf := by
  have hsame : ∀ r ∈ newDf, r.key = row.key → r = row := by
    intro r hr hkey
    exact List.inj_on_of_nodup_map history.keys_nodup (hnew r hr) hrow hkey
  rw [mem_mergedRows, lastRow_append]
  cases hlast : lastRow PriceRow.key newDf row.key with
  | some r =>
      obtain ⟨hmem, hkey⟩ := mem_of_lastRow hlast
      rw [hsame r hmem hkey]
      rfl
  | none =>
      rw [lastRow_eq_none] at hlast
      rcases h with hold | hfetched
      · exact lastRow_of_nodup hunique hold
      · exact absurd rfl (hlast row hfetched)

/-- Merging rows of the provider keeps what is stored and adds what is merged. -/
theorem stored_mergeYears (hunique : ∀ year, ∀ rows ∈ store.partition year,
      (rows.map PriceRow.key).Nodup) {combined : List (PriceRow V)}
    (hcombined : ∀ r ∈ combined, r ∈ history.rows) {years : List ℤ} (hnodup : years.Nodup)
    (hrow : row ∈ history.rows)
    (h : store.Stored row ∨ row ∈ combined ∧ row.year ∈ years) :
    (store.mergeYears combined years).Stored row := by
  unfold EtlStore.Stored
  rw [partition_mergeYears hnodup]
  split
  · rename_i hyear
    refine ⟨_, rfl, ?_⟩
    apply stored_mergedRows hrow
    · intro r hr
      exact hcombined r (List.mem_of_mem_filter hr)
    · cases hpartition : store.partition row.year with
      | none => exact List.nodup_nil
      | some rows => exact hunique row.year rows hpartition
    · rcases h with ⟨rows, hrows, hmem⟩ | ⟨hmem, -⟩
      · left
        have hrows : store.partition row.year = some rows := hrows
        rw [hrows]
        exact hmem
      · right
        exact List.mem_filter.mpr ⟨hmem, by simp⟩
  · rename_i hyear
    rcases h with hold | ⟨-, hlisted⟩
    · exact hold
    · exact absurd hlisted hyear

theorem unique_mergeYears (hunique : ∀ year, ∀ rows ∈ store.partition year,
      (rows.map PriceRow.key).Nodup) (combined : List (PriceRow V)) {years : List ℤ}
    (hnodup : years.Nodup) :
    ∀ year, ∀ rows ∈ (store.mergeYears combined years).partition year,
      (rows.map PriceRow.key).Nodup := by
  intro year rows hrows
  rw [partition_mergeYears hnodup] at hrows
  split at hrows
  · cases hrows
    exact nodup_mergedRows
  · exact hunique year rows hrows

/-! ## What a run fetches -/

variable {answers : Answers history} {symbols : List String} {today : ℤ}
  {lastDates : String → Option ℤ}

theorem mem_fetchStarts {start : ℤ} {symbol : String} :
    (start, symbol) ∈ fetchStarts lastDates symbols today ↔
      symbol ∈ symbols ∧ (lastDates symbol).getD defaultStartDate < today ∧
        start = (lastDates symbol).getD defaultStartDate + 1 := by
  rw [fetchStarts, List.mem_filterMap]
  constructor
  · rintro ⟨other, hmem, heq⟩
    dsimp only at heq
    split at heq
    · cases heq
    · rename_i hbefore
      cases heq
      exact ⟨hmem, not_le.mp hbefore, rfl⟩
  · rintro ⟨hmem, hbefore, rfl⟩
    refine ⟨symbol, hmem, ?_⟩
    dsimp only
    rw [if_neg (not_le.mpr hbefore)]

theorem mem_dateToSymbols {starts : List (ℤ × String)} {start : ℤ} {batch : List String}
    (h : (start, batch) ∈ dateToSymbols starts) (symbol : String) :
    symbol ∈ batch ↔ (start, symbol) ∈ starts := by
  obtain ⟨other, -, heq⟩ := List.mem_map.mp h
  cases heq
  simp [List.mem_map, List.mem_filter]

theorem exists_dateToSymbols {starts : List (ℤ × String)} {start : ℤ} {symbol : String}
    (h : (start, symbol) ∈ starts) : ∃ batch, (start, batch) ∈ dateToSymbols starts := by
  refine ⟨_, List.mem_map.mpr ⟨start, ?_, rfl⟩⟩
  rw [List.mem_dedup]
  exact List.mem_map_of_mem h

/-- A run fetches what follows the last date of each of its symbols, as far as it is answered. -/
theorem mem_combined : row ∈ (⟨symbols, today, answers.fetch⟩ : IncrementalCall V).combined
      lastDates ↔
    row ∈ history.rows ∧ row.symbol ∈ symbols ∧
      (lastDates row.symbol).getD defaultStartDate < row.date ∧ row.date ≤ today ∧
      ∃ last ∈ answers.lag row.symbol, row.date ≤ last := by
  rw [IncrementalCall.combined, List.mem_filter, List.mem_flatMap]
  constructor
  · rintro ⟨⟨⟨start, batch⟩, hbatch, hfetched⟩, -⟩
    obtain ⟨hmem, hsymbol, hfrom, hto, hlag⟩ := (answers.mem_fetch _ _ _ _).mp hfetched
    obtain ⟨hlisted, -, hstart⟩ := mem_fetchStarts.mp ((mem_dateToSymbols hbatch _).mp hsymbol)
    exact ⟨hmem, hlisted, by omega, hto, hlag⟩
  · rintro ⟨hmem, hlisted, hfrom, hto, hlag⟩
    have hstart : ((lastDates row.symbol).getD defaultStartDate + 1, row.symbol) ∈
        fetchStarts lastDates symbols today :=
      mem_fetchStarts.mpr ⟨hlisted, by omega, rfl⟩
    obtain ⟨batch, hbatch⟩ := exists_dateToSymbols hstart
    refine ⟨⟨_, hbatch, ?_⟩, by simpa using hto⟩
    exact (answers.mem_fetch _ _ _ _).mpr
      ⟨hmem, (mem_dateToSymbols hbatch _).mpr hstart, by omega, hto, hlag⟩

/-- A date that moved is the date of a row that was fetched. -/
theorem cursors_cases {call : IncrementalCall V} {symbol : String} {day : ℤ}
    (h : call.cursors lastDates symbol = some day) :
    lastDates symbol = some day ∨
      ∃ r ∈ call.combined lastDates, r.symbol = symbol ∧ day ≤ r.date := by
  unfold IncrementalCall.cursors at h
  split at h
  · split at h
    · rename_i date hmax
      cases h
      right
      obtain ⟨latest, hlatest, rfl⟩ := Option.map_eq_some_iff.mp hmax
      obtain ⟨r, hr, rfl⟩ := List.mem_map.mp (List.max?_mem hlatest)
      have ⟨hmem, hsymbol⟩ := List.mem_filter.mp hr
      exact ⟨r, hmem, by simpa using hsymbol, min_le_left _ _⟩
    · exact Or.inl h
  · exact Or.inl h

/-! ## Runs -/

theorem partition_loadProgress (store : EtlStore V) (year : ℤ) :
    store.loadProgress.2.partition year = store.partition year := by
  unfold EtlStore.loadProgress
  split <;> rfl

theorem cursor_loadProgress (store : EtlStore V) : store.loadProgress.2.cursor = store.cursor := by
  funext symbol
  unfold EtlStore.loadProgress EtlStore.cursor
  cases hprogress : store.progress <;> simp [hprogress]

/-- A date that a run goes by was saved, or a later one was. -/
theorem cursor_of_parsed {symbol : String} {last : ℤ}
    (h : parseSymbolDates today store.loadProgress.1 symbol = some last) :
    ∃ day ∈ store.cursor symbol, last ≤ day := by
  unfold parseSymbolDates EtlStore.loadProgress at h
  unfold EtlStore.cursor
  cases hprogress : store.progress with
  | missing => simp [hprogress] at h
  | corrupted => simp [hprogress] at h
  | saved progress =>
      simp only [hprogress, Option.bind_some] at h
      split at h
      · rename_i day hday
        cases h
        refine ⟨day, ?_, min_le_left _ _⟩
        simp only [hday]
        rfl
      · cases h

theorem Sound.loadProgress (h : Sound history store) : Sound history store.loadProgress.2 := by
  constructor
  · intro year rows hrows
    rw [partition_loadProgress] at hrows
    exact h.unique year rows hrows
  · intro symbol day hday row hrow hsymbol hfrom hto
    rw [cursor_loadProgress] at hday
    unfold EtlStore.Stored
    rw [partition_loadProgress]
    exact h.complete symbol day hday row hrow hsymbol hfrom hto

theorem cursor_saveProgress (store : EtlStore V) (call : IncrementalCall V)
    (progress : Option EtlProgress) (symbol : String) :
    (store.saveProgress (call.nextProgress progress)).cursor symbol =
      call.cursors (parseSymbolDates call.today progress) symbol := by
  unfold EtlStore.cursor EtlStore.saveProgress IncrementalCall.nextProgress
  dsimp only
  cases call.cursors (parseSymbolDates call.today progress) symbol <;> rfl

theorem sound_run (h : Sound history store) (symbols : List String) (today : ℤ)
    (answers : Answers history) :
    Sound history (store.runIncremental ⟨symbols, today, answers.fetch⟩) := by
  have hloaded := h.loadProgress
  unfold EtlStore.runIncremental
  dsimp only
  split
  · exact hloaded
  have hcombined : ∀ r ∈ (⟨symbols, today, answers.fetch⟩ : IncrementalCall V).combined
      (parseSymbolDates today store.loadProgress.1), r ∈ history.rows :=
    fun r hr => (mem_combined.mp hr).1
  constructor
  · exact unique_mergeYears hloaded.unique _ nodup_affectedYears
  · intro symbol day hday row hrow hsymbol hfrom hto
    rw [cursor_saveProgress] at hday
    apply stored_mergeYears hloaded.unique hcombined nodup_affectedYears hrow
    -- up to the last date the row was stored before, from there on it was fetched
    have hold : ∀ last, parseSymbolDates today store.loadProgress.1 symbol = some last →
        row.date ≤ last → store.loadProgress.2.Stored row := by
      intro last hlast hle
      obtain ⟨saved, hsaved, hlater⟩ := cursor_of_parsed hlast
      rw [← cursor_loadProgress] at hsaved
      exact hloaded.complete symbol saved hsaved row hrow hsymbol hfrom (hle.trans hlater)
    rcases cursors_cases hday with hkept | ⟨latest, hlatest, hsame, hday⟩
    · exact Or.inl (hold day hkept hto)
    · obtain ⟨-, hlisted, -, hpast, last, hlast, hlag⟩ := mem_combined.mp hlatest
      rw [hsame] at hlisted hlast
      by_cases hbefore : row.date ≤
          (parseSymbolDates today store.loadProgress.1 symbol).getD defaultStartDate
      · cases hparsed : parseSymbolDates today store.loadProgress.1 symbol with
        | none =>
            rw [hparsed] at hbefore
            exact absurd hbefore (not_le.mpr hfrom)
        | some last =>
            rw [hparsed] at hbefore
            exact Or.inl (hold last hparsed hbefore)
      · right
        have hmem : row ∈ (⟨symbols, today, answers.fetch⟩ : IncrementalCall V).combined
            (parseSymbolDates today store.loadProgress.1) := by
          rw [mem_combined, hsymbol]
          exact ⟨hrow, hlisted, not_le.mp hbefore, by omega, last, hlast, by omega⟩
        exact ⟨hmem, mem_affectedYears.mpr ⟨row, hmem, rfl⟩⟩

theorem sound_crash (h : Sound history store) (symbols : List String) (today : ℤ)
    (answers : Answers history) (written : List ℤ) :
    Sound history (store.crashIncremental ⟨symbols, today, answers.fetch⟩ written) := by
  have hloaded := h.loadProgress
  have hnodup : ((affectedYears ((⟨symbols, today, answers.fetch⟩ : IncrementalCall V).combined
      (parseSymbolDates today store.loadProgress.1))).filter fun year => year ∈ written).Nodup :=
    nodup_affectedYears.filter _
  unfold EtlStore.crashIncremental
  dsimp only
  constructor
  · exact unique_mergeYears hloaded.unique _ hnodup
  · intro symbol day hday row hrow hsymbol hfrom hto
    have hsaved : store.loadProgress.2.cursor symbol = some day := by
      rw [← hday, EtlStore.cursor, EtlStore.cursor, progress_mergeYears]
    apply stored_mergeYears hloaded.unique (fun r hr => (mem_combined.mp hr).1) hnodup hrow
    exact Or.inl (hloaded.complete symbol day hsaved row hrow hsymbol hfrom hto)

theorem sound_step (h : Sound history store) (event : IncrementalEvent history) :
    Sound history (incrementalStep store event) := by
  cases event with
  | run symbols today answers => exact sound_run h symbols today answers
  | crash symbols today answers written => exact sound_crash h symbols today answers written

/-! ## Running again after a crash -/

/-- The run after a crash loads the progress that the crashed run has loaded. -/
theorem loadProgress_crash (store : EtlStore V) (call : IncrementalCall V) (written : List ℤ) :
    (store.crashIncremental call written).loadProgress.1 = store.loadProgress.1 ∧
      (store.crashIncremental call written).loadProgress.2 =
        store.crashIncremental call written := by
  have hprogress : (store.crashIncremental call written).progress =
      store.loadProgress.2.progress := progress_mergeYears _ _ _
  have hload : ∀ {other : EtlStore V}, other.progress = store.loadProgress.2.progress →
      other.loadProgress = (store.loadProgress.1, other) := by
    intro other hother
    unfold EtlStore.loadProgress at hother ⊢
    cases hfile : store.progress <;> simp_all
  rw [hload hprogress]
  exact ⟨rfl, rfl⟩

/-- What the crashed run was answered, the run after it is answered too. -/
theorem combined_subset {answers answers' : Answers history} (hwithin : answers.Within answers')
    (h : row ∈ (⟨symbols, today, answers.fetch⟩ : IncrementalCall V).combined lastDates) :
    row ∈ (⟨symbols, today, answers'.fetch⟩ : IncrementalCall V).combined lastDates := by
  obtain ⟨hmem, hlisted, hfrom, hto, last, hlast, hlag⟩ := mem_combined.mp h
  obtain ⟨last', hlast', hle⟩ := hwithin row.symbol last hlast
  exact mem_combined.mpr ⟨hmem, hlisted, hfrom, hto, last', hlast', hlag.trans hle⟩

theorem partition_runIncremental (store : EtlStore V) (call : IncrementalCall V) (year : ℤ) :
    (store.runIncremental call).partition year =
      if year ∈
          affectedYears (call.combined (parseSymbolDates call.today store.loadProgress.1)) then
        some (mergedRows (store.partition year)
          ((call.combined (parseSymbolDates call.today store.loadProgress.1)).filter fun r =>
            r.year = year))
      else store.partition year := by
  unfold EtlStore.runIncremental
  dsimp only
  split
  · rename_i hnone
    rw [hnone, if_neg (by simp [affectedYears]), partition_loadProgress]
  · change EtlStore.partition (EtlStore.mergeYears _ _ _) year = _
    rw [partition_mergeYears nodup_affectedYears, partition_loadProgress]

theorem partition_crashIncremental (store : EtlStore V) (call : IncrementalCall V)
    (written : List ℤ) (year : ℤ) :
    (store.crashIncremental call written).partition year =
      if year ∈ affectedYears (call.combined
          (parseSymbolDates call.today store.loadProgress.1)) ∧ year ∈ written then
        some (mergedRows (store.partition year)
          ((call.combined (parseSymbolDates call.today store.loadProgress.1)).filter fun r =>
            r.year = year))
      else store.partition year := by
  unfold EtlStore.crashIncremental
  dsimp only
  rw [partition_mergeYears (nodup_affectedYears.filter _), partition_loadProgress]
  simp only [List.mem_filter, decide_eq_true_eq]

theorem rerun_partition (store : EtlStore V) (symbols : List String) (today : ℤ)
    {answers answers' : Answers history} (hwithin : answers.Within answers') (written : List ℤ)
    (year : ℤ) :
    ((store.crashIncremental ⟨symbols, today, answers.fetch⟩ written).runIncremental
        ⟨symbols, today, answers'.fetch⟩).partition year =
      (store.runIncremental ⟨symbols, today, answers'.fetch⟩).partition year := by
  rw [partition_runIncremental, partition_runIncremental, (loadProgress_crash store _ written).1,
    partition_crashIncremental]
  by_cases hlater : year ∈ affectedYears ((⟨symbols, today, answers'.fetch⟩ :
      IncrementalCall V).combined (parseSymbolDates today store.loadProgress.1))
  · rw [if_pos hlater, if_pos hlater]
    split
    · rw [mergedRows_mergedRows]
      intro r hr
      obtain ⟨hmem, hyear⟩ := List.mem_filter.mp hr
      exact ⟨r, List.mem_filter.mpr ⟨combined_subset hwithin hmem, hyear⟩, rfl⟩
    · rfl
  · rw [if_neg hlater, if_neg hlater, if_neg]
    rintro ⟨hfirst, -⟩
    obtain ⟨r, hr, hyear⟩ := mem_affectedYears.mp hfirst
    exact hlater (mem_affectedYears.mpr ⟨r, combined_subset hwithin hr, hyear⟩)

/-- Whatever the symbols, the days, the answers and the crashes, no saved date leaves a hole below
it and no key is stored twice. A run after a crash, answered as the crashed run was or further,
leaves the partitions that it would have left without the crash. -/
theorem incremental_leaves_no_hole (history : History V) :
    (∀ (store : EtlStore V) (events : List (IncrementalEvent history)), Sound history store →
      EveryState incrementalStep (Sound history) store events) ∧
    ∀ (store : EtlStore V) (symbols : List String) (today : ℤ) (answers answers' : Answers history)
      (written : List ℤ), answers.Within answers' → ∀ year,
        (run incrementalStep store [.crash symbols today answers written,
          .run symbols today answers']).partition year =
        (run incrementalStep store [.run symbols today answers']).partition year := by
  constructor
  · intro store events hsound
    exact everyState_of_step (fun store event h => sound_step h event) events hsound
  · intro store symbols today answers answers' written hwithin year
    exact rerun_partition store symbols today hwithin written year

/-- The rows of each symbol up to its lag date. -/
def Answers.upTo (history : History V) (lag : String → Option ℤ) : Answers history where
  fetch := fun symbols start stop => history.rows.filter fun r =>
    r.symbol ∈ symbols ∧ start ≤ r.date ∧ r.date ≤ stop ∧ ∃ last ∈ lag r.symbol, r.date ≤ last
  lag := lag
  mem_fetch := by
    intro symbols start stop r
    rw [List.mem_filter, decide_eq_true_eq]

theorem sound_empty (history : History V) : Sound history ⟨.empty, .missing⟩ := by
  constructor
  · intro year rows hrows
    cases hrows
  · intro symbol day hday
    cases hday

/-- Three days around a new year. -/
def newYearHistory : History Unit :=
  ⟨[⟨newYear 2024 - 1, "AAPL", ()⟩, ⟨newYear 2024, "AAPL", ()⟩, ⟨newYear 2024, "MSFT", ()⟩],
    by decide +kernel⟩

theorem incremental_leaves_no_hole_new_year :
    EveryState incrementalStep (Sound newYearHistory) ⟨.empty, .missing⟩
        [.run ["AAPL", "MSFT"] (newYear 2024 - 1)
            (.upTo newYearHistory fun _ => some (newYear 2024)),
          .crash ["AAPL"] (newYear 2024) (.upTo _ fun _ => some (newYear 2024)) [2023],
          .run ["AAPL"] (newYear 2024) (.upTo _ fun _ => some (newYear 2024))] ∧
      ∀ year, (run incrementalStep ⟨.empty, .missing⟩
          [.crash ["AAPL"] (newYear 2024) (.upTo _ fun _ => some (newYear 2024 - 1)) [2023],
            .run ["AAPL"] (newYear 2024)
              (.upTo newYearHistory fun _ => some (newYear 2024))]).partition year =
        (run incrementalStep ⟨.empty, .missing⟩ [.run ["AAPL"] (newYear 2024)
          (.upTo newYearHistory fun _ => some (newYear 2024))]).partition year := by
  have hbound := incremental_leaves_no_hole newYearHistory
  refine ⟨hbound.1 _ _ (sound_empty _), hbound.2 _ _ _ _ _ _ ?_⟩
  intro symbol last hlast
  cases hlast
  exact ⟨newYear 2024, rfl, Int.sub_le_self _ (by decide)⟩

end TradingPlatform.Data
