import TradingPlatform.Base.Run
import TradingPlatform.Data.WrdsSync

/-! # Which full syncs are signed

The lock of a sync is refreshed and would not expire, but the save of the manifest has
a deadline of its own, counted from the acquisition. A sync that resumes carries on the
list of years and the count of rows of the run before it, whatever it is asked for and
whatever has been written in between.
-/

namespace TradingPlatform.Data.Wrds

open Base

variable {κ V : Type*} {store : WrdsStore κ V} {call : FullSync κ V}
  {loop loop' loop'' : SyncLoop κ V} {year : ℤ} {years done : List ℤ}

/-! ## The store and the loop -/

theorem map_fst_zip_eq_take {α β : Type*} (as : List α) (bs : List β) :
    (as.zip bs).map Prod.fst = as.take bs.length := by
  induction as generalizing bs with
  | nil => rw [List.zip_nil_left, List.take_nil, List.map_nil]
  | cons a as ih =>
      cases bs with
      | nil => rfl
      | cons b bs =>
          rw [List.zip_cons_cons, List.map_cons, ih, List.length_cons, List.take_succ_cons]

theorem diff_append_left {α : Type*} [DecidableEq α] (done rest : List α) :
    (done ++ rest).diff done = rest := by
  induction done with
  | nil => rfl
  | cons a done ih => rw [List.cons_append, List.diff_cons, List.erase_cons_head, ih]

/-- What syncing these years changes. -/
structure Synced (call : FullSync κ V) (years : List ℤ) (loop loop' : SyncLoop κ V) : Prop where
  files : ∀ year, loop'.store.files year =
    if year ∈ years then some (call.newDf year) else loop.store.files year
  manifest : loop'.store.manifest = loop.store.manifest
  filePaths : loop'.filePaths = loop.filePaths ++ years
  totalRows : loop'.totalRows = loop.totalRows + (years.map fun y => (call.newDf y).length).sum
  completed : loop'.progress.yearsCompleted = loop.progress.yearsCompleted ++ years
  remaining : loop'.progress.yearsRemaining = loop.progress.yearsRemaining.diff years
  status : loop'.progress.status = loop.progress.status
  acquiredAt : loop'.lock.token.acquiredAt = loop.lock.token.acquiredAt

/-- The saved progress is that of the loop. -/
structure SyncLoop.Saved (loop : SyncLoop κ V) : Prop where
  progress : loop.store.progress = some loop.progress
  filePaths : loop.filePaths = loop.progress.yearsCompleted
  totalRows : loop.totalRows = loop.progress.totalRowsSynced

theorem synced_nil (loop : SyncLoop κ V) : Synced call [] loop loop where
  files := fun year => by rw [if_neg List.not_mem_nil]
  manifest := rfl
  filePaths := (List.append_nil _).symm
  totalRows := rfl
  completed := (List.append_nil _).symm
  remaining := rfl
  status := rfl
  acquiredAt := rfl

theorem Synced.trans {first second : List ℤ} (h : Synced call first loop loop')
    (h' : Synced call second loop' loop'') : Synced call (first ++ second) loop loop'' where
  files := by
    intro year
    rw [h'.files, h.files]
    by_cases hlater : year ∈ second
    · rw [if_pos hlater, if_pos (List.mem_append_right _ hlater)]
    · rw [if_neg hlater]
      simp [hlater]
  manifest := h'.manifest.trans h.manifest
  filePaths := by rw [h'.filePaths, h.filePaths, List.append_assoc]
  totalRows := by rw [h'.totalRows, h.totalRows, List.map_append, List.sum_append, Nat.add_assoc]
  completed := by rw [h'.completed, h.completed, List.append_assoc]
  remaining := by rw [h'.remaining, h.remaining, List.diff_append]
  status := h'.status.trans h.status
  acquiredAt := h'.acquiredAt.trans h.acquiredAt

theorem acquiredAt_refreshIfDue (lock : HeldLock) (now : Timestamp) :
    (lock.refreshIfDue now).token.acquiredAt = lock.token.acquiredAt := by
  unfold HeldLock.refreshIfDue
  split <;> rfl

theorem expiresAt_refreshIfDue {lock : HeldLock} {acquired now : Timestamp} (hnow : acquired ≤ now)
    (h : acquired + lockTimeout ≤ lock.token.expiresAt) :
    acquired + lockTimeout ≤ (lock.refreshIfDue now).token.expiresAt := by
  unfold HeldLock.refreshIfDue
  split
  · exact Int.add_le_add_right hnow _
  · exact h

theorem saved_begin (call : FullSync κ V) (store : WrdsStore κ V) (clock : SyncClock) :
    (call.begin store clock).Saved := ⟨rfl, rfl, rfl⟩

/-- The progress that is resumed is that of the requested years, and its count of rows is that of
the files. -/
def FullSync.Resumes (call : FullSync κ V) (store : WrdsStore κ V) : Prop :=
  ∀ progress ∈ store.resumable,
    (progress.yearsCompleted ++ progress.yearsRemaining).Perm call.requestedYears ∧
      progress.totalRowsSynced = store.countRows progress.yearsCompleted

/-- The manifest is saved before the deadline, which counts from the acquisition. -/
def SyncClock.InTime (clock : SyncClock) : Prop :=
  clock.save ≤ clock.acquired + lockHardTimeoutSeconds

/-- The files of the completed years of a progress that may be resumed exist. -/
def WrdsStore.Kept (store : WrdsStore κ V) : Prop :=
  ∀ progress ∈ store.resumable, ∀ year ∈ progress.yearsCompleted, (store.files year).isSome

theorem lockHeld_toJson {token : LockToken} {now : Timestamp} :
    lockHeld token now (some token.toJson) = true ↔
      now ≤ token.expiresAt ∧ now ≤ token.acquiredAt + lockHardTimeoutSeconds := by
  simp [lockHeld, LockToken.toJson, LockData.isOf]

theorem saveManifest_files (store : WrdsStore κ V) (manifest : WrdsManifest) (lock : HeldLock)
    (now : Timestamp) : (store.saveManifest manifest lock now).2.files = store.files := by
  unfold WrdsStore.saveManifest
  split <;> rfl

theorem saveManifest_manifest {manifest : WrdsManifest} {lock : HeldLock} {now : Timestamp}
    (h : (store.saveManifest manifest lock now).1 = none) :
    (store.saveManifest manifest lock now).2.manifest = store.manifest := by
  unfold WrdsStore.saveManifest at h ⊢
  split at h
  · cases h
  · rename_i hrefused
    rw [if_neg hrefused]

/-- Before the deadline of the save a lock that was acquired and refreshed is not expired. -/
theorem lockHeld_iff_inTime {clock : SyncClock} {lock : HeldLock}
    (hacquired : lock.token.acquiredAt = clock.acquired)
    (hexpires : clock.acquired + lockTimeout ≤ lock.token.expiresAt) :
    lockHeld lock.token clock.save (some lock.token.toJson) = true ↔ clock.InTime := by
  have hbefore : clock.acquired + lockHardTimeoutSeconds ≤ clock.acquired + lockTimeout :=
    Int.add_le_add_left (by decide) _
  rw [lockHeld_toJson, hacquired]
  exact and_iff_right_of_imp fun hintime => (hintime.trans hbefore).trans hexpires

/-- The loop when all years are complete. -/
def SyncLoop.complete (loop : SyncLoop κ V) : SyncLoop κ V :=
  loop.saveProgress { loop.progress with status := .completed }

theorem countRows_append (store : WrdsStore κ V) (years years' : List ℤ) :
    store.countRows (years ++ years') = store.countRows years + store.countRows years' := by
  rw [WrdsStore.countRows, List.map_append, List.sum_append]
  rfl

theorem countRows_congr {store' : WrdsStore κ V}
    (h : ∀ year ∈ years, store'.files year = store.files year) :
    store'.countRows years = store.countRows years := by
  unfold WrdsStore.countRows
  congr 1
  apply List.map_congr_left
  intro year hyear
  rw [h year hyear]

theorem resumes_iff : call.Resumes store ↔
    ((call.initialProgress store).yearsCompleted ++
        (call.initialProgress store).yearsRemaining).Perm call.requestedYears ∧
      (call.initialProgress store).totalRowsSynced =
        store.countRows (call.initialProgress store).yearsCompleted := by
  unfold FullSync.Resumes FullSync.initialProgress
  cases store.resumable with
  | none => simp [WrdsStore.countRows]
  | some progress => simp

/-- Where the listed years are distinct, the rows of the new files add to those of the old ones. -/
theorem countRows_synced (h : Synced call years loop loop') {completed : List ℤ}
    (hnodup : (completed ++ years).Nodup) :
    loop'.store.countRows (completed ++ years) =
      loop.store.countRows completed + (years.map fun y => (call.newDf y).length).sum := by
  rw [countRows_append]
  congr 1
  · apply countRows_congr
    intro year hyear
    rw [h.files, if_neg]
    intro hlisted
    exact (List.nodup_append.mp hnodup).2.2 year hyear year hlisted rfl
  · unfold WrdsStore.countRows
    congr 1
    apply List.map_congr_left
    intro year hyear
    rw [h.files, if_pos hyear]
    rfl

theorem completed_kept (h : store.Kept)
    (hyear : year ∈ (call.initialProgress store).yearsCompleted) : (store.files year).isSome := by
  unfold FullSync.initialProgress at hyear
  cases hresumable : store.resumable with
  | none =>
      rw [hresumable] at hyear
      cases hyear
  | some progress =>
      rw [hresumable] at hyear
      exact h progress hresumable year hyear

theorem verifyIntegrity_eq_nil {sha : Sha256 (List (WrdsRow κ V))} {manifest : WrdsManifest}
    (h : store.manifest = some manifest) :
    verifyIntegrity sha store = [] ↔
      (∀ year ∈ manifest.filePaths, (store.files year).isSome) ∧
        combinedChecksum sha store manifest.filePaths = manifest.checksum ∧
        store.countRows manifest.filePaths = manifest.rowCount := by
  unfold verifyIntegrity
  rw [h]
  dsimp only
  by_cases hmissing : manifest.filePaths.filter (fun year => (store.files year).isNone) = []
  · have hexist : ∀ year ∈ manifest.filePaths, (store.files year).isSome := by
      intro year hyear
      have hnone := List.filter_eq_nil_iff.mp hmissing year hyear
      cases hfile : store.files year with
      | none =>
          rw [hfile] at hnone
          exact absurd rfl hnone
      | some rows => rfl
    rw [if_neg (not_not.mpr hmissing), List.append_eq_nil_iff, ite_eq_left_iff, ite_eq_left_iff,
      and_iff_right hexist]
    simp
  · rw [if_pos hmissing]
    refine iff_of_false (by simpa using hmissing) ?_
    rintro ⟨hexist, -⟩
    apply hmissing
    rw [List.filter_eq_nil_iff]
    intro year hyear hnone
    rw [Option.isNone_iff_eq_none] at hnone
    have hsome := hexist year hyear
    rw [hnone] at hsome
    cases hsome

theorem saveManifest_progress (store : WrdsStore κ V) (manifest : WrdsManifest) (lock : HeldLock)
    (now : Timestamp) : (store.saveManifest manifest lock now).2.progress = store.progress := by
  unfold WrdsStore.saveManifest
  split <;> rfl

/-! ## The loop over the years -/

variable [LinearOrder κ]

theorem syncYearPartition_full (store : WrdsStore κ V) (year : ℤ) (df : List (WrdsRow κ V)) :
    store.syncYearPartition year df false = store.writePartition year df := by
  unfold WrdsStore.syncYearPartition
  cases store.files year <;> rfl

/-- A year is synced unless its rows are refused. -/
theorem syncYear_cases (call : FullSync κ V) (loop : SyncLoop κ V) (year : ℤ) (now : Timestamp) :
    (validatePartition (call.newDf year) = false ∧ call.syncYear loop year now = none) ∨
      validatePartition (call.newDf year) = true ∧
        ∃ loop', call.syncYear loop year now = some loop' ∧ Synced call [year] loop loop' ∧
          loop'.lock = loop.lock.refreshIfDue now ∧ (loop.Saved → loop'.Saved) := by
  unfold FullSync.syncYear
  rw [syncYearPartition_full, WrdsStore.writePartition]
  cases hvalid : validatePartition (call.newDf year) with
  | false => exact Or.inl ⟨rfl, rfl⟩
  | true =>
      refine Or.inr ⟨rfl, _, rfl, ?_, rfl, ?_⟩
      · constructor
        · intro other
          by_cases heq : other = year
          · subst heq
            rw [if_pos (List.mem_singleton_self _)]
            exact Function.update_self _ _ _
          · rw [if_neg (by simpa using heq)]
            exact Function.update_of_ne heq _ _
        · rfl
        · rfl
        · rfl
        · rfl
        · rw [List.diff_cons, List.diff_nil]
          rfl
        · rfl
        · exact acquiredAt_refreshIfDue _ _
      · intro hsaved
        refine ⟨rfl, ?_, rfl⟩
        change loop.filePaths ++ [year] = loop.progress.yearsCompleted ++ [year]
        rw [hsaved.filePaths]

/-- The loop goes through the years up to the first that is refused. -/
theorem syncYears_spec (call : FullSync κ V) (steps : List (ℤ × Timestamp)) (loop : SyncLoop κ V) :
    ∃ done rest, steps.map Prod.fst = done ++ rest ∧
      (∀ year ∈ done, validatePartition (call.newDf year) = true) ∧
      Synced call done loop (call.syncYears loop steps).1 ∧
      (loop.Saved → (call.syncYears loop steps).1.Saved) ∧
      ((call.syncYears loop steps).2 = true ↔ rest = []) ∧
      (rest = [] ↔ ∀ year ∈ steps.map Prod.fst, validatePartition (call.newDf year) = true) := by
  induction steps generalizing loop with
  | nil => exact ⟨[], [], rfl, by simp, synced_nil loop, id, by simp [FullSync.syncYears], by simp⟩
  | cons step steps ih =>
      obtain ⟨year, now⟩ := step
      rw [FullSync.syncYears]
      rcases syncYear_cases call loop year now with
        ⟨hrefused, hnone⟩ | ⟨hvalid, next, hnext, hsynced, -, hsaved⟩
      · rw [hnone]
        refine ⟨[], year :: steps.map Prod.fst, rfl, by simp, synced_nil loop, id, by simp, ?_⟩
        simp [hrefused]
      · rw [hnext]
        obtain ⟨done, rest, hsplit, hdone, hrest, hstill, hsucceeded, hall⟩ := ih next
        refine ⟨year :: done, rest, ?_, List.forall_mem_cons.mpr ⟨hvalid, hdone⟩,
          hsynced.trans hrest, hstill ∘ hsaved, hsucceeded, ?_⟩
        · rw [List.map_cons, hsplit, List.cons_append]
        · rw [hall, List.map_cons, List.forall_mem_cons]
          exact (and_iff_right hvalid).symm

/-- A lock that is acquired is not expired before the deadline of the save. -/
theorem expiresAt_syncYears (call : FullSync κ V) {acquired : Timestamp}
    {steps : List (ℤ × Timestamp)} (hsteps : ∀ step ∈ steps, acquired ≤ step.2)
    {loop : SyncLoop κ V} (hloop : acquired + lockTimeout ≤ loop.lock.token.expiresAt) :
    acquired + lockTimeout ≤ (call.syncYears loop steps).1.lock.token.expiresAt := by
  induction steps generalizing loop with
  | nil => exact hloop
  | cons step steps ih =>
      obtain ⟨year, now⟩ := step
      rw [FullSync.syncYears]
      rcases syncYear_cases call loop year now with ⟨-, hnone⟩ | ⟨-, next, hnext, -, hlock, -⟩
      · rw [hnone]
        exact hloop
      · rw [hnext]
        apply ih (fun step hstep => hsteps step (List.mem_cons_of_mem _ hstep))
        rw [hlock]
        exact expiresAt_refreshIfDue (hsteps (year, now) List.mem_cons_self) hloop

/-! ## What a full sync needs -/

/-- The clock lasts for all years, and none of them is refused. -/
def FullSync.Succeeds (call : FullSync κ V) (store : WrdsStore κ V) (clock : SyncClock) : Prop :=
  (call.initialProgress store).yearsRemaining.length ≤ clock.years.length ∧
    ∀ year ∈ (call.initialProgress store).yearsRemaining,
      validatePartition (call.newDf year) = true

/-- The manifest lists the files of the requested years, with the number of their rows, and is
verified. -/
def FullSync.Signs (sha : Sha256 (List (WrdsRow κ V))) (call : FullSync κ V)
    (outcome : Option WrdsManifest × WrdsStore κ V) : Prop :=
  ∃ manifest ∈ outcome.1, outcome.2.manifest = some manifest ∧
    manifest.filePaths.Perm call.requestedYears ∧
    manifest.rowCount = outcome.2.countRows manifest.filePaths ∧
    verifyIntegrity sha outcome.2 = []

variable {sha : Sha256 (List (WrdsRow κ V))} {clock : SyncClock} {killed torn : Bool}

theorem fullSync_of_succeeds (sha : Sha256 (List (WrdsRow κ V))) (killed torn : Bool)
    (h : call.Succeeds store clock) :
    ∃ loop, Synced call (call.initialProgress store).yearsRemaining (call.begin store clock) loop ∧
      (clock.Regular → clock.acquired + lockTimeout ≤ loop.lock.token.expiresAt) ∧
      fullSync sha store call clock killed torn =
        (loop.saveProgress { loop.progress with status := .completed }).store.saveManifest
          (call.manifest sha (loop.saveProgress { loop.progress with status := .completed }))
          loop.lock clock.save := by
  obtain ⟨hlong, hvalid⟩ := h
  obtain ⟨done, rest, hsplit, -, hsynced, -, hsucceeded, hall⟩ := syncYears_spec call
    ((call.initialProgress store).yearsRemaining.zip clock.years) (call.begin store clock)
  rw [List.map_fst_zip hlong] at hsplit hall
  have hrest : rest = [] := hall.mpr hvalid
  rw [hrest, List.append_nil] at hsplit
  subst hsplit
  refine ⟨_, hsynced, ?_, ?_⟩
  · intro hregular
    apply expiresAt_syncYears call ?_ (le_refl _)
    intro step hstep
    have hsorted := (hregular.1.imp fun _ _ h => h.1).pairwise
    exact List.rel_of_pairwise_cons hsorted (List.of_mem_zip hstep).2
  · unfold fullSync
    dsimp only
    rw [if_pos]
    · rfl
    · exact ⟨hsucceeded.mpr hrest, hlong⟩

/-- A full sync that goes through its years saves its manifest just where it is in time. -/
theorem fullSync_outcome (sha : Sha256 (List (WrdsRow κ V))) (killed torn : Bool)
    (hkept : store.Kept) (hregular : clock.Regular) (hsucceeds : call.Succeeds store clock) :
    ∃ loop, Synced call (call.initialProgress store).yearsRemaining (call.begin store clock) loop ∧
      (∀ year ∈ loop.filePaths, (loop.store.files year).isSome) ∧
      (clock.InTime → fullSync sha store call clock killed torn =
        (some (call.manifest sha loop.complete),
          { loop.complete.store with manifest := some (call.manifest sha loop.complete) })) ∧
      (¬clock.InTime → (fullSync sha store call clock killed torn).1 = none) := by
  obtain ⟨loop, hsynced, hexpires, hsync⟩ := fullSync_of_succeeds sha killed torn hsucceeds
  have hexist : ∀ year ∈ loop.filePaths, (loop.store.files year).isSome := by
    intro year hyear
    rw [hsynced.files]
    split
    · rfl
    · rename_i hnew
      rw [hsynced.filePaths, List.mem_append, or_iff_left hnew] at hyear
      exact (completed_kept hkept hyear : (store.files year).isSome)
  have hlock := lockHeld_iff_inTime hsynced.acquiredAt (hexpires hregular)
  refine ⟨loop, hsynced, hexist, ?_, ?_⟩
  · intro hintime
    rw [hsync, WrdsStore.saveManifest, if_pos ⟨hlock.mpr hintime, hexist⟩]
    rfl
  · intro hlate
    rw [hsync, WrdsStore.saveManifest, if_neg fun hand => hlate (hlock.mp hand.1)]

theorem fullSync_of_not_succeeds (sha : Sha256 (List (WrdsRow κ V))) (killed torn : Bool)
    (h : ¬call.Succeeds store clock) : (fullSync sha store call clock killed torn).1 = none := by
  obtain ⟨done, rest, hsplit, -, -, -, hsucceeded, hall⟩ := syncYears_spec call
    ((call.initialProgress store).yearsRemaining.zip clock.years) (call.begin store clock)
  unfold fullSync
  dsimp only
  rw [if_neg]
  · split <;> rfl
  · rintro ⟨hdone, hlong⟩
    have hlong : (call.initialProgress store).yearsRemaining.length ≤ clock.years.length := hlong
    have hvalid := hall.mp (hsucceeded.mp hdone)
    rw [List.map_fst_zip hlong] at hvalid
    exact h ⟨hlong, hvalid⟩

/-- A full sync that goes through its years is signed just where it is in time and resumes what it
is asked for. -/
theorem signs_iff (hkept : store.Kept) (hregular : clock.Regular)
    (hsucceeds : call.Succeeds store clock) :
    call.Signs sha (fullSync sha store call clock killed torn) ↔
      clock.InTime ∧ call.Resumes store := by
  obtain ⟨loop, hsynced, hexist, hsaved, hrefused⟩ :=
    fullSync_outcome sha killed torn hkept hregular hsucceeds
  by_cases hintime : clock.InTime
  · have hpaths : loop.filePaths = (call.initialProgress store).yearsCompleted ++
        (call.initialProgress store).yearsRemaining := hsynced.filePaths
    have htotal : loop.totalRows = (call.initialProgress store).totalRowsSynced +
        ((call.initialProgress store).yearsRemaining.map fun y => (call.newDf y).length).sum :=
      hsynced.totalRows
    have hcount : ((call.initialProgress store).yearsCompleted ++
        (call.initialProgress store).yearsRemaining).Nodup →
        (loop.store.countRows loop.filePaths = loop.totalRows ↔
          (call.initialProgress store).totalRowsSynced =
            store.countRows (call.initialProgress store).yearsCompleted) := by
      intro hnodup
      rw [hpaths, countRows_synced hsynced hnodup, htotal, Nat.add_right_cancel_iff]
      exact eq_comm
    rw [hsaved hintime, and_iff_right hintime, resumes_iff]
    constructor
    · rintro ⟨manifest, hmanifest, -, hperm, hrows, -⟩
      cases hmanifest
      change loop.filePaths.Perm call.requestedYears at hperm
      change loop.totalRows = loop.store.countRows loop.filePaths at hrows
      rw [hpaths] at hperm
      exact ⟨hperm, (hcount (hperm.nodup_iff.mpr (nodup_yearRange _ _))).mp hrows.symm⟩
    · rintro ⟨hperm, hrows⟩
      have hrows := (hcount (hperm.nodup_iff.mpr (nodup_yearRange _ _))).mpr hrows
      rw [← hpaths] at hperm
      refine ⟨_, rfl, rfl, hperm, hrows.symm, ?_⟩
      rw [verifyIntegrity_eq_nil rfl]
      exact ⟨hexist, rfl, hrows⟩
  · refine iff_of_false ?_ fun hand => hintime hand.1
    rintro ⟨manifest, hmanifest, -⟩
    rw [hrefused hintime] at hmanifest
    cases hmanifest

/-! ## Runs -/

inductive WrdsEvent (κ V : Type*) where
  | full (call : FullSync κ V) (clock : SyncClock) (killed torn : Bool)
  | incremental (call : IncrementalSync κ V) (clock : SyncClock)

def wrdsStep (sha : Sha256 (List (WrdsRow κ V))) (store : WrdsStore κ V) :
    WrdsEvent κ V → WrdsStore κ V
  | .full call clock killed torn => (fullSync sha store call clock killed torn).2
  | .incremental call clock => (incrementalSync sha store call clock).2

/-- A full sync of any duration that goes through its years is signed. -/
def LongSyncSigned (sha : Sha256 (List (WrdsRow κ V))) (store : WrdsStore κ V) :
    WrdsEvent κ V → Prop
  | .full call clock killed torn => clock.Regular → call.Succeeds store clock →
      call.Signs sha (fullSync sha store call clock killed torn)
  | .incremental _ _ => True

/-- A full sync is in time and resumes what it is asked for. -/
def InTimeAndResumes (store : WrdsStore κ V) : WrdsEvent κ V → Prop
  | .full call clock _ _ => clock.Regular → call.Succeeds store clock →
      clock.InTime ∧ call.Resumes store
  | .incremental _ _ => True

/-- The files of these years are by now those of the query. -/
def Rewritten (call : FullSync κ V) (years : List ℤ) (store store' : WrdsStore κ V) : Prop :=
  ∀ year, store'.files year =
    if year ∈ years then some (call.newDf year) else store.files year

omit [LinearOrder κ] in
theorem Rewritten.trans {first second : List ℤ} {store store' store'' : WrdsStore κ V}
    (h : Rewritten call first store store') (h' : Rewritten call second store' store'') :
    Rewritten call (first ++ second) store store'' := by
  intro year
  rw [h' year, h year]
  by_cases hlater : year ∈ second
  · rw [if_pos hlater, if_pos (List.mem_append_right _ hlater)]
  · rw [if_neg hlater]
    simp [hlater]

omit [LinearOrder κ] in
theorem Rewritten.isSome {store store' : WrdsStore κ V} (h : Rewritten call years store store')
    (hsome : (store.files year).isSome) : (store'.files year).isSome := by
  rw [h year]
  split
  · rfl
  · exact hsome

theorem tear_frame (call : FullSync κ V) (store : WrdsStore κ V) (next : Option ℤ) :
    (call.tear store next).progress = store.progress ∧
      (call.tear store next).manifest = store.manifest ∧
      ∃ written, (∀ year ∈ written, next = some year ∧
          validatePartition (call.newDf year) = true) ∧
        Rewritten call written store (call.tear store next) := by
  have hnothing : Rewritten call [] store store := fun year => by rw [if_neg List.not_mem_nil]
  unfold FullSync.tear
  cases next with
  | none => exact ⟨rfl, rfl, [], by simp, hnothing⟩
  | some torn =>
      dsimp only
      rw [syncYearPartition_full, WrdsStore.writePartition]
      split
      · rename_i hvalid
        refine ⟨rfl, rfl, [torn], by simpa using hvalid, ?_⟩
        intro year
        change Function.update store.files torn _ year = _
        by_cases heq : year = torn
        · rw [heq, Function.update_self, if_pos (List.mem_singleton_self _)]
        · rw [Function.update_of_ne heq, if_neg fun hmem => heq (List.mem_singleton.mp hmem)]
      · exact ⟨rfl, rfl, [], by simp, hnothing⟩

/-- The progress of a full sync is over, or it was killed and its progress is that of the years it
has done. -/
theorem fullSync_progress (sha : Sha256 (List (WrdsRow κ V))) (store : WrdsStore κ V)
    (call : FullSync κ V) (clock : SyncClock) (killed torn : Bool) :
    (fullSync sha store call clock killed torn).2.resumable = none ∨
      ∃ done rest loop next, (call.initialProgress store).yearsRemaining = done ++ rest ∧
        Synced call done (call.begin store clock) loop ∧ loop.Saved ∧
        (∀ year, next = some year → year ∈ rest) ∧
        (fullSync sha store call clock killed torn).2 = call.tear loop.store next := by
  obtain ⟨done, refused, hsplit, -, hsynced, hsaved, hsucceeded, -⟩ := syncYears_spec call
    ((call.initialProgress store).yearsRemaining.zip clock.years) (call.begin store clock)
  have hover : ∀ {store : WrdsStore κ V} {progress : SyncProgress},
      store.progress = some progress → progress.status ≠ .running → progress.status ≠ .paused →
        store.resumable = none := by
    intro store progress hprogress hrunning hpaused
    rw [WrdsStore.resumable, hprogress]
    simp [hrunning, hpaused]
  unfold fullSync
  dsimp only
  split
  · left
    apply hover
    · rw [saveManifest_progress]
      rfl
    · simp
    · simp
  · split
    · rename_i hkilled
      right
      have hrefused : refused = [] := hsucceeded.mp hkilled.1
      rw [hrefused, List.append_nil, map_fst_zip_eq_take] at hsplit
      refine ⟨done, (call.initialProgress store).yearsRemaining.drop clock.years.length, _, _, ?_,
        hsynced, hsaved (saved_begin call store clock), ?_, rfl⟩
      · rw [← hsplit, List.take_append_drop]
      · intro year hyear
        split at hyear
        · apply List.mem_of_getElem? (i := 0)
          rw [List.getElem?_drop]
          exact hyear
        · cases hyear
    · left
      apply hover
      · exact (tear_frame call _ _).1
      · simp
      · simp

/-- Wherever a full sync ends, the files of some years are by then those of its query. -/
theorem fullSync_files (sha : Sha256 (List (WrdsRow κ V))) (store : WrdsStore κ V)
    (call : FullSync κ V) (clock : SyncClock) (killed torn : Bool) :
    (∃ written, (∀ year ∈ written, validatePartition (call.newDf year) = true) ∧
      Rewritten call written store (fullSync sha store call clock killed torn).2) ∧
    ((fullSync sha store call clock killed torn).1 = none →
      (fullSync sha store call clock killed torn).2.manifest = store.manifest) := by
  obtain ⟨done, rest, -, hvalid, hsynced, -⟩ := syncYears_spec call
    ((call.initialProgress store).yearsRemaining.zip clock.years) (call.begin store clock)
  have htear : ∀ {torn : WrdsStore κ V} {next : Option ℤ},
      torn.files = (call.syncYears (call.begin store clock)
        ((call.initialProgress store).yearsRemaining.zip clock.years)).1.store.files →
      ∃ written, (∀ year ∈ written, validatePartition (call.newDf year) = true) ∧
        Rewritten call written store (call.tear torn next) := by
    intro torn next hfiles
    obtain ⟨-, -, written, hnew, hwritten⟩ := tear_frame call torn next
    have hdone : Rewritten call done store torn := by
      intro year
      rw [hfiles]
      exact hsynced.files year
    refine ⟨done ++ written, ?_, hdone.trans hwritten⟩
    intro year hyear
    rcases List.mem_append.mp hyear with hmem | hmem
    · exact hvalid year hmem
    · exact (hnew year hmem).2
  unfold fullSync
  dsimp only
  split
  · constructor
    · refine ⟨done, hvalid, ?_⟩
      intro year
      rw [saveManifest_files]
      exact hsynced.files year
    · intro hnone
      rw [saveManifest_manifest hnone]
      exact hsynced.manifest
  · split
    · exact ⟨htear rfl, fun _ => (tear_frame call _ _).2.1.trans hsynced.manifest⟩
    · exact ⟨htear rfl, fun _ => (tear_frame call _ _).2.1.trans hsynced.manifest⟩

theorem kept_full (h : store.Kept) (sha : Sha256 (List (WrdsRow κ V))) (call : FullSync κ V)
    (clock : SyncClock) (killed torn : Bool) :
    (fullSync sha store call clock killed torn).2.Kept := by
  rcases fullSync_progress sha store call clock killed torn with hover |
    ⟨done, rest, loop, next, -, hsynced, hsaved, -, heq⟩
  · intro progress hprogress
    rw [hover] at hprogress
    cases hprogress
  · rw [heq]
    intro progress hprogress year hyear
    obtain ⟨hframe, -, written, -, hwritten⟩ := tear_frame call loop.store next
    rw [WrdsStore.resumable, hframe, hsaved.progress] at hprogress
    obtain ⟨hsome, -⟩ := Option.mem_filter_iff.mp hprogress
    cases hsome
    apply hwritten.isSome
    rw [hsynced.completed, List.mem_append] at hyear
    rw [hsynced.files]
    split
    · rfl
    · rename_i hnew
      rw [or_iff_left hnew] at hyear
      exact (completed_kept h hyear : (store.files year).isSome)

/-- An incremental sync leaves the progress, and the files that exist. -/
theorem syncYearPartition_frame {store store' : WrdsStore κ V} {df : List (WrdsRow κ V)}
    {incremental : Bool} {rows : ℕ}
    (h : store.syncYearPartition year df incremental = some (store', rows)) :
    store'.progress = store.progress ∧ store'.manifest = store.manifest ∧
      ∀ other, (store.files other).isSome → (store'.files other).isSome := by
  have hwrite : ∀ {df : List (WrdsRow κ V)}, store.writePartition year df = some (store', rows) →
      store'.progress = store.progress ∧ store'.manifest = store.manifest ∧
        ∀ other, (store.files other).isSome → (store'.files other).isSome := by
    intro df hdf
    unfold WrdsStore.writePartition at hdf
    split at hdf
    · cases hdf
      refine ⟨rfl, rfl, fun other hsome => ?_⟩
      dsimp only
      rw [Function.update_apply]
      split
      · rfl
      · exact hsome
    · cases hdf
  unfold WrdsStore.syncYearPartition at h
  split at h
  · split at h
    · cases h
      exact ⟨rfl, rfl, fun _ => id⟩
    · exact hwrite h
  · exact hwrite h

theorem incrementalYears_frame (call : IncrementalSync κ V) (lastDate : ℤ)
    (steps : List (ℤ × Timestamp)) (loop : IncrementalLoop κ V) :
    (call.syncYears lastDate loop steps).1.store.progress = loop.store.progress ∧
      ∀ year, (loop.store.files year).isSome →
        ((call.syncYears lastDate loop steps).1.store.files year).isSome := by
  induction steps generalizing loop with
  | nil => exact ⟨rfl, fun _ => id⟩
  | cons step steps ih =>
      obtain ⟨year, now⟩ := step
      rw [IncrementalSync.syncYears]
      cases hnext : call.syncYear lastDate loop year now with
      | none => exact ⟨rfl, fun _ => id⟩
      | some next =>
          unfold IncrementalSync.syncYear at hnext
          obtain ⟨⟨store, rows⟩, hpartition, hrest⟩ := Option.bind_eq_some_iff.mp hnext
          cases hrest
          obtain ⟨hprogress, -, hfiles⟩ := syncYearPartition_frame hpartition
          obtain ⟨hlater, hkept⟩ := ih _
          exact ⟨hlater.trans hprogress, fun other hsome => hkept other (hfiles other hsome)⟩

theorem kept_incremental (h : store.Kept) (sha : Sha256 (List (WrdsRow κ V)))
    (call : IncrementalSync κ V) (clock : SyncClock) :
    (incrementalSync sha store call clock).2.Kept := by
  have hkept : ∀ {store' : WrdsStore κ V}, store'.progress = store.progress →
      (∀ year, (store.files year).isSome → (store'.files year).isSome) → store'.Kept := by
    intro store' hprogress hfiles progress hresumed year hyear
    rw [WrdsStore.resumable, hprogress] at hresumed
    exact hfiles year (h progress hresumed year hyear)
  unfold incrementalSync
  split
  · exact h
  · rename_i current hcurrent
    split
    · exact h
    · dsimp only
      obtain ⟨hprogress, hfiles⟩ := incrementalYears_frame call current.endDate
        ((call.years current.endDate).zip clock.years) (call.begin store current clock)
      split
      · rw [WrdsStore.saveManifest]
        split
        · exact hkept hprogress hfiles
        · exact hkept hprogress hfiles
      · exact hkept hprogress hfiles

theorem kept_step (h : store.Kept) (sha : Sha256 (List (WrdsRow κ V))) (event : WrdsEvent κ V) :
    (wrdsStep sha store event).Kept := by
  cases event with
  | full call clock killed torn => exact kept_full h sha call clock killed torn
  | incremental call clock => exact kept_incremental h sha call clock

/-- Wherever a full sync ends, one that is asked for the same years can take over. -/
theorem resumes_full (h : call.Resumes store) (sha : Sha256 (List (WrdsRow κ V)))
    (clock : SyncClock) (killed torn : Bool) {again : FullSync κ V}
    (hagain : again.requestedYears = call.requestedYears) :
    again.Resumes (fullSync sha store call clock killed torn).2 := by
  rcases fullSync_progress sha store call clock killed torn with hover |
    ⟨done, rest, loop, next, hyears, hsynced, hsaved, hnext, heq⟩
  · intro progress hprogress
    rw [hover] at hprogress
    cases hprogress
  · rw [heq]
    intro progress hprogress
    obtain ⟨hframe, -, written, hnew, hwritten⟩ := tear_frame call loop.store next
    rw [WrdsStore.resumable, hframe, hsaved.progress] at hprogress
    obtain ⟨hsome, -⟩ := Option.mem_filter_iff.mp hprogress
    cases hsome
    obtain ⟨hperm, htotal⟩ := resumes_iff.mp h
    rw [hyears] at hperm
    have hnodup : ((call.initialProgress store).yearsCompleted ++ done ++ rest).Nodup := by
      rw [List.append_assoc]
      exact hperm.nodup_iff.mpr (nodup_yearRange _ _)
    have hcompleted : loop.progress.yearsCompleted =
        (call.initialProgress store).yearsCompleted ++ done := hsynced.completed
    have hremaining : loop.progress.yearsRemaining = rest := by
      rw [hsynced.remaining]
      change ((call.initialProgress store).yearsRemaining).diff done = rest
      rw [hyears, diff_append_left]
    rw [hcompleted, hremaining, hagain]
    refine ⟨by rwa [List.append_assoc], ?_⟩
    have hsame : (call.tear loop.store next).countRows
        ((call.initialProgress store).yearsCompleted ++ done) =
        loop.store.countRows ((call.initialProgress store).yearsCompleted ++ done) := by
      apply countRows_congr
      intro year hyear
      rw [hwritten year, if_neg]
      intro hmem
      exact (List.nodup_append.mp hnodup).2.2 year hyear year (hnext year (hnew year hmem).1) rfl
    rw [hsame, countRows_synced hsynced (List.nodup_append.mp hnodup).1, ← hsaved.totalRows,
      hsynced.totalRows]
    change (call.initialProgress store).totalRowsSynced + _ = _
    rw [htotal]
    rfl

def WrdsStore.empty : WrdsStore κ V := ⟨fun _ => none, none, none⟩

instance (clock : SyncClock) : Decidable clock.Regular := inferInstanceAs (Decidable (_ ∧ _))

instance (clock : SyncClock) : Decidable clock.InTime := inferInstanceAs (Decidable (_ ≤ _))

instance (call : FullSync κ V) (store : WrdsStore κ V) (clock : SyncClock) :
    Decidable (call.Succeeds store clock) :=
  inferInstanceAs (Decidable (_ ∧ _))

instance (call : FullSync κ V) (store : WrdsStore κ V) : Decidable (call.Resumes store) :=
  inferInstanceAs (Decidable (∀ progress ∈ store.resumable, _ ∧ _))

instance (store : WrdsStore κ V) (event : WrdsEvent κ V) :
    Decidable (InTimeAndResumes store event) :=
  match event with
  | .full call clock _ _ => inferInstanceAs (Decidable (clock.Regular →
      call.Succeeds store clock → clock.InTime ∧ call.Resumes store))
  | .incremental _ _ => instDecidableTrue

/-- The digest of a file counts its rows. -/
def countingSha : Sha256 (List (WrdsRow ℕ Unit)) where
  ofFile := fun rows => toString rows.length
  ofText := id

/-- A full sync of two years with one row each. -/
def twoYears : FullSync ℕ Unit where
  writer := ⟨1, "worker", "sync"⟩
  startYear := 2022
  endYear := some 2023
  currentYear := 2023
  query := fun first _ => [⟨first, 10107, ()⟩]

/-- The run is killed in its second year; the next one resumes. -/
def killedRun : List (WrdsEvent ℕ Unit) :=
  [.full twoYears ⟨0, [1000], 1000⟩ true false, .full twoYears ⟨5000, [6000], 6100⟩ false false]

end TradingPlatform.Data.Wrds
