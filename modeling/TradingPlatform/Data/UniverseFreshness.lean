import TradingPlatform.Data.UniverseCaches

/-! # Freshness of the universe caches

An entry of enriched constituents carries an mtime from before its computation, so it is refused
as soon as a newer file is there. A list of unresolved tickers carries the generation at the time
it was stored, and a generation counts the calls of one process: what is needed beyond that for a
list to be refused in time is made exact.
-/

namespace TradingPlatform.Data

open Base

variable {D P T : Type}

/-! ## The claim of a result -/

/-- The result is not derived from a version that had been deleted before a save which had
completed when the call started. -/
def FreshResult (h : UniverseHistory) (r : ReturnedResult) : Prop :=
  ∀ save ∈ r.completedAtStart, r.version ∉ h.deletedBefore save

/-- No save among these is newer than the version. -/
def NotOlder (saves : List ℕ) (version : ℕ) : Prop := ∀ save ∈ saves, save ≤ version

/-! ## The invariant -/

/-- An mtime from before a computation, and the version that was computed from. -/
structure Dated (h : UniverseHistory) (mtime version : ℕ) : Prop where
  mtime_le : mtime ≤ h.lastMtime
  version_le : version ≤ h.lastVersion
  older : version < h.lastVersion → mtime < h.lastMtime

structure ManagerInv (h : UniverseHistory) (m : UniverseManager D) : Prop where
  entries : ∀ date e, m.enrichedCache date = some e → Dated h e.sourceMtime e.version
  lists : ∀ date e, m.lastUnresolved date = some e → e.generation ≤ m.universeGeneration

structure WorldInv (w : UniverseWorld P D) : Prop where
  file : ∀ saved, w.file = some saved →
    saved.version = w.history.lastVersion ∧ saved.mtime = w.history.lastMtime
  managers : ∀ p, ManagerInv w.history (w.managers p)
  completed : NotOlder w.history.completed w.history.lastVersion
  deleted : ∀ version ∈ w.history.deleted, version ≤ w.history.lastVersion
  deletedBefore : ∀ save, ∀ version ∈ w.history.deletedBefore save, version < save
  returned : ∀ r ∈ w.history.returned, r.kind = .enriched → NotOlder r.completedAtStart r.version

/-- What a call carries along. -/
def CallInv (h : UniverseHistory) (start : List ℕ) : UniverseCall D → Prop
  | .enrichedRead _ _ _ _ preMtime => preMtime ≤ h.lastMtime
  | .enrichedList _ _ _ _ preMtime saved _ =>
      Dated h preMtime saved.version ∧ NotOlder start saved.version
  | .enrichedCompare _ _ _ _ preMtime version _ =>
      Dated h preMtime version ∧ NotOlder start version
  | .enrichedStore _ _ preMtime version _ => Dated h preMtime version ∧ NotOlder start version
  | .enrichedLeave _ version => NotOlder start version
  | .unresolvedStore _ version _ => NotOlder start version
  | .saveSync version => version ≤ h.lastVersion
  | .saveUnlock version => ∀ v, version = some v → v ≤ h.lastVersion
  | .saveBump version => version ≤ h.lastVersion
  | _ => True

structure ThreadInv (h : UniverseHistory) (thread : UniverseThread D) : Prop where
  started : ∀ save ∈ thread.completedAtStart, save ∈ h.completed
  call : CallInv h thread.completedAtStart thread.call

/-- How the record of a run may change. -/
structure Grows (h h' : UniverseHistory) : Prop where
  version : h.lastVersion ≤ h'.lastVersion
  mtime : h.lastMtime ≤ h'.lastMtime
  later : h.lastVersion < h'.lastVersion → h.lastMtime < h'.lastMtime
  completed : ∀ save ∈ h.completed, save ∈ h'.completed

variable {h h' : UniverseHistory} {w : UniverseWorld P D} {thread : UniverseThread D}
  {m : UniverseManager D}

theorem Grows.refl (h : UniverseHistory) : Grows h h :=
  ⟨Nat.le_refl _, Nat.le_refl _, fun hlt => absurd hlt (Nat.lt_irrefl _), fun _ hs => hs⟩

theorem Dated.grow (hgrow : Grows h h') {mtime version : ℕ} (hd : Dated h mtime version) :
    Dated h' mtime version where
  mtime_le := Nat.le_trans hd.mtime_le hgrow.mtime
  version_le := Nat.le_trans hd.version_le hgrow.version
  older := by
    intro hlt
    have hm := hgrow.mtime
    rcases Nat.lt_or_ge version h.lastVersion with hold | hnew
    · have hbefore := hd.older hold
      omega
    · -- the version was the last one, and a newer save has a later mtime
      have hlater := hgrow.later (by omega)
      have hle := hd.mtime_le
      omega

theorem ManagerInv.grow (hgrow : Grows h h') (hm : ManagerInv h m) : ManagerInv h' m :=
  ⟨fun date e he => (hm.entries date e he).grow hgrow, hm.lists⟩

theorem CallInv.grow (hgrow : Grows h h') {start : List ℕ} {call : UniverseCall D}
    (hc : CallInv h start call) : CallInv h' start call := by
  cases call with
  | enrichedRead date lock genBefore attempt preMtime => exact Nat.le_trans hc hgrow.mtime
  | enrichedList date lock genBefore attempt preMtime saved resolved =>
      exact ⟨hc.1.grow hgrow, hc.2⟩
  | enrichedCompare date lock genBefore attempt preMtime version rows =>
      exact ⟨hc.1.grow hgrow, hc.2⟩
  | enrichedStore date lock preMtime version rows => exact ⟨hc.1.grow hgrow, hc.2⟩
  | enrichedLeave lock version => exact hc
  | unresolvedStore date version tickers => exact hc
  | saveSync version => exact Nat.le_trans hc hgrow.version
  | saveUnlock version => exact fun v hv => Nat.le_trans (hc v hv) hgrow.version
  | saveBump version => exact Nat.le_trans hc hgrow.version
  | _ => trivial

theorem ThreadInv.grow (hgrow : Grows h h') (ht : ThreadInv h thread) : ThreadInv h' thread :=
  ⟨fun save hs => hgrow.completed save (ht.started save hs), ht.call.grow hgrow⟩

theorem ThreadInv.at (ht : ThreadInv h thread) {call : UniverseCall D}
    (hc : CallInv h thread.completedAtStart call) : ThreadInv h (thread.at call) :=
  ⟨ht.started, hc⟩

/-- What is read from the file is as new as any save that had completed. -/
theorem WorldInv.notOlder_file (hw : WorldInv w) (ht : ThreadInv w.history thread)
    {saved : SavedUniverse} (hfile : w.file = some saved) :
    NotOlder thread.completedAtStart saved.version := by
  intro save hsave
  rw [(hw.file saved hfile).1]
  exact hw.completed save (ht.started save hsave)

/-! ## Managers -/

/-- No list that would be served is older than one of the saves. -/
def NoStaleList (saves : List ℕ) (m : UniverseManager D) : Prop :=
  ∀ date e, cachedTickers m date = some e → NotOlder saves e.version

/-- A change that adds nothing to either cache. -/
structure Shrinks (m' m : UniverseManager D) : Prop where
  entries : ∀ date e, m'.enrichedCache date = some e → m.enrichedCache date = some e
  lists : ∀ date e, m'.lastUnresolved date = some e → m.lastUnresolved date = some e
  generation : m'.universeGeneration = m.universeGeneration

variable {m' m'' : UniverseManager D} {saves : List ℕ}

theorem cachedTickers_eq_some {date : D} {e : UnresolvedEntry} :
    cachedTickers m date = some e ↔
      m.lastUnresolved date = some e ∧ e.generation = m.universeGeneration := by
  unfold cachedTickers
  rw [Option.filter_eq_some_iff, decide_eq_true_eq]

theorem Shrinks.trans (h : Shrinks m'' m') (h' : Shrinks m' m) : Shrinks m'' m :=
  ⟨fun date e he => h'.entries date e (h.entries date e he),
    fun date e he => h'.lists date e (h.lists date e he), h.generation.trans h'.generation⟩

theorem Shrinks.managerInv (hs : Shrinks m' m) (hm : ManagerInv h m) : ManagerInv h m' where
  entries := fun date e he => hm.entries date e (hs.entries date e he)
  lists := by
    intro date e he
    rw [hs.generation]
    exact hm.lists date e (hs.lists date e he)

theorem Shrinks.noStaleList (hs : Shrinks m' m) (hm : NoStaleList saves m) :
    NoStaleList saves m' := by
  intro date e he
  obtain ⟨hlist, hgeneration⟩ := cachedTickers_eq_some.mp he
  rw [hs.generation] at hgeneration
  exact hm date e (cachedTickers_eq_some.mpr ⟨hs.lists date e hlist, hgeneration⟩)

theorem shrinks_setHeld (m : UniverseManager D) (lock : ℕ) (held : Bool) :
    Shrinks (m.setHeld lock held) m :=
  ⟨fun _ _ he => he, fun _ _ he => he, rfl⟩

theorem shrinks_dropLocks (m : UniverseManager D) (p : D → Bool) : Shrinks (m.dropLocks p) m :=
  ⟨fun _ _ he => he, fun _ _ he => he, rfl⟩

/-- The generation of a bumped manager is that of no list it holds. -/
theorem ManagerInv.noStaleList_of_bumped (hm : ManagerInv h m)
    (hlists : ∀ date e, m'.lastUnresolved date = some e → m.lastUnresolved date = some e)
    (hgeneration : m'.universeGeneration = m.universeGeneration + 1) : NoStaleList saves m' := by
  intro date e he
  obtain ⟨hlist, hcurrent⟩ := cachedTickers_eq_some.mp he
  have hle := hm.lists date e (hlists date e hlist)
  omega

theorem managerInv_bump (hm : ManagerInv h m) : ManagerInv h m.bump :=
  ⟨hm.entries, fun date e he => Nat.le_succ_of_le (hm.lists date e he)⟩

theorem managerInv_forget (m : UniverseManager D) : ManagerInv h m.forget :=
  ⟨by simp [UniverseManager.forget, UniverseManager.dropLocks],
    by simp [UniverseManager.forget, UniverseManager.dropLocks]⟩

theorem noStaleList_forget (m : UniverseManager D) : NoStaleList saves m.forget := by
  intro date e he
  exact absurd (cachedTickers_eq_some.mp he).1
    (by simp [UniverseManager.forget, UniverseManager.dropLocks])

theorem managerInv_emptyManager (h : UniverseHistory) : ManagerInv h (emptyManager (D := D)) :=
  ⟨by simp [emptyManager], by simp [emptyManager]⟩

section

variable [DecidableEq D]

theorem shrinks_ensureLock (m : UniverseManager D) (date : D) :
    Shrinks (m.ensureLock date).1 m := by
  unfold UniverseManager.ensureLock
  split
  · exact ⟨fun _ _ he => he, fun _ _ he => he, rfl⟩
  · exact ⟨fun _ _ he => he, fun _ _ he => he, rfl⟩

theorem eq_some_of_update_none {β : Type} {f : D → Option β} {date date' : D} {b : β}
    (h : Function.update f date none date' = some b) : f date' = some b := by
  by_cases hdate : date' = date
  · rw [hdate, Function.update_self] at h
    exact absurd h (by simp)
  · rwa [Function.update_of_ne hdate] at h

theorem shrinks_evict (m : UniverseManager D) (oldest : Option D) :
    Shrinks (m.evict oldest) m := by
  unfold UniverseManager.evict
  split
  · exact ⟨fun _ _ he => he, fun _ _ he => he, rfl⟩
  · exact ⟨fun _ _ he => eq_some_of_update_none he, fun _ _ he => eq_some_of_update_none he, rfl⟩

/-- The section that stores an entry adds that entry and nothing else. -/
theorem shrinks_storeRows (m : UniverseManager D) (date : D) (e : EnrichedEntry)
    (input : ActionInput D) :
    Shrinks (m.storeRows date e input)
      { m with enrichedCache := Function.update m.enrichedCache date (some e) } := by
  have hprune : ∀ m₁ : UniverseManager D, Shrinks
      (if input.pruneLists then
        { m₁ with
          lastUnresolved := fun date =>
            (m₁.lastUnresolved date).filter fun _ => (m₁.enrichedCache date).isSome }
      else m₁) m₁ := by
    intro m₁
    split
    · exact ⟨fun _ _ he => he, fun _ _ he => (Option.filter_eq_some_iff.mp he).1, rfl⟩
    · exact ⟨fun _ _ he => he, fun _ _ he => he, rfl⟩
  have hlocks : ∀ m₂ : UniverseManager D, Shrinks
      (if input.pruneLocks then m₂.dropLocks fun date => (m₂.enrichedCache date).isNone
      else m₂) m₂ := by
    intro m₂
    split
    · exact shrinks_dropLocks m₂ _
    · exact ⟨fun _ _ he => he, fun _ _ he => he, rfl⟩
  exact (hlocks _).trans ((hprune _).trans (shrinks_evict _ input.oldest))

theorem managerInv_storeRows (hm : ManagerInv h m) (date : D) {e : EnrichedEntry}
    (hd : Dated h e.sourceMtime e.version) (input : ActionInput D) :
    ManagerInv h (m.storeRows date e input) := by
  apply (shrinks_storeRows m date e input).managerInv
  constructor
  · intro date' e' he
    by_cases hdate : date' = date
    · rw [hdate] at he
      simp only [Function.update_self, Option.some.injEq] at he
      rw [← he]
      exact hd
    · simp only [Function.update_of_ne hdate] at he
      exact hm.entries date' e' he
  · exact hm.lists

theorem noStaleList_storeRows (hm : NoStaleList saves m) (date : D) (e : EnrichedEntry)
    (input : ActionInput D) : NoStaleList saves (m.storeRows date e input) :=
  (shrinks_storeRows m date e input).noStaleList hm

theorem managerInv_storeTickers (hm : ManagerInv h m) (date : D) (tickers : List String)
    (version : ℕ) : ManagerInv h (m.storeTickers date tickers version) where
  entries := hm.entries
  lists := by
    intro date' e he
    by_cases hdate : date' = date
    · rw [hdate] at he
      simp only [UniverseManager.storeTickers, Function.update_self, Option.some.injEq] at he
      rw [← he]
      exact Nat.le_refl _
    · simp only [UniverseManager.storeTickers, Function.update_of_ne hdate] at he
      exact hm.lists date' e he

/-- A list is served from the moment it is stored. -/
theorem noStaleList_storeTickers_iff (hm : NoStaleList saves m) (date : D)
    (tickers : List String) (version : ℕ) :
    NoStaleList saves (m.storeTickers date tickers version) ↔ NotOlder saves version := by
  constructor
  · intro hstored
    exact hstored date ⟨tickers, m.universeGeneration, version⟩ (cachedTickers_eq_some.mpr
      ⟨by simp [UniverseManager.storeTickers], rfl⟩)
  · intro hversion date' e he
    obtain ⟨hlist, hgeneration⟩ := cachedTickers_eq_some.mp he
    by_cases hdate : date' = date
    · rw [hdate] at hlist
      simp only [UniverseManager.storeTickers, Function.update_self, Option.some.injEq] at hlist
      rw [← hlist]
      exact hversion
    · simp only [UniverseManager.storeTickers, Function.update_of_ne hdate] at hlist
      exact hm date' e (cachedTickers_eq_some.mpr ⟨hlist, hgeneration⟩)

end

/-! ## One action -/

/-- What an action gives: the invariants of the world and of its thread, and a record that grows. -/
structure StepInv (w : UniverseWorld P D) (r : UniverseWorld P D × UniverseThread D) : Prop where
  world : WorldInv r.1
  thread : ThreadInv r.1.history r.2
  grows : Grows w.history r.1.history

theorem stepInv_stay (hw : WorldInv w) (ht : ThreadInv w.history thread) : StepInv w (w, thread) :=
  ⟨hw, ht, .refl _⟩

theorem stepInv_at (hw : WorldInv w) (ht : ThreadInv w.history thread) {call : UniverseCall D}
    (hc : CallInv w.history thread.completedAtStart call) : StepInv w (w, thread.at call) :=
  ⟨hw, ht.at hc, .refl _⟩

theorem stepInv_lock (hw : WorldInv w) (ht : ThreadInv w.history thread) (locked : Bool)
    {call : UniverseCall D} (hc : CallInv w.history thread.completedAtStart call) :
    StepInv w ({ w with fileLocked := locked }, thread.at call) :=
  ⟨⟨hw.file, hw.managers, hw.completed, hw.deleted, hw.deletedBefore, hw.returned⟩, ht.at hc,
    .refl _⟩

theorem grows_record (w : UniverseWorld P D) (kind : CacheKind) (version : ℕ)
    (thread : UniverseThread D) : Grows w.history (w.record kind version thread).history :=
  ⟨Nat.le_refl _, Nat.le_refl _, fun hlt => absurd hlt (Nat.lt_irrefl _), fun _ hs => hs⟩

theorem WorldInv.record (hw : WorldInv w) {kind : CacheKind} {version : ℕ}
    (hk : kind = .enriched → NotOlder thread.completedAtStart version) :
    WorldInv (w.record kind version thread) where
  file := hw.file
  managers := fun q => (hw.managers q).grow (grows_record w kind version thread)
  completed := hw.completed
  deleted := hw.deleted
  deletedBefore := hw.deletedBefore
  returned := by
    intro r hr
    rcases List.mem_cons.mp hr with hnew | hold
    · rw [hnew]
      exact hk
    · exact hw.returned r hold

theorem stepInv_record (hw : WorldInv w) (ht : ThreadInv w.history thread) {kind : CacheKind}
    {version : ℕ} (hk : kind = .enriched → NotOlder thread.completedAtStart version) :
    StepInv w (w.record kind version thread, thread.at .idle) :=
  ⟨hw.record hk, (ht.grow (grows_record w kind version thread)).at trivial,
    grows_record w kind version thread⟩

/-- An entry that is served was computed from the file that is there. -/
theorem notOlder_cachedEntry (hw : WorldInv w) (ht : ThreadInv w.history thread) {date : D}
    {now : ℤ} {e : EnrichedEntry} {p : P}
    (he : cachedEntry w.file (w.managers p) date now = some e) :
    NotOlder thread.completedAtStart e.version := by
  unfold cachedEntry at he
  obtain ⟨hentry, hcheck⟩ := Option.filter_eq_some_iff.mp he
  have hd := (hw.managers p).entries date e hentry
  rw [Bool.and_eq_true, Bool.not_eq_true'] at hcheck
  cases hfile : w.file with
  | none =>
      rw [hfile] at hcheck
      exact absurd hcheck.2 (by simp [isCustomModifiedSince])
  | some saved =>
      have hmodified := hcheck.2
      rw [hfile, isCustomModifiedSince, decide_eq_false_iff_not,
        (hw.file saved hfile).2] at hmodified
      have hlast : ¬ e.version < w.history.lastVersion := fun hlt => hmodified (hd.older hlt)
      intro save hsave
      have hle := hw.completed save (ht.started save hsave)
      omega

theorem callInv_computeEnriched (hw : WorldInv w) (ht : ThreadInv w.history thread)
    (market : UniverseMarket D) (date : D) (lock genBefore attempt : ℕ) {preMtime : ℕ}
    (hpre : preMtime ≤ w.history.lastMtime) :
    CallInv w.history thread.completedAtStart
      (computeEnriched market w.file date lock genBefore attempt preMtime) := by
  unfold computeEnriched
  cases hfile : w.file with
  | none => trivial
  | some saved =>
      have hversion := (hw.file saved hfile).1
      have hd : Dated w.history preMtime saved.version :=
        ⟨hpre, by omega, fun hlt => absurd hlt (by omega)⟩
      have hstart := hw.notOlder_file ht hfile
      dsimp only
      split
      · split
        · split
          · trivial
          · exact ⟨hd, hstart⟩
        · trivial
      · split
        · trivial
        · exact ⟨hd, hstart⟩

section

variable [DecidableEq P] {p : P}

theorem WorldInv.setManager (hw : WorldInv w) (hm : ManagerInv w.history m) :
    WorldInv (w.setManager p m) where
  file := hw.file
  managers := by
    intro q
    show ManagerInv w.history (Function.update w.managers p m q)
    by_cases hq : q = p
    · rw [hq, Function.update_self]
      exact hm
    · rw [Function.update_of_ne hq]
      exact hw.managers q
  completed := hw.completed
  deleted := hw.deleted
  deletedBefore := hw.deletedBefore
  returned := hw.returned

theorem stepInv_setManager (hw : WorldInv w) (ht : ThreadInv w.history thread)
    (hm : ManagerInv w.history m) {call : UniverseCall D}
    (hc : CallInv w.history thread.completedAtStart call) :
    StepInv w (w.setManager p m, thread.at call) :=
  ⟨hw.setManager hm, ht.at hc, .refl _⟩

theorem stepInv_setManager_record (hw : WorldInv w) (ht : ThreadInv w.history thread)
    (hm : ManagerInv w.history m) {kind : CacheKind} {version : ℕ}
    (hk : kind = .enriched → NotOlder thread.completedAtStart version) :
    StepInv w ((w.setManager p m).record kind version thread, thread.at .idle) :=
  have h := stepInv_record (hw.setManager hm) ht hk
  ⟨h.world, h.thread, h.grows⟩

variable [DecidableEq D]

theorem goEnriched_inv (hw : WorldInv w) (ht : ThreadInv w.history thread)
    (market : UniverseMarket D) (input : ActionInput D) :
    StepInv w (goEnriched market p w thread input) := by
  have hm := hw.managers p
  have hcall := ht.call
  cases h : thread.call with
  | enrichedLookup date =>
      rw [goEnriched, h]
      dsimp only
      split
      · rename_i e he
        exact stepInv_record hw ht fun _ => notOlder_cachedEntry hw ht he
      · exact stepInv_setManager hw ht ((shrinks_ensureLock _ date).managerInv hm) trivial
  | enrichedWait date lock =>
      rw [goEnriched, h]
      dsimp only
      split
      · exact stepInv_stay hw ht
      · exact stepInv_setManager hw ht ((shrinks_setHeld _ lock true).managerInv hm) trivial
  | enrichedRecheck date lock =>
      rw [goEnriched, h]
      dsimp only
      split
      · rename_i e he
        exact stepInv_at hw ht (notOlder_cachedEntry hw ht he)
      · exact stepInv_at hw ht trivial
  | enrichedSnapshot date lock genBefore attempt =>
      rw [goEnriched, h]
      apply stepInv_at hw ht
      show sourceMtime w.file ≤ w.history.lastMtime
      cases hfile : w.file with
      | none => exact Nat.zero_le _
      | some saved => exact Nat.le_of_eq (hw.file saved hfile).2
  | enrichedRead date lock genBefore attempt preMtime =>
      rw [h] at hcall
      rw [goEnriched, h]
      exact stepInv_at hw ht
        (callInv_computeEnriched hw ht market date lock genBefore attempt hcall)
  | enrichedList date lock genBefore attempt preMtime saved resolved =>
      rw [h] at hcall
      rw [goEnriched, h]
      dsimp only
      have hstored := managerInv_storeTickers hm date resolved.2 saved.version
      split
      · exact stepInv_setManager hw ht hstored trivial
      · exact stepInv_setManager hw ht hstored hcall
  | enrichedCompare date lock genBefore attempt preMtime version rows =>
      rw [h] at hcall
      rw [goEnriched, h]
      dsimp only
      split
      · exact stepInv_at hw ht hcall
      · split
        · exact stepInv_at hw ht trivial
        · exact stepInv_at hw ht trivial
  | enrichedStore date lock preMtime version rows =>
      rw [h] at hcall
      rw [goEnriched, h]
      exact stepInv_setManager hw ht
        (managerInv_storeRows hm date (e := ⟨rows, input.now, preMtime, version⟩) hcall.1 input)
        hcall.2
  | enrichedGiveUp date lock =>
      rw [goEnriched, h]
      exact stepInv_at hw ht trivial
  | enrichedLeave lock version =>
      rw [h] at hcall
      rw [goEnriched, h]
      have hfree := (shrinks_setHeld (w.managers p) lock false).managerInv hm
      exact stepInv_setManager_record hw ht hfree fun _ => hcall
  | enrichedRaise date lock =>
      rw [goEnriched, h]
      exact stepInv_setManager hw ht ((shrinks_setHeld _ lock false).managerInv hm) trivial
  | enrichedCleanUp date =>
      rw [goEnriched, h]
      dsimp only
      split
      · exact stepInv_setManager hw ht ((shrinks_dropLocks _ _).managerInv hm) trivial
      · exact stepInv_at hw ht trivial
  | _ =>
      rw [goEnriched, h]
      exact stepInv_stay hw ht

theorem goUnresolved_inv (hw : WorldInv w) (ht : ThreadInv w.history thread)
    (market : UniverseMarket D) : StepInv w (goUnresolved market p w thread) := by
  have hm := hw.managers p
  have hcall := ht.call
  cases h : thread.call with
  | unresolvedLookup date =>
      rw [goUnresolved, h]
      dsimp only
      split
      · exact stepInv_record hw ht fun hk => absurd hk (by simp)
      · exact stepInv_at hw ht trivial
  | unresolvedRead date =>
      rw [goUnresolved, h]
      dsimp only
      split
      · exact stepInv_at hw ht trivial
      · rename_i saved hfile
        split
        · exact stepInv_record hw ht fun hk => absurd hk (by simp)
        · split
          · exact stepInv_at hw ht trivial
          · exact stepInv_at hw ht (hw.notOlder_file ht hfile)
  | unresolvedStore date version tickers =>
      rw [goUnresolved, h]
      have hstored := managerInv_storeTickers hm date tickers version
      exact stepInv_setManager_record hw ht hstored fun hk => absurd hk (by simp)
  | _ =>
      rw [goUnresolved, h]
      exact stepInv_stay hw ht

omit [DecidableEq P] [DecidableEq D] in
theorem grows_rename (w : UniverseWorld P D) (definition : UniverseDefinition)
    (sinceLastSave : ℕ) : Grows w.history (w.rename definition sinceLastSave).history where
  version := Nat.le_succ _
  mtime := by
    show w.history.lastMtime ≤ w.history.lastMtime + sinceLastSave + 1
    omega
  later := by
    intro _
    show w.history.lastMtime < w.history.lastMtime + sinceLastSave + 1
    omega
  completed := fun _ hs => hs

omit [DecidableEq P] [DecidableEq D] in
/-- A save makes a version that is newer than all that were deleted. -/
theorem WorldInv.rename (hw : WorldInv w) (definition : UniverseDefinition) (sinceLastSave : ℕ) :
    WorldInv (w.rename definition sinceLastSave) where
  file := by
    intro saved hfile
    rw [← Option.some.inj hfile]
    exact ⟨rfl, rfl⟩
  managers := fun q => (hw.managers q).grow (grows_rename w definition sinceLastSave)
  completed := fun save hs => Nat.le_succ_of_le (hw.completed save hs)
  deleted := fun version hv => Nat.le_succ_of_le (hw.deleted version hv)
  deletedBefore := by
    intro save version hv
    have hv : version ∈ Function.update w.history.deletedBefore (w.history.lastVersion + 1)
      w.history.deleted save := hv
    by_cases hsave : save = w.history.lastVersion + 1
    · rw [hsave, Function.update_self] at hv
      rw [hsave]
      exact Nat.lt_succ_of_le (hw.deleted version hv)
    · rw [Function.update_of_ne hsave] at hv
      exact hw.deletedBefore save version hv
  returned := hw.returned

omit [DecidableEq D] in
theorem goSave_inv (hw : WorldInv w) (ht : ThreadInv w.history thread) (input : ActionInput D) :
    StepInv w (goSave p w thread input) := by
  have hcall := ht.call
  cases h : thread.call with
  | saveLock definition =>
      rw [goSave, h]
      dsimp only
      split
      · exact stepInv_stay hw ht
      · exact stepInv_lock hw ht true trivial
  | saveCheck definition =>
      rw [goSave, h]
      dsimp only
      split
      · exact stepInv_at hw ht fun v hv => absurd hv (by simp)
      · exact stepInv_at hw ht trivial
  | saveRename definition =>
      rw [goSave, h]
      dsimp only
      split
      · exact stepInv_at hw ht fun v hv => absurd hv (by simp)
      · have hgrow := grows_rename w definition input.sinceLastSave
        exact ⟨hw.rename definition input.sinceLastSave,
          (ht.grow hgrow).at (Nat.le_refl (w.history.lastVersion + 1)), hgrow⟩
  | saveSync version =>
      rw [h] at hcall
      rw [goSave, h]
      apply stepInv_at hw ht
      intro v hv
      split at hv
      · exact absurd hv (by simp)
      · rw [← Option.some.inj hv]
        exact hcall
  | saveUnlock version =>
      rw [h] at hcall
      rw [goSave, h]
      apply stepInv_lock hw ht false
      cases version with
      | none => trivial
      | some v => exact hcall v rfl
  | saveBump version =>
      rw [h] at hcall
      rw [goSave, h]
      have hbumped : WorldInv (w.setManager p (w.managers p).bump) :=
        hw.setManager (managerInv_bump (hw.managers p))
      have hgrow : Grows w.history
          ((w.setManager p (w.managers p).bump).complete version).history :=
        ⟨Nat.le_refl _, Nat.le_refl _, fun hlt => absurd hlt (Nat.lt_irrefl _),
          fun _ hs => List.mem_cons_of_mem version hs⟩
      refine ⟨⟨hbumped.file, fun q => (hbumped.managers q).grow hgrow, ?_, hbumped.deleted,
        hbumped.deletedBefore, hbumped.returned⟩, (ht.grow hgrow).at trivial, hgrow⟩
      intro save hs
      rcases List.mem_cons.mp hs with hnew | hold
      · rw [hnew]
        exact hcall
      · exact hw.completed save hold
  | _ =>
      rw [goSave, h]
      exact stepInv_stay hw ht

omit [DecidableEq D] in
theorem goDelete_inv (hw : WorldInv w) (ht : ThreadInv w.history thread) :
    StepInv w (goDelete p w thread) := by
  cases h : thread.call with
  | deleteLock =>
      rw [goDelete, h]
      dsimp only
      split
      · exact stepInv_stay hw ht
      · exact stepInv_lock hw ht true trivial
  | deleteCheck =>
      rw [goDelete, h]
      dsimp only
      split
      · exact stepInv_at hw ht trivial
      · exact stepInv_at hw ht trivial
  | deleteUnlink =>
      rw [goDelete, h]
      have hgrow : Grows w.history w.unlink.history :=
        ⟨Nat.le_refl _, Nat.le_refl _, fun hlt => absurd hlt (Nat.lt_irrefl _), fun _ hs => hs⟩
      refine ⟨⟨fun saved hfile => absurd hfile (by simp [UniverseWorld.unlink]),
        fun q => (hw.managers q).grow hgrow, hw.completed, ?_, hw.deletedBefore, hw.returned⟩,
        (ht.grow hgrow).at trivial, hgrow⟩
      intro version hv
      rcases List.mem_append.mp hv with hnow | hbefore
      · obtain ⟨saved, hfile, heq⟩ := Option.map_eq_some_iff.mp (Option.mem_toList.mp hnow)
        rw [← heq, (hw.file saved hfile).1]
        exact Nat.le_refl _
      · exact hw.deleted version hbefore
  | deleteUnlock deleted =>
      rw [goDelete, h]
      apply stepInv_lock hw ht false
      cases deleted <;> trivial
  | deleteBump =>
      rw [goDelete, h]
      exact stepInv_setManager hw ht (managerInv_forget _) trivial
  | _ =>
      rw [goDelete, h]
      exact stepInv_stay hw ht

theorem universeAction_inv (hw : WorldInv w) (ht : ThreadInv w.history thread)
    (market : UniverseMarket D) (processOf : T → P) (t : T) (action : UniverseAction D) :
    StepInv w (universeAction market processOf t w thread action) := by
  cases action with
  | start request =>
      rw [universeAction]
      split
      · refine ⟨hw, ⟨fun _ hs => hs, ?_⟩, .refl _⟩
        cases request <;> trivial
      · exact stepInv_stay hw ht
  | go input =>
      rw [universeAction]
      split
      · exact stepInv_stay hw ht
      · exact goUnresolved_inv hw ht market
      · exact goUnresolved_inv hw ht market
      · exact goUnresolved_inv hw ht market
      all_goals first
        | exact goSave_inv hw ht input
        | exact goDelete_inv hw ht
        | exact goEnriched_inv hw ht market input

/-! ## Lists that would be served -/

/-- No process would serve a list that is older than a completed save. -/
def NothingStale (w : UniverseWorld P D) : Prop :=
  ∀ p, NoStaleList w.history.completed (w.managers p)

/-- The action is none of those that make a stale list current: a list is stored although a save
that has completed is newer than its version, or a save completes while another process would
serve a list of an older version. -/
def UndisturbedCall (w : UniverseWorld P D) (p : P) : UniverseCall D → Prop
  | .enrichedList _ _ _ _ _ saved _ => NotOlder w.history.completed saved.version
  | .unresolvedStore _ version _ => NotOlder w.history.completed version
  | .saveBump version =>
      ∀ q, q ≠ p → ∀ date e, cachedTickers (w.managers q) date = some e → version ≤ e.version
  | _ => True

omit [DecidableEq D] in
theorem nothingStale_setManager_iff (hs : NothingStale w) :
    NothingStale (w.setManager p m) ↔ NoStaleList w.history.completed m := by
  constructor
  · intro h
    have hp : NoStaleList w.history.completed (Function.update w.managers p m p) := h p
    rwa [Function.update_self] at hp
  · intro hm q
    show NoStaleList w.history.completed (Function.update w.managers p m q)
    by_cases hq : q = p
    · rw [hq, Function.update_self]
      exact hm
    · rw [Function.update_of_ne hq]
      exact hs q

omit [DecidableEq D] in
theorem Shrinks.nothingStale (hm : Shrinks m (w.managers p)) (hs : NothingStale w) :
    NothingStale (w.setManager p m) :=
  (nothingStale_setManager_iff hs).mpr (hm.noStaleList (hs p))

theorem goEnriched_list_nothingStale_iff (hs : NothingStale w) (market : UniverseMarket D)
    (input : ActionInput D) {date : D} {lock genBefore attempt preMtime : ℕ}
    {saved : SavedUniverse} {resolved : List ℕ × List String}
    (h : thread.call = .enrichedList date lock genBefore attempt preMtime saved resolved) :
    NothingStale (goEnriched market p w thread input).1 ↔
      NotOlder w.history.completed saved.version := by
  rw [goEnriched, h]
  have hstore := noStaleList_storeTickers_iff (hs p) date resolved.2 saved.version
  exact (nothingStale_setManager_iff hs).trans hstore

/-- The other actions of the call store no list. -/
theorem goEnriched_nothingStale (p : P) (thread : UniverseThread D) (hs : NothingStale w)
    (market : UniverseMarket D) (input : ActionInput D)
    (hlist : ∀ date lock genBefore attempt preMtime saved resolved,
      thread.call ≠ .enrichedList date lock genBefore attempt preMtime saved resolved) :
    NothingStale (goEnriched market p w thread input).1 := by
  cases h : thread.call with
  | enrichedLookup date =>
      rw [goEnriched, h]
      dsimp only
      split
      · exact hs
      · exact (shrinks_ensureLock _ date).nothingStale hs
  | enrichedWait date lock =>
      rw [goEnriched, h]
      dsimp only
      split
      · exact hs
      · exact (shrinks_setHeld _ lock true).nothingStale hs
  | enrichedRecheck date lock =>
      rw [goEnriched, h]
      dsimp only
      split <;> exact hs
  | enrichedList date lock genBefore attempt preMtime saved resolved =>
      exact absurd h (hlist date lock genBefore attempt preMtime saved resolved)
  | enrichedCompare date lock genBefore attempt preMtime version rows =>
      rw [goEnriched, h]
      dsimp only
      split
      · exact hs
      · split <;> exact hs
  | enrichedStore date lock preMtime version rows =>
      rw [goEnriched, h]
      exact (nothingStale_setManager_iff hs).mpr (noStaleList_storeRows (hs p) date _ input)
  | enrichedLeave lock version =>
      rw [goEnriched, h]
      exact (shrinks_setHeld _ lock false).nothingStale hs
  | enrichedRaise date lock =>
      rw [goEnriched, h]
      exact (shrinks_setHeld _ lock false).nothingStale hs
  | enrichedCleanUp date =>
      rw [goEnriched, h]
      dsimp only
      split
      · exact (shrinks_dropLocks _ _).nothingStale hs
      · exact hs
  | _ =>
      rw [goEnriched, h]
      exact hs

theorem goUnresolved_nothingStale_iff (p : P) (thread : UniverseThread D) (hs : NothingStale w)
    (market : UniverseMarket D) :
    NothingStale (goUnresolved market p w thread).1 ↔
      ∀ date version tickers, thread.call = .unresolvedStore date version tickers →
        NotOlder w.history.completed version := by
  cases h : thread.call with
  | unresolvedLookup date =>
      rw [goUnresolved, h]
      dsimp only
      refine iff_of_true ?_ (by simp)
      split <;> exact hs
  | unresolvedRead date =>
      rw [goUnresolved, h]
      dsimp only
      refine iff_of_true ?_ (by simp)
      split
      · exact hs
      · split
        · exact hs
        · split <;> exact hs
  | unresolvedStore date version tickers =>
      rw [goUnresolved, h]
      have hstore := noStaleList_storeTickers_iff (hs p) date tickers version
      refine (nothingStale_setManager_iff hs).trans (hstore.trans ?_)
      constructor
      · intro hversion _ version' _ heq
        injection heq with _ hsame
        rw [← hsame]
        exact hversion
      · intro hall
        exact hall date version tickers rfl
  | _ =>
      rw [goUnresolved, h]
      exact iff_of_true hs (by simp)

omit [DecidableEq D] in
/-- A save that completes is newer than the lists of the other processes; its own process has
moved on to another generation. -/
theorem goSave_nothingStale_iff (p : P) (thread : UniverseThread D) (hw : WorldInv w)
    (hs : NothingStale w) (input : ActionInput D) :
    NothingStale (goSave p w thread input).1 ↔
      ∀ version, thread.call = .saveBump version →
        ∀ q, q ≠ p → ∀ date e, cachedTickers (w.managers q) date = some e →
          version ≤ e.version := by
  cases h : thread.call with
  | saveLock definition =>
      rw [goSave, h]
      dsimp only
      refine iff_of_true ?_ (by simp)
      split <;> exact hs
  | saveCheck definition =>
      rw [goSave, h]
      dsimp only
      refine iff_of_true ?_ (by simp)
      split <;> exact hs
  | saveRename definition =>
      rw [goSave, h]
      dsimp only
      refine iff_of_true ?_ (by simp)
      split <;> exact hs
  | saveBump version =>
      rw [goSave, h]
      constructor
      · intro hafter version' heq q hq date e he
        injection heq with hsame
        rw [← hsame]
        have hmanager : ((w.setManager p (w.managers p).bump).complete version).managers q =
            w.managers q :=
          Function.update_of_ne hq ..
        rw [← hmanager] at he
        exact hafter q date e he version List.mem_cons_self
      · intro hall q
        show NoStaleList (version :: w.history.completed)
          (Function.update w.managers p (w.managers p).bump q)
        by_cases hq : q = p
        · rw [hq, Function.update_self]
          exact (hw.managers p).noStaleList_of_bumped (fun _ _ he => he) rfl
        · rw [Function.update_of_ne hq]
          intro date e he save hsave
          rcases List.mem_cons.mp hsave with hnew | hold
          · rw [hnew]
            exact hall version rfl q hq date e he
          · exact hs q date e he save hold
  | _ =>
      rw [goSave, h]
      exact iff_of_true hs (by simp)

omit [DecidableEq D] in
theorem goDelete_nothingStale (p : P) (thread : UniverseThread D) (hs : NothingStale w) :
    NothingStale (goDelete p w thread).1 := by
  cases h : thread.call with
  | deleteLock =>
      rw [goDelete, h]
      dsimp only
      split <;> exact hs
  | deleteCheck =>
      rw [goDelete, h]
      dsimp only
      split <;> exact hs
  | deleteBump =>
      rw [goDelete, h]
      exact (nothingStale_setManager_iff hs).mpr (noStaleList_forget _)
  | _ =>
      rw [goDelete, h]
      exact hs

theorem universeAction_nothingStale_iff (hw : WorldInv w) (hs : NothingStale w)
    (market : UniverseMarket D) (processOf : T → P) (t : T) (input : ActionInput D) :
    NothingStale (universeAction market processOf t w thread (.go input)).1 ↔
      UndisturbedCall w (processOf t) thread.call := by
  have henriched := goEnriched_nothingStale (processOf t) thread hs market input
  have hunresolved := goUnresolved_nothingStale_iff (processOf t) thread hs market
  have hsave := goSave_nothingStale_iff (processOf t) thread hw hs input
  have hdelete := goDelete_nothingStale (processOf t) thread hs
  rw [universeAction]
  cases h : thread.call with
  | idle => exact iff_of_true hs trivial
  | enrichedList date lock genBefore attempt preMtime saved resolved =>
      exact goEnriched_list_nothingStale_iff hs market input h
  | unresolvedStore date version tickers =>
      rw [h] at hunresolved
      simpa [UndisturbedCall] using hunresolved
  | saveBump version =>
      rw [h] at hsave
      simpa [UndisturbedCall] using hsave
  | unresolvedLookup date => exact iff_of_true (hunresolved.mpr (by simp [h])) trivial
  | unresolvedRead date => exact iff_of_true (hunresolved.mpr (by simp [h])) trivial
  | saveLock definition => exact iff_of_true (hsave.mpr (by simp [h])) trivial
  | saveCheck definition => exact iff_of_true (hsave.mpr (by simp [h])) trivial
  | saveRename definition => exact iff_of_true (hsave.mpr (by simp [h])) trivial
  | saveSync version => exact iff_of_true (hsave.mpr (by simp [h])) trivial
  | saveUnlock version => exact iff_of_true (hsave.mpr (by simp [h])) trivial
  | deleteLock => exact iff_of_true hdelete trivial
  | deleteCheck => exact iff_of_true hdelete trivial
  | deleteUnlink => exact iff_of_true hdelete trivial
  | deleteUnlock deleted => exact iff_of_true hdelete trivial
  | deleteBump => exact iff_of_true hdelete trivial
  | _ => exact iff_of_true (henriched (by simp [h])) trivial

/-! ## What is returned -/

theorem goEnriched_returned (market : UniverseMarket D) (input : ActionInput D)
    {r : ReturnedResult}
    (hr : r ∈ (goEnriched market p w thread input).1.history.returned) :
    r ∈ w.history.returned ∨ r.kind = .enriched := by
  cases h : thread.call with
  | enrichedLookup date =>
      rw [goEnriched, h] at hr
      dsimp only at hr
      split at hr
      · exact (List.mem_cons.mp hr).symm.imp id fun hnew => by rw [hnew]
      · exact .inl hr
  | enrichedWait date lock =>
      rw [goEnriched, h] at hr
      dsimp only at hr
      split at hr <;> exact .inl hr
  | enrichedRecheck date lock =>
      rw [goEnriched, h] at hr
      dsimp only at hr
      split at hr <;> exact .inl hr
  | enrichedCompare date lock genBefore attempt preMtime version rows =>
      rw [goEnriched, h] at hr
      dsimp only at hr
      split at hr
      · exact .inl hr
      · split at hr <;> exact .inl hr
  | enrichedLeave lock version =>
      rw [goEnriched, h] at hr
      exact (List.mem_cons.mp hr).symm.imp id fun hnew => by rw [hnew]
  | enrichedCleanUp date =>
      rw [goEnriched, h] at hr
      dsimp only at hr
      split at hr <;> exact .inl hr
  | _ =>
      rw [goEnriched, h] at hr
      exact .inl hr

theorem goUnresolved_returned (hw : WorldInv w) (ht : ThreadInv w.history thread)
    (hs : NothingStale w) (market : UniverseMarket D) {r : ReturnedResult}
    (hr : r ∈ (goUnresolved market p w thread).1.history.returned) :
    r ∈ w.history.returned ∨ NotOlder r.completedAtStart r.version := by
  have hcall := ht.call
  cases h : thread.call with
  | unresolvedLookup date =>
      rw [goUnresolved, h] at hr
      dsimp only at hr
      split at hr
      · rename_i e he
        rcases List.mem_cons.mp hr with hnew | hold
        · rw [hnew]
          exact .inr fun save hsave => hs p date e he save (ht.started save hsave)
        · exact .inl hold
      · exact .inl hr
  | unresolvedRead date =>
      rw [goUnresolved, h] at hr
      dsimp only at hr
      split at hr
      · exact .inl hr
      · rename_i saved hfile
        split at hr
        · rcases List.mem_cons.mp hr with hnew | hold
          · rw [hnew]
            exact .inr (hw.notOlder_file ht hfile)
          · exact .inl hold
        · split at hr <;> exact .inl hr
  | unresolvedStore date version tickers =>
      rw [h] at hcall
      rw [goUnresolved, h] at hr
      rcases List.mem_cons.mp hr with hnew | hold
      · rw [hnew]
        exact .inr hcall
      · exact .inl hold
  | _ =>
      rw [goUnresolved, h] at hr
      exact .inl hr

omit [DecidableEq D] in
theorem goSave_returned (p : P) (w : UniverseWorld P D) (thread : UniverseThread D)
    (input : ActionInput D) :
    (goSave p w thread input).1.history.returned = w.history.returned := by
  unfold goSave
  split
  · split <;> rfl
  · split <;> rfl
  · split <;> rfl
  · rfl
  · rfl
  · rfl
  · rfl

omit [DecidableEq D] in
theorem goDelete_returned (p : P) (w : UniverseWorld P D) (thread : UniverseThread D) :
    (goDelete p w thread).1.history.returned = w.history.returned := by
  unfold goDelete
  split
  · split <;> rfl
  · split <;> rfl
  · rfl
  · rfl
  · rfl
  · rfl

theorem universeAction_returned (hw : WorldInv w) (ht : ThreadInv w.history thread)
    (hs : NothingStale w) (market : UniverseMarket D) (processOf : T → P) (t : T)
    (action : UniverseAction D) {r : ReturnedResult}
    (hr : r ∈ (universeAction market processOf t w thread action).1.history.returned) :
    r ∈ w.history.returned ∨ r.kind = .enriched ∨ NotOlder r.completedAtStart r.version := by
  cases action with
  | start request =>
      rw [universeAction] at hr
      split at hr <;> exact .inl hr
  | go input =>
      have hsave := goSave_returned (processOf t) w thread input
      have hdelete := goDelete_returned (processOf t) w thread
      rw [universeAction] at hr
      split at hr
      · exact .inl hr
      · exact (goUnresolved_returned hw ht hs market hr).imp id .inr
      · exact (goUnresolved_returned hw ht hs market hr).imp id .inr
      · exact (goUnresolved_returned hw ht hs market hr).imp id .inr
      all_goals first
        | exact .inl (hsave ▸ hr)
        | exact .inl (hdelete ▸ hr)
        | exact (goEnriched_returned market input hr).imp id .inl

end

/-! ## Runs -/

theorem fresh_of_notOlder (hw : WorldInv w) {r : ReturnedResult}
    (h : NotOlder r.completedAtStart r.version) : FreshResult w.history r := by
  intro save hsave hdeleted
  have hlt := hw.deletedBefore save r.version hdeleted
  have hle := h save hsave
  omega

section

variable [DecidableEq D] [DecidableEq P] [DecidableEq T]

/-- The invariant of a run: that of the world and that of every thread in it. -/
abbrev UniverseInv (s : Threads T (UniverseWorld P D) (UniverseThread D)) : Prop :=
  AllThreads WorldInv (fun _ w thread => ThreadInv w.history thread) s

/-- The action of the move is undisturbed where it is taken. -/
def UndisturbedMove (processOf : T → P) (s : Threads T (UniverseWorld P D) (UniverseThread D))
    (move : T × UniverseAction D) : Prop :=
  match move.2 with
  | .start _ => True
  | .go _ => UndisturbedCall s.shared (processOf move.1) (s.loc move.1).call

variable {s : Threads T (UniverseWorld P D) (UniverseThread D)} {move : T × UniverseAction D}

theorem universeInv_step (h : UniverseInv s) (market : UniverseMarket D) (processOf : T → P)
    (move : T × UniverseAction D) :
    UniverseInv (universeStep market processOf s move) := by
  have hstep := universeAction_inv h.shared (h.thread move.1) market processOf move.1 move.2
  exact h.step ⟨hstep.world, hstep.thread⟩ fun _ _ hj => hj.grow hstep.grows

theorem nothingStale_step_iff (h : UniverseInv s) (hs : NothingStale s.shared)
    (market : UniverseMarket D) (processOf : T → P) :
    NothingStale (universeStep market processOf s move).shared ↔
      UndisturbedMove processOf s move := by
  obtain ⟨t, action⟩ := move
  cases action with
  | start request =>
      refine iff_of_true ?_ trivial
      show NothingStale (universeAction market processOf t s.shared (s.loc t) (.start request)).1
      rw [universeAction]
      split <;> exact hs
  | go input => exact universeAction_nothingStale_iff h.shared hs market processOf t input

omit [DecidableEq D] [DecidableEq P] [DecidableEq T] in
theorem universeInv_initial (file : Option (UniverseDefinition × ℕ)) :
    UniverseInv (initialUniverse file : Threads T (UniverseWorld P D) (UniverseThread D)) where
  shared := by
    constructor
    case file =>
      intro saved hfile
      obtain ⟨f, hf, hsaved⟩ := Option.map_eq_some_iff.mp hfile
      rw [← hsaved, hf]
      exact ⟨rfl, rfl⟩
    case managers => exact fun _ => managerInv_emptyManager _
    case completed => exact fun save hs => absurd hs List.not_mem_nil
    case deleted => exact fun version hv => absurd hv List.not_mem_nil
    case deletedBefore => exact fun save version hv => absurd hv List.not_mem_nil
    case returned => exact fun r hr => absurd hr List.not_mem_nil
  thread := fun _ => ⟨fun save hs => absurd hs List.not_mem_nil, trivial⟩

omit [DecidableEq D] [DecidableEq P] [DecidableEq T] in
theorem nothingStale_initial (file : Option (UniverseDefinition × ℕ)) :
    NothingStale
      (initialUniverse file : Threads T (UniverseWorld P D) (UniverseThread D)).shared :=
  fun _ _ _ _ _ hs => absurd hs List.not_mem_nil

/-- In an undisturbed run no result is older than a save that its call comes after. -/
theorem notOlder_of_undisturbed (market : UniverseMarket D) (processOf : T → P)
    {moves : List (T × UniverseAction D)} (hinv : UniverseInv s) (hs : NothingStale s.shared)
    (hold : ∀ r ∈ s.shared.history.returned, NotOlder r.completedAtStart r.version)
    (hc : EachStep (universeStep market processOf) (UndisturbedMove processOf) s moves) :
    EveryState (universeStep market processOf)
      (fun s => UniverseInv s ∧
        ∀ r ∈ s.shared.history.returned, NotOlder r.completedAtStart r.version) s moves := by
  have hall : EveryState (universeStep market processOf)
      (fun s => UniverseInv s ∧ NothingStale s.shared ∧
        ∀ r ∈ s.shared.history.returned, NotOlder r.completedAtStart r.version) s moves := by
    refine everyState_of_eachStep (fun s move hp hok => ?_) ⟨hinv, hs, hold⟩ hc
    obtain ⟨hinv, hs, hold⟩ := hp
    have hnext := universeInv_step hinv market processOf move
    refine ⟨hnext, (nothingStale_step_iff hinv hs market processOf).mpr hok, fun r hr => ?_⟩
    rcases universeAction_returned hinv.shared (hinv.thread move.1) hs market processOf move.1
      move.2 hr with hbefore | henriched | hnew
    · exact hold r hbefore
    · exact hnext.shared.returned r hr henriched
    · exact hnew
  exact hall.mono fun _ hp => ⟨hp.1, hp.2.2⟩

/-- Enriched constituents are fresh in every run, and unresolved tickers in every run without a
disturbance, which are the runs in which no process ever holds a stale list as current. -/
theorem universe_results_fresh (market : UniverseMarket D) (processOf : T → P)
    (file : Option (UniverseDefinition × ℕ)) (moves : List (T × UniverseAction D)) :
    EveryState (universeStep market processOf)
      (fun s => ∀ r ∈ s.shared.history.returned, r.kind = .enriched →
        FreshResult s.shared.history r) (initialUniverse file) moves ∧
    (EachStep (universeStep market processOf) (UndisturbedMove processOf) (initialUniverse file)
        moves →
      EveryState (universeStep market processOf)
        (fun s => ∀ r ∈ s.shared.history.returned, FreshResult s.shared.history r)
        (initialUniverse file) moves) ∧
    (EveryState (universeStep market processOf) (fun s => NothingStale s.shared)
        (initialUniverse file) moves ↔
      EachStep (universeStep market processOf) (UndisturbedMove processOf) (initialUniverse file)
        moves) := by
  have hinv : EveryState (universeStep market processOf) UniverseInv (initialUniverse file)
      moves :=
    everyState_of_step (fun s move h => universeInv_step h market processOf move) moves
      (universeInv_initial file)
  refine ⟨?_, ?_, ?_⟩
  · exact hinv.mono fun s h r hr hk => fresh_of_notOlder h.shared (h.shared.returned r hr hk)
  · intro hc
    have hnot := notOlder_of_undisturbed market processOf (universeInv_initial file)
      (nothingStale_initial file) (fun r hr => absurd hr List.not_mem_nil) hc
    exact hnot.mono fun s h r hr => fresh_of_notOlder h.1.shared (h.2 r hr)
  · exact everyState_iff_eachStep' (G := UniverseInv)
      (fun s move h => universeInv_step h market processOf move)
      (fun s move h hs => nothingStale_step_iff h hs market processOf) moves
      (universeInv_initial file) (nothingStale_initial file)

end

/-! ## A stale list -/

/-- A market that knows one ticker. -/
def oneTicker : UniverseMarket Unit where
  crspConfigured := true
  tickerToPermno ticker _ := if ticker = "AAPL" then .permno 14593 else .notFound
  enrichPermnos _ _ := .ok []
  constituents _ _ := .error .crspUnavailable

def manualDefinition (symbols : List String) : UniverseDefinition := ⟨none, [], [], some symbols⟩

def plainInput : ActionInput Unit := ⟨0, 0, false, none, false, false⟩

/-- A thread starts a call and takes that many actions. -/
def callMoves (t : Bool) (request : UniverseRequest Unit) (actions : ℕ) :
    List (Bool × UniverseAction Unit) :=
  (t, .start request) :: List.replicate actions (t, .go plainInput)

/-- The calls of one process: a lookup has read the old definition when it is deleted and a new
one is saved. It stores its list under the new generation, and the next lookup is given it. -/
def overtakenLookup : List (Bool × UniverseAction Unit) :=
  callMoves false (.getUnresolved ()) 2 ++ callMoves true .deleteCustom 5 ++
    callMoves true (.saveCustom (manualDefinition ["AAPL"])) 6 ++
      [(false, .go plainInput)] ++ callMoves true (.getUnresolved ()) 1

def overtakenRun (processOf : Bool → Bool) (moves : List (Bool × UniverseAction Unit)) :
    Threads Bool (UniverseWorld Bool Unit) (UniverseThread Unit) :=
  run (universeStep oneTicker processOf) (initialUniverse (some (manualDefinition ["ZZZZ"], 1)))
    moves

theorem deleted_definition_is_served :
    ¬ ∀ r ∈ (overtakenRun (fun _ => false) overtakenLookup).shared.history.returned,
      FreshResult (overtakenRun (fun _ => false) overtakenLookup).shared.history r := by
  intro h
  have hfresh := h ⟨.unresolved, 0, [1]⟩ (by decide +kernel) 1 (by decide +kernel)
  exact hfresh (by decide +kernel)

/-- The same with two processes and no call that overlaps another: the generation of the process
that looks up does not see the other's calls. -/
example :
    ⟨.unresolved, 0, [1]⟩ ∈ (overtakenRun id (callMoves false (.getUnresolved ()) 3 ++
      callMoves true .deleteCustom 5 ++
        callMoves true (.saveCustom (manualDefinition ["AAPL"])) 6 ++
          callMoves false (.getUnresolved ()) 1)).shared.history.returned := by
  decide +kernel

end TradingPlatform.Data
