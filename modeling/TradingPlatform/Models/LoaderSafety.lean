import TradingPlatform.Models.ModelLoader

/-! # What the model loader serves

Every model that a call returns went through a load whose checks passed, and no two threads load
one key at a time. A load is owned by the thread that made its event: the event stays in flight
until that thread takes it out. The thread that polls waits for such an event with the lock in its
hands, and from then on no call returns.
-/

namespace TradingPlatform.Models

open Base

variable {B T : Type}

/-! ## What a load has checked -/

theorem checkVersions_compatible {strict : Bool} {current : List (String × String)}
    (modelVersions : List (String × String)) (warnings : List String) :
    (checkVersions strict current warnings modelVersions).compatible = true ↔
      (warnings ≠ [] → strict = false) ∧ ∀ d ∈ modelVersions,
        ∃ currentVersion, current.lookup d.1 = some currentVersion ∧
          (strict = true → d.2 = currentVersion) := by
  induction modelVersions generalizing warnings with
  | nil =>
      unfold checkVersions
      by_cases hwarnings : warnings = [] <;> simp [hwarnings]
  | cons d rest ih =>
      obtain ⟨dataset, modelVersion⟩ := d
      unfold checkVersions
      cases hlookup : current.lookup dataset with
      | none => simp [hlookup]
      | some currentVersion =>
          by_cases hsame : modelVersion = currentVersion
          · simp [hlookup, hsame, ih]
          · cases strict with
            | false => simp [hlookup, hsame, ih]
            | true =>
                have hne : currentVersion ≠ modelVersion := fun heq => hsame heq.symm
                simp [hlookup, hsame, hne, ih]

theorem checkCompatibility_iff {strict : Bool} {modelVersions current : List (String × String)} :
    (checkCompatibility strict modelVersions current).compatible = true ↔
      ∀ d ∈ modelVersions, ∃ currentVersion, current.lookup d.1 = some currentVersion ∧
        (strict = true → d.2 = currentVersion) := by
  unfold checkCompatibility
  rw [checkVersions_compatible]
  simp

/-- The file that was checked has the checksum of the verified metadata, what was deserialized has
the same model id, and its datasets are there, in strict mode at the versions of the model. -/
structure SuccessfulLoad.Verified (ofModel : B → String) (strict : Bool)
    (load : SuccessfulLoad B) : Prop where
  checked : ∃ metadata file, load.reads.metadata = some metadata ∧
    load.reads.checkedFile = some file ∧ ofModel file = metadata.checksumSha256 ∧
      load.metadata.modelId = metadata.modelId
  deserialized : load.reads.deserialized = some (load.model, load.metadata)
  compatible : load.current ≠ [] → ∀ d ∈ load.metadata.datasetVersionIds,
    ∃ currentVersion, load.current.lookup d.1 = some currentVersion ∧
      (strict = true → d.2 = currentVersion)

theorem loadFromRegistry_ok {ofModel : B → String} {strict : Bool}
    {current : List (String × String)} {reads : LoadReads B} {result : B × ModelMetadata}
    (h : loadFromRegistry ofModel strict current reads = .ok result) :
    ∃ metadata file, reads.metadata = some metadata ∧ reads.checkedFile = some file ∧
      ofModel file = metadata.checksumSha256 ∧ reads.deserialized = some result ∧
        result.2.modelId = metadata.modelId ∧ (current ≠ [] →
          (checkCompatibility strict result.2.datasetVersionIds current).compatible = true) := by
  unfold loadFromRegistry at h
  split at h
  · cases h
  · rename_i metadata hmetadata
    split at h
    · cases h
    · split at h
      · cases h
      · rename_i file hfile
        split at h
        · cases h
        · rename_i hchecksum
          split at h
          · cases h
          · rename_i model loaded hloaded
            refine ⟨metadata, file, hmetadata, hfile, not_not.mp hchecksum, ?_⟩
            split at h
            · cases h
            · rename_i hid
              by_cases hcurrent : current = []
              · rw [if_neg (not_not.mpr hcurrent)] at h
                rw [← Except.ok.inj h]
                exact ⟨hloaded, not_not.mp hid, fun hne => absurd hcurrent hne⟩
              · rw [if_pos hcurrent] at h
                dsimp only at h
                split at h
                · rename_i hcompatible
                  rw [← Except.ok.inj h]
                  exact ⟨hloaded, not_not.mp hid, fun _ => hcompatible⟩
                · cases h

theorem verified_of_loadFromRegistry {ofModel : B → String} {strict : Bool}
    {load : SuccessfulLoad B}
    (h : loadFromRegistry ofModel strict load.current load.reads =
      .ok (load.model, load.metadata)) : load.Verified ofModel strict := by
  obtain ⟨metadata, file, hmetadata, hfile, hchecksum, hloaded, hid, hcompatible⟩ :=
    loadFromRegistry_ok h
  constructor
  case checked => exact ⟨metadata, file, hmetadata, hfile, hchecksum, hid⟩
  case deserialized => exact hloaded
  case compatible =>
    intro hcurrent
    exact checkCompatibility_iff.mp (hcompatible hcurrent)

/-! ## The invariant -/

/-- The load whose event a thread has in flight. -/
def LoaderCall.flight : LoaderCall T B → Option (ModelKey × LoadEvent T)
  | .load key event | .recordSuccess key event _ _ | .handleFailure key event
  | .setEvent key event _ | .popInflight key event _ => some (key, event)
  | _ => none

/-- A load of the record stands behind what is served: one of the same key, or of the same type for
the last good model. -/
def Backed (h : LoaderHistory B) (r : ServedModel B) : Prop :=
  (∃ load ∈ h.loads, load.key.1 = r.key.1 ∧ (r.source ≠ .lastGood → load.key = r.key) ∧
    load.model = r.model) ∧ ∀ age, r.source = .cache age → age ≤ cacheTtl

structure LoaderInv (ofModel : B → String) (strict : Bool) (w : ModelLoader T B) : Prop where
  loads : ∀ load ∈ w.history.loads, load.Verified ofModel strict
  cache : ∀ key entry, w.cache key = some entry →
    ∃ load ∈ w.history.loads, load.key = key ∧ load.model = entry.model
  lastGood : ∀ modelType good, w.lastGood modelType = some good →
    ∃ load ∈ w.history.loads, load.key.1 = modelType ∧ load.model = good.1
  served : ∀ r ∈ w.history.served, Backed w.history r

/-- What a call is about to store or to return. -/
def CallBacked (h : LoaderHistory B) : LoaderCall T B → Prop
  | .recordSuccess key _ model _ => ∃ load ∈ h.loads, load.key = key ∧ load.model = model
  | .setEvent _ _ outcome | .popInflight _ _ outcome => ∀ r, outcome = some r → Backed h r
  | _ => True

structure LoaderCallInv (t : T) (w : ModelLoader T B) (call : LoaderCall T B) : Prop where
  flight : ∀ key event, call.flight = some (key, event) →
    event.maker = t ∧ w.inflight key = some event
  backed : CallBacked w.history call

/-- What an action of one thread leaves to the others. -/
structure LeavesOthers (t : T) (w w' : ModelLoader T B) : Prop where
  inflight : ∀ key event, w.inflight key = some event → event.maker ≠ t →
    w'.inflight key = some event
  loads : ∀ load ∈ w.history.loads, load ∈ w'.history.loads

structure GoodAction (ofModel : B → String) (strict : Bool) (t : T) (w : ModelLoader T B)
    (result : ModelLoader T B × LoaderCall T B) : Prop where
  world : LoaderInv ofModel strict result.1
  call : LoaderCallInv t result.1 result.2
  others : LeavesOthers t w result.1

variable {ofModel : B → String} {strict : Bool} {t : T} {w w' : ModelLoader T B}
  {call : LoaderCall T B}

theorem Backed.mono {h h' : LoaderHistory B} {r : ServedModel B} (hr : Backed h r)
    (hloads : ∀ load ∈ h.loads, load ∈ h'.loads) : Backed h' r := by
  obtain ⟨⟨load, hload, hsame⟩, hage⟩ := hr
  exact ⟨⟨load, hloads load hload, hsame⟩, hage⟩

theorem LoaderCallInv.leave {j : T} (h : LoaderCallInv j w call) (hne : j ≠ t)
    (hothers : LeavesOthers t w w') : LoaderCallInv j w' call := by
  constructor
  case flight =>
    intro key event hflight
    obtain ⟨hmaker, hinflight⟩ := h.flight key event hflight
    exact ⟨hmaker, hothers.inflight key event hinflight (hmaker ▸ hne)⟩
  case backed =>
    have hbacked := h.backed
    cases call with
    | recordSuccess key event model metadata =>
        obtain ⟨load, hload, hsame⟩ := hbacked
        exact ⟨load, hothers.loads load hload, hsame⟩
    | setEvent key event outcome => exact fun r hr => (hbacked r hr).mono hothers.loads
    | popInflight key event outcome => exact fun r hr => (hbacked r hr).mono hothers.loads
    | _ => trivial

theorem leavesOthers_refl : LeavesOthers t w w := ⟨fun _ _ h _ => h, fun _ h => h⟩

theorem goodAction_self (hw : LoaderInv ofModel strict w) (hcall : LoaderCallInv t w call) :
    GoodAction ofModel strict t w (w, call) := ⟨hw, hcall, leavesOthers_refl⟩

/-- A call that neither owns a load nor carries a model. -/
theorem loaderCallInv_plain (hflight : call.flight = none) : LoaderCallInv t w call := by
  constructor
  case flight =>
    intro key event h
    rw [hflight] at h
    cases h
  case backed => cases call <;> trivial

theorem goodAction_load (hw : LoaderInv ofModel strict w) {key : ModelKey} {event : LoadEvent T}
    (hcall : LoaderCallInv t w (.load key event)) {reads : LoadReads B} {model : B}
    {metadata : ModelMetadata}
    (hload : loadFromRegistry ofModel strict w.currentDatasetVersions reads =
      .ok (model, metadata)) :
    GoodAction ofModel strict t w
      ({ w with
          history := { w.history with
            loads := ⟨key, reads, w.currentDatasetVersions, model, metadata⟩ ::
              w.history.loads } }, .recordSuccess key event model metadata) := by
  have hgrow : ∀ load ∈ w.history.loads, load ∈
      (⟨key, reads, w.currentDatasetVersions, model, metadata⟩ :: w.history.loads) :=
    fun load h => List.mem_cons_of_mem _ h
  constructor
  case world =>
    constructor
    case loads =>
      intro load h
      rcases List.mem_cons.mp h with hnew | hold
      · rw [hnew]
        exact verified_of_loadFromRegistry hload
      · exact hw.loads load hold
    case cache =>
      intro other entry hentry
      obtain ⟨load, h, hsame⟩ := hw.cache other entry hentry
      exact ⟨load, hgrow load h, hsame⟩
    case lastGood =>
      intro modelType good hgood
      obtain ⟨load, h, hsame⟩ := hw.lastGood modelType good hgood
      exact ⟨load, hgrow load h, hsame⟩
    case served => exact fun r hr => (hw.served r hr).mono hgrow
  case call => exact ⟨hcall.flight, _, List.mem_cons_self, rfl, rfl⟩
  case others => exact ⟨fun _ _ h _ => h, hgrow⟩

/-- The owner of a load moves on with it. -/
theorem loaderCallInv_next {next : LoaderCall T B} (hcall : LoaderCallInv t w call)
    (hflight : next.flight = call.flight) (hinflight : w'.inflight = w.inflight)
    (hbacked : CallBacked w'.history next) : LoaderCallInv t w' next := by
  refine ⟨fun key event h => ?_, hbacked⟩
  rw [hflight] at h
  rw [hinflight]
  exact hcall.flight key event h

section

variable [DecidableEq T]

theorem goodAction_finish (hw : LoaderInv ofModel strict w') (hothers : LeavesOthers t w w')
    {outcome : Option (ServedModel B)} (houtcome : ∀ r, outcome = some r → Backed w'.history r) :
    GoodAction ofModel strict t w (w'.finish t outcome) := by
  refine ⟨⟨hw.loads, hw.cache, hw.lastGood, ?_⟩, loaderCallInv_plain rfl,
    ⟨hothers.inflight, hothers.loads⟩⟩
  intro r hr
  rcases List.mem_append.mp hr with hnew | hold
  · exact houtcome r (Option.mem_toList.mp hnew)
  · exact hw.served r hold

theorem goodAction_lookUp (hw : LoaderInv ofModel strict w) (key : ModelKey) (now : ℤ) :
    GoodAction ofModel strict t w (w.lookUpSection t key now) := by
  unfold ModelLoader.lookUpSection
  split
  · rename_i entry hentry
    obtain ⟨hcached, hfresh⟩ := Option.filter_eq_some_iff.mp hentry
    obtain ⟨load, hload, hkey, hmodel⟩ := hw.cache key entry hcached
    apply goodAction_finish hw leavesOthers_refl
    intro r hr
    rw [← Option.some.inj hr]
    refine ⟨⟨load, hload, congrArg Prod.fst hkey, fun _ => hkey, hmodel⟩, fun age hage => ?_⟩
    have hle : ¬ entry.loadedAt + cacheTtl < now := by simpa [CachedModel.isExpired] using hfresh
    have hnow : now - entry.loadedAt = age := ServedFrom.cache.inj hage
    omega
  · cases hinflight : w.inflight key with
    | some event => exact goodAction_self hw (loaderCallInv_plain rfl)
    | none =>
        refine ⟨⟨hw.loads, hw.cache, hw.lastGood, hw.served⟩, ⟨?_, trivial⟩,
          ⟨fun other event hother _ => ?_, fun _ h => h⟩⟩
        · intro other event hflight
          obtain ⟨hkey, hevent⟩ := Prod.mk.inj (Option.some.inj hflight)
          rw [← hkey, ← hevent]
          exact ⟨rfl, Function.update_self ..⟩
        · have hne : other ≠ key := by
            intro heq
            rw [heq, hinflight] at hother
            cases hother
          exact (Function.update_of_ne hne ..).trans hother

omit [DecidableEq T] in
theorem loaderInv_recordSuccess (hw : LoaderInv ofModel strict w) {key : ModelKey} {model : B}
    (metadata : ModelMetadata) (now : ℤ)
    (hload : ∃ load ∈ w.history.loads, load.key = key ∧ load.model = model) :
    LoaderInv ofModel strict (w.recordSuccess key model metadata now) := by
  obtain ⟨load, h, hkey, hmodel⟩ := hload
  refine ⟨hw.loads, fun other entry hentry => ?_, fun modelType good hgood => ?_, hw.served⟩
  · have hentry : Function.update w.cache key (some ⟨model, metadata, now⟩) other =
      some entry := hentry
    by_cases hother : other = key
    · rw [hother, Function.update_self] at hentry
      rw [hother, ← Option.some.inj hentry]
      exact ⟨load, h, hkey, hmodel⟩
    · rw [Function.update_of_ne hother] at hentry
      exact hw.cache other entry hentry
  · have hgood : Function.update w.lastGood key.1 (some (model, metadata)) modelType =
      some good := hgood
    by_cases hother : modelType = key.1
    · rw [hother, Function.update_self] at hgood
      rw [hother, ← Option.some.inj hgood]
      exact ⟨load, h, congrArg Prod.fst hkey, hmodel⟩
    · rw [Function.update_of_ne hother] at hgood
      exact hw.lastGood modelType good hgood

/-- The owner takes its event out, and every other event stays. -/
theorem goodAction_pop (hw : LoaderInv ofModel strict w) {key : ModelKey} {event : LoadEvent T}
    {outcome : Option (ServedModel B)}
    (hcall : LoaderCallInv t w (.popInflight key event outcome)) :
    GoodAction ofModel strict t w
      (ModelLoader.finish { w with inflight := Function.update w.inflight key none } t
        outcome) := by
  apply goodAction_finish
  · exact ⟨hw.loads, hw.cache, hw.lastGood, hw.served⟩
  · refine ⟨fun other e hother hmaker => ?_, fun _ h => h⟩
    have hne : other ≠ key := by
      intro heq
      obtain ⟨hown, hinflight⟩ := hcall.flight key event rfl
      rw [heq, hinflight] at hother
      exact hmaker ((Option.some.inj hother) ▸ hown)
    exact (Function.update_of_ne hne ..).trans hother
  · exact hcall.backed

theorem goodAction_go (hw : LoaderInv ofModel strict w) (hcall : LoaderCallInv t w call)
    (input : LoaderInput B) :
    GoodAction ofModel strict t w (goLoader ofModel strict t w call input) := by
  have hself := goodAction_self hw hcall
  have hraise : GoodAction ofModel strict t w (w.finish t none) :=
    goodAction_finish hw leavesOthers_refl fun r hr => absurd hr (by simp)
  cases call with
  | idle => exact hself
  | checkBreaker modelType version =>
      unfold goLoader
      dsimp only
      split
      · exact hself
      · split
        · exact hraise
        · split <;> exact goodAction_self hw (loaderCallInv_plain rfl)
  | findVersion modelType =>
      unfold goLoader
      dsimp only
      split
      · exact hraise
      · exact goodAction_self hw (loaderCallInv_plain rfl)
  | lookUp key =>
      unfold goLoader
      dsimp only
      split
      · exact goodAction_lookUp hw key input.now
      · exact hself
  | waitEvent key event =>
      unfold goLoader
      dsimp only
      split
      · exact goodAction_self hw (loaderCallInv_plain rfl)
      · exact hself
  | load key event =>
      unfold goLoader
      dsimp only
      split
      · exact goodAction_self hw (loaderCallInv_next hcall rfl rfl trivial)
      · rename_i model metadata hload
        exact goodAction_load hw hcall hload
  | recordSuccess key event model metadata =>
      unfold goLoader
      dsimp only
      split
      · obtain ⟨load, h, hkey, hmodel⟩ := hcall.backed
        refine ⟨loaderInv_recordSuccess hw metadata input.now hcall.backed,
          loaderCallInv_next hcall rfl rfl ?_, ⟨fun _ _ h _ => h, fun _ h => h⟩⟩
        intro r hr
        rw [← Option.some.inj hr]
        exact ⟨⟨load, h, congrArg Prod.fst hkey, fun _ => hkey, hmodel⟩,
          fun age hage => absurd hage (by simp)⟩
      · exact hself
  | handleFailure key event =>
      unfold goLoader
      dsimp only
      split
      · refine ⟨⟨hw.loads, hw.cache, hw.lastGood, hw.served⟩,
          loaderCallInv_next hcall rfl rfl ?_, ⟨fun _ _ h _ => h, fun _ h => h⟩⟩
        intro r hr
        simp only [ModelLoader.handleFailure] at hr
        split at hr
        · cases hr
        · obtain ⟨good, hgood, heq⟩ := Option.map_eq_some_iff.mp hr
          obtain ⟨load, h, htype, hmodel⟩ := hw.lastGood key.1 good hgood
          rw [← heq]
          exact ⟨⟨load, h, htype, fun hne => absurd rfl hne, hmodel⟩,
            fun age hage => absurd hage (by simp)⟩
      · exact hself
  | setEvent key event outcome =>
      refine ⟨⟨hw.loads, hw.cache, hw.lastGood, hw.served⟩,
        loaderCallInv_next hcall rfl rfl hcall.backed, ⟨fun _ _ h _ => h, fun _ h => h⟩⟩
  | popInflight key event outcome =>
      unfold goLoader
      dsimp only
      split
      · exact goodAction_pop hw hcall
      · exact hself
  | pollRegistry modelType =>
      unfold goLoader
      dsimp only
      split
      · exact hraise
      · exact goodAction_self hw (loaderCallInv_plain rfl)
  | pollLock key =>
      unfold goLoader
      dsimp only
      split
      · exact hself
      · split
        · exact ⟨⟨hw.loads, hw.cache, hw.lastGood, hw.served⟩, loaderCallInv_plain rfl,
            ⟨fun _ _ h _ => h, fun _ h => h⟩⟩
        · exact hraise
  | clearCache modelType =>
      unfold goLoader
      dsimp only
      split
      · apply goodAction_finish
        · refine ⟨hw.loads, fun key entry hentry => ?_, hw.lastGood, hw.served⟩
          exact hw.cache key entry (Option.filter_eq_some_iff.mp hentry).1
        · exact ⟨fun _ _ h _ => h, fun _ h => h⟩
        · exact fun r hr => absurd hr (by simp)
      · exact hself
  | resetBreaker modelType =>
      unfold goLoader
      dsimp only
      split
      · apply goodAction_finish
        · exact ⟨hw.loads, hw.cache, hw.lastGood, hw.served⟩
        · exact ⟨fun _ _ h _ => h, fun _ h => h⟩
        · exact fun r hr => absurd hr (by simp)
      · exact hself

/-! ## Runs -/

theorem goodAction_action (hw : LoaderInv ofModel strict w) (hcall : LoaderCallInv t w call)
    (action : LoaderAction B) :
    GoodAction ofModel strict t w (loaderAction ofModel strict t w call action) := by
  cases action with
  | start request =>
      unfold loaderAction
      dsimp only
      split
      · exact goodAction_self hw (loaderCallInv_plain (by cases request <;> rfl))
      · exact goodAction_self hw hcall
  | go input => exact goodAction_go hw hcall input
  | setCurrentDatasetVersions versions =>
      exact ⟨⟨hw.loads, hw.cache, hw.lastGood, hw.served⟩,
        loaderCallInv_next hcall rfl rfl hcall.backed, ⟨fun _ _ h _ => h, fun _ h => h⟩⟩

def LoaderRunInv (ofModel : B → String) (strict : Bool) :
    Threads T (ModelLoader T B) (LoaderCall T B) → Prop :=
  AllThreads (LoaderInv ofModel strict) LoaderCallInv

variable {s : Threads T (ModelLoader T B) (LoaderCall T B)}

theorem loaderRunInv_step (h : LoaderRunInv ofModel strict s) (move : T × LoaderAction B) :
    LoaderRunInv ofModel strict (loaderStep ofModel strict s move) := by
  have hgood := goodAction_action h.shared (h.thread move.1) move.2
  exact h.step ⟨hgood.world, hgood.call⟩ fun _ hne hj => hj.leave hne hgood.others

omit [DecidableEq T] in
theorem loaderRunInv_fresh (versions : List (String × String)) :
    LoaderRunInv ofModel strict
      (freshLoader versions : Threads T (ModelLoader T B) (LoaderCall T B)) := by
  refine ⟨⟨?_, ?_, ?_, ?_⟩, fun _ => loaderCallInv_plain rfl⟩ <;> simp [freshLoader]

/-- In every state of every run, a key is loaded by one thread at most. -/
theorem one_load_per_key (versions : List (String × String)) (moves : List (T × LoaderAction B)) :
    EveryState (loaderStep ofModel strict)
      (fun s => ∀ t t' key event event', (s.loc t).flight = some (key, event) →
        (s.loc t').flight = some (key, event') → t = t') (freshLoader versions) moves := by
  have hinv : EveryState (loaderStep ofModel strict) (LoaderRunInv ofModel strict)
      (freshLoader versions) moves :=
    everyState_of_step (fun _ move h => loaderRunInv_step h move) moves
      (loaderRunInv_fresh versions)
  apply hinv.mono
  intro s h t t' key event event' hflight hflight'
  obtain ⟨hmaker, hinflight⟩ := (h.thread t).flight key event hflight
  obtain ⟨hmaker', hinflight'⟩ := (h.thread t').flight key event' hflight'
  rw [hinflight] at hinflight'
  rw [← hmaker, ← hmaker', Option.some.inj hinflight']

/-- What another thread cannot change while the lock is held. -/
structure HoldsStill (w w' : ModelLoader T B) : Prop where
  lockOwner : w'.lockOwner = w.lockOwner
  cache : w'.cache = w.cache
  failures : w'.failures = w.failures
  inflight : w'.inflight = w.inflight
  served : w'.history.served = w.history.served

omit [DecidableEq T] in
theorem holdsStill_refl : HoldsStill w w := ⟨rfl, rfl, rfl, rfl, rfl⟩

theorem holdsStill_raise {p : T} (hlock : w.lockOwner = some p) (hne : t ≠ p) :
    HoldsStill w (w.finish t none).1 := by
  refine ⟨?_, rfl, rfl, rfl, rfl⟩
  have hother : w.lockOwner ≠ some t := by
    rw [hlock]
    exact fun heq => hne (Option.some.inj heq).symm
  exact if_neg hother

theorem holdsStill_go {p : T} (hlock : w.lockOwner = some p) (hne : t ≠ p)
    (input : LoaderInput B) :
    HoldsStill w (goLoader ofModel strict t w call input).1 := by
  have hfree : w.lockFree t = false := by
    have hother : p ≠ t := fun heq => hne heq.symm
    simp [ModelLoader.lockFree, hlock, hother]
  have hraise := holdsStill_raise (w := w) hlock hne
  cases call with
  | findVersion modelType =>
      unfold goLoader
      dsimp only
      split
      · exact hraise
      · exact holdsStill_refl
  | pollRegistry modelType =>
      unfold goLoader
      dsimp only
      split
      · exact hraise
      · exact holdsStill_refl
  | waitEvent key event =>
      unfold goLoader
      dsimp only
      split <;> exact holdsStill_refl
  | load key event =>
      unfold goLoader
      dsimp only
      split
      · exact holdsStill_refl
      · exact ⟨rfl, rfl, rfl, rfl, rfl⟩
  | setEvent key event outcome => exact ⟨rfl, rfl, rfl, rfl, rfl⟩
  | idle => exact holdsStill_refl
  | _ =>
      unfold goLoader
      simp only [hfree]
      exact holdsStill_refl

/-- The poller asks for a key that another thread has in flight, with the lock in its hands. -/
structure Hung (p : T) (key : ModelKey) (s : Threads T (ModelLoader T B) (LoaderCall T B)) :
    Prop where
  lock : s.shared.lockOwner = some p
  cache : s.shared.cache key = none
  failures : s.shared.failures key.1 < circuitBreakerThreshold
  inflight : (s.shared.inflight key).isSome
  call : s.loc p = .checkBreaker key.1 (some key.2) ∨ s.loc p = .lookUp key ∨
    ∃ event, s.loc p = .waitEvent key event

omit [DecidableEq T] in
theorem Hung.of_holdsStill {p : T} {key : ModelKey}
    {s s' : Threads T (ModelLoader T B) (LoaderCall T B)} (h : Hung p key s)
    (hstill : HoldsStill s.shared s'.shared)
    (hcall : s'.loc p = .checkBreaker key.1 (some key.2) ∨ s'.loc p = .lookUp key ∨
      ∃ event, s'.loc p = .waitEvent key event) : Hung p key s' := by
  constructor
  case lock => rw [hstill.lockOwner, h.lock]
  case cache => rw [hstill.cache, h.cache]
  case failures => rw [hstill.failures]; exact h.failures
  case inflight => rw [hstill.inflight]; exact h.inflight
  case call => exact hcall

/-- The poller's own action: it goes round between the lookup and the wait. -/
theorem hung_goes_round {p : T} {key : ModelKey} (h : Hung p key s) (input : LoaderInput B) :
    (goLoader ofModel strict p s.shared (s.loc p) input).1 = s.shared ∧
      ((goLoader ofModel strict p s.shared (s.loc p) input).2 = .lookUp key ∨
        ∃ event, (goLoader ofModel strict p s.shared (s.loc p) input).2 =
          .waitEvent key event) := by
  have hfree : s.shared.lockFree p = true := by simp [ModelLoader.lockFree, h.lock]
  obtain ⟨event, hinflight⟩ := Option.isSome_iff_exists.mp h.inflight
  rcases h.call with hcall | hcall | ⟨waited, hcall⟩
  · have hbelow := not_le.mpr h.failures
    rw [hcall, goLoader]
    simp [hfree, hbelow]
  · rw [hcall, goLoader]
    simp [hfree, ModelLoader.lookUpSection, h.cache, hinflight]
  · rw [hcall, goLoader]
    cases s.shared.eventSet waited <;> simp

theorem hung_step {p : T} {key : ModelKey} (h : Hung p key s) (move : T × LoaderAction B) :
    Hung p key (loaderStep ofModel strict s move) ∧
      (loaderStep ofModel strict s move).shared.history.served = s.shared.history.served := by
  obtain ⟨t, action⟩ := move
  have hstill : HoldsStill s.shared (loaderStep ofModel strict s (t, action)).shared := by
    show HoldsStill s.shared (loaderAction ofModel strict t s.shared (s.loc t) action).1
    cases action with
    | start request =>
        unfold loaderAction
        dsimp only
        split <;> exact holdsStill_refl
    | setCurrentDatasetVersions versions => exact ⟨rfl, rfl, rfl, rfl, rfl⟩
    | go input =>
        by_cases ht : t = p
        · rw [ht, loaderAction, (hung_goes_round h input).1]
          exact holdsStill_refl
        · exact holdsStill_go h.lock ht input
  refine ⟨h.of_holdsStill hstill ?_, hstill.served⟩
  show Function.update s.loc t (loaderAction ofModel strict t s.shared (s.loc t) action).2 p = _ ∨
    Function.update s.loc t (loaderAction ofModel strict t s.shared (s.loc t) action).2 p = _ ∨
      ∃ event, Function.update s.loc t
        (loaderAction ofModel strict t s.shared (s.loc t) action).2 p = _
  by_cases ht : p = t
  · rw [← ht, Function.update_self]
    cases action with
    | start request =>
        rcases h.call with hcall | hcall | ⟨event, hcall⟩ <;> simp [loaderAction, hcall]
    | setCurrentDatasetVersions versions => exact h.call
    | go input => exact .inr (hung_goes_round h input).2
  · rw [Function.update_of_ne ht]
    exact h.call

/-- A poll that takes the lock while another thread loads the production version keeps it for good:
whatever the threads do from then on, no call returns a model. -/
theorem poll_during_load_hangs (s : Threads T (ModelLoader T B) (LoaderCall T B)) (p : T)
    (key : ModelKey) (input : LoaderInput B) (moves : List (T × LoaderAction B))
    (hpoll : s.loc p = .pollLock key) (hlock : s.shared.lockOwner = none)
    (hcache : s.shared.cache key = none)
    (hfailures : s.shared.failures key.1 < circuitBreakerThreshold)
    (hinflight : (s.shared.inflight key).isSome) :
    EveryState (loaderStep ofModel strict)
      (fun s' => s'.shared.lockOwner = some p ∧
        s'.shared.history.served = s.shared.history.served)
      (loaderStep ofModel strict s (p, .go input)) moves := by
  have hfirst : loaderStep ofModel strict s (p, .go input) =
      ⟨{ s.shared with lockOwner := some p },
        Function.update s.loc p (.checkBreaker key.1 (some key.2))⟩ := by
    unfold loaderStep interleave loaderAction
    simp [hpoll, goLoader, ModelLoader.lockFree, hlock, hcache]
  have hhung : Hung p key (loaderStep ofModel strict s (p, .go input)) := by
    rw [hfirst]
    exact ⟨rfl, hcache, hfailures, hinflight, .inl (Function.update_self ..)⟩
  have hserved : (loaderStep ofModel strict s (p, .go input)).shared.history.served =
      s.shared.history.served := by
    rw [hfirst]
  have hrun : EveryState (loaderStep ofModel strict)
      (fun s' => Hung p key s' ∧ s'.shared.history.served = s.shared.history.served)
      (loaderStep ofModel strict s (p, .go input)) moves := by
    refine everyState_of_step (fun s' move h => ?_) moves ⟨hhung, hserved⟩
    have hnext : Hung p key (loaderStep ofModel strict s' move) ∧
        (loaderStep ofModel strict s' move).shared.history.served = s'.shared.history.served :=
      hung_step h.1 move
    exact ⟨hnext.1, hnext.2.trans h.2⟩
  exact hrun.mono fun _ h => ⟨h.1.lock, h.2⟩

end

/-! ## A poll during the first load -/

def noReads : LoaderInput String := ⟨0, some "v1.0.0", ⟨none, false, none, none⟩⟩

/-- One thread loads the production version, and the other has found out that it is new. -/
def loadAndPoll : List (Bool × LoaderAction String) :=
  [(false, .start (.getModel .riskModel none)), (false, .go noReads), (false, .go noReads),
    (false, .go noReads), (true, .start (.checkForUpdate .riskModel)), (true, .go noReads)]

def beforePoll : Threads Bool (ModelLoader Bool String) (LoaderCall Bool String) :=
  run (loaderStep id true) (freshLoader [("crsp", "v1.2.3")]) loadAndPoll

theorem poll_during_first_load_hangs :
    EveryState (loaderStep id true)
      (fun s' => s'.shared.lockOwner = some true ∧ s'.shared.history.served = [])
      (loaderStep id true beforePoll (true, .go noReads)) (List.replicate 5 (false, .go noReads)) :=
  poll_during_load_hangs beforePoll true (.riskModel, "v1.0.0") noReads _ rfl rfl rfl (by decide)
    rfl

end TradingPlatform.Models
