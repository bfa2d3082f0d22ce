import TradingPlatform.Base.Interleaving
import TradingPlatform.Models.Registry
import Mathlib.Algebra.Order.Group.Int

/-! # The production model loader

Threads ask for models; one of them loads a key and the others wait for its event. A call is cut
into its sections under the cache lock, its reads of the registry and its waits. The lock may be
held over a whole call by the thread that polls for a new production version.
-/

namespace TradingPlatform.Models

open Base

variable {B T : Type}

/-! ## Compatibility -/

inductive CompatibilityLevel where
  | exact | drift | missing
  deriving DecidableEq, Repr

structure CompatibilityResult where
  compatible : Bool
  level : CompatibilityLevel
  warnings : List String
  deriving DecidableEq, Repr

def missingWarning (dataset modelVersion : String) : String :=
  "Dataset '" ++ dataset ++ "' (version " ++ modelVersion ++ ") required by model " ++
    "is not available in current environment"

def driftWarning (dataset modelVersion currentVersion : String) : String :=
  "Dataset '" ++ dataset ++ "': model trained on " ++ modelVersion ++
    ", current environment has " ++ currentVersion

/-- The loop over the datasets, with the warnings so far. -/
def checkVersions (strict : Bool) (current : List (String × String)) (warnings : List String) :
    List (String × String) → CompatibilityResult
  | [] =>
      if warnings = [] then ⟨true, .exact, []⟩ else ⟨!strict, .drift, warnings⟩
  | (dataset, modelVersion) :: rest =>
      match current.lookup dataset with
      | none => ⟨false, .missing, [missingWarning dataset modelVersion]⟩
      | some currentVersion =>
          if modelVersion = currentVersion then checkVersions strict current warnings rest
          else
            checkVersions strict current
              (warnings ++ [driftWarning dataset modelVersion currentVersion]) rest

def checkCompatibility (strict : Bool) (modelVersions current : List (String × String)) :
    CompatibilityResult :=
  checkVersions strict current [] modelVersions

/-! ## A load -/

inductive LoadCause where
  | metadataNotFound | artifactPathNotFound | modelNotFound | checksumMismatch
  | deserialization | metadataChanged
  | incompatible (warnings : List String)
  deriving DecidableEq, Repr

/-- What a load reads, one after the other. -/
structure LoadReads (B : Type) where
  /-- `get_model_metadata`, which verifies the sidecar against the database -/
  metadata : Option ModelMetadata
  artifactPath : Bool
  /-- the model file whose checksum is computed -/
  checkedFile : Option B
  /-- what is deserialized after that -/
  deserialized : Option (B × ModelMetadata)

/-- `_load_from_registry` -/
def loadFromRegistry (ofModel : B → String) (strict : Bool) (current : List (String × String))
    (reads : LoadReads B) : Except LoadCause (B × ModelMetadata) :=
  match reads.metadata with
  | none => .error .metadataNotFound
  | some metadata =>
      if !reads.artifactPath then .error .artifactPathNotFound
      else
        match reads.checkedFile with
        | none => .error .modelNotFound
        | some file =>
            if ofModel file ≠ metadata.checksumSha256 then .error .checksumMismatch
            else
              match reads.deserialized with
              | none => .error .deserialization
              | some (model, loaded) =>
                  if loaded.modelId ≠ metadata.modelId then .error .metadataChanged
                  else if current ≠ [] then
                    let result := checkCompatibility strict loaded.datasetVersionIds current
                    if result.compatible then .ok (model, loaded)
                    else .error (.incompatible result.warnings)
                  else .ok (model, loaded)

/-! ## The shared state -/

abbrev ModelKey := ModelType × String

structure CachedModel (B : Type) where
  model : B
  metadata : ModelMetadata
  loadedAt : ℤ

/-- An event is one object: it is named by the thread that made it, and numbered. -/
structure LoadEvent (T : Type) where
  maker : T
  number : ℕ
  deriving DecidableEq

/-- A load that succeeded, with the dataset versions that were set then. -/
structure SuccessfulLoad (B : Type) where
  key : ModelKey
  reads : LoadReads B
  current : List (String × String)
  model : B
  metadata : ModelMetadata

inductive ServedFrom where
  | cache (age : ℤ)
  | load
  | lastGood
  deriving DecidableEq, Repr

structure ServedModel (B : Type) where
  key : ModelKey
  model : B
  source : ServedFrom

/-- The record of the run: it is read by no call. -/
structure LoaderHistory (B : Type) where
  loads : List (SuccessfulLoad B)
  served : List (ServedModel B)

structure ModelLoader (T B : Type) where
  cache : ModelKey → Option (CachedModel B)
  lockOwner : Option T
  inflight : ModelKey → Option (LoadEvent T)
  eventSet : LoadEvent T → Bool
  nextEvent : ℕ
  lastGood : ModelType → Option (B × ModelMetadata)
  failures : ModelType → ℕ
  currentDatasetVersions : List (String × String)
  history : LoaderHistory B

/-! ## The calls, cut into actions -/

/-- Where a call stands. An outcome is what the call is about to return, or `none` when it is about
to raise. -/
inductive LoaderCall (T B : Type) where
  | idle
  | checkBreaker (modelType : ModelType) (version : Option String)
  | findVersion (modelType : ModelType)
  | lookUp (key : ModelKey)
  | waitEvent (key : ModelKey) (event : LoadEvent T)
  | load (key : ModelKey) (event : LoadEvent T)
  | recordSuccess (key : ModelKey) (event : LoadEvent T) (model : B) (metadata : ModelMetadata)
  | handleFailure (key : ModelKey) (event : LoadEvent T)
  | setEvent (key : ModelKey) (event : LoadEvent T) (outcome : Option (ServedModel B))
  | popInflight (key : ModelKey) (event : LoadEvent T) (outcome : Option (ServedModel B))
  | pollRegistry (modelType : ModelType)
  | pollLock (key : ModelKey)
  | clearCache (modelType : Option ModelType)
  | resetBreaker (modelType : ModelType)

inductive LoaderRequest where
  | getModel (modelType : ModelType) (version : Option String)
  | checkForUpdate (modelType : ModelType)
  | clearCache (modelType : Option ModelType)
  | resetCircuitBreaker (modelType : ModelType)

/-- What an action takes from outside: the clock, the production version, and the reads of a
load. -/
structure LoaderInput (B : Type) where
  now : ℤ
  production : Option String
  reads : LoadReads B

inductive LoaderAction (B : Type) where
  | start (request : LoaderRequest)
  | go (input : LoaderInput B)
  | setCurrentDatasetVersions (versions : List (String × String))

def circuitBreakerThreshold : ℕ := 3

/-- `CACHE_TTL_HOURS`, in seconds -/
def cacheTtl : ℤ := 86400

def CachedModel.isExpired (entry : CachedModel B) (now : ℤ) : Bool :=
  entry.loadedAt + cacheTtl < now

def firstLoaderCall : LoaderRequest → LoaderCall T B
  | .getModel modelType version => .checkBreaker modelType version
  | .checkForUpdate modelType => .pollRegistry modelType
  | .clearCache modelType => .clearCache modelType
  | .resetCircuitBreaker modelType => .resetBreaker modelType

section

variable [DecidableEq T]

def ModelLoader.lockFree (w : ModelLoader T B) (t : T) : Bool :=
  w.lockOwner = none || w.lockOwner = some t

/-- The end of a call: a thread that polls gives the lock back. -/
def ModelLoader.finish (w : ModelLoader T B) (t : T) (outcome : Option (ServedModel B)) :
    ModelLoader T B × LoaderCall T B :=
  ({ w with
      lockOwner := if w.lockOwner = some t then none else w.lockOwner
      history := { w.history with served := outcome.toList ++ w.history.served } }, .idle)

/-- The section of the lookup: the entry, another thread's event, or an event of one's own. -/
def ModelLoader.lookUpSection (w : ModelLoader T B) (t : T) (key : ModelKey) (now : ℤ) :
    ModelLoader T B × LoaderCall T B :=
  match (w.cache key).filter fun entry => !entry.isExpired now with
  | some entry => w.finish t (some ⟨key, entry.model, .cache (now - entry.loadedAt)⟩)
  | none =>
      match w.inflight key with
      | some event => (w, .waitEvent key event)
      | none =>
          let event : LoadEvent T := ⟨t, w.nextEvent⟩
          ({ w with
              inflight := Function.update w.inflight key (some event)
              nextEvent := w.nextEvent + 1 }, .load key event)

def ModelLoader.recordSuccess (w : ModelLoader T B) (key : ModelKey) (model : B)
    (metadata : ModelMetadata) (now : ℤ) : ModelLoader T B :=
  { w with
    cache := Function.update w.cache key (some ⟨model, metadata, now⟩)
    lastGood := Function.update w.lastGood key.1 (some (model, metadata))
    failures := Function.update w.failures key.1 0 }

/-- `_handle_load_failure`: it raises at the threshold and without a last good model. -/
def ModelLoader.handleFailure (w : ModelLoader T B) (key : ModelKey) :
    ModelLoader T B × Option (ServedModel B) :=
  let failureCount := w.failures key.1 + 1
  ({ w with failures := Function.update w.failures key.1 failureCount },
    if circuitBreakerThreshold ≤ failureCount then none
    else (w.lastGood key.1).map fun good => ⟨key, good.1, .lastGood⟩)

/-- An action of a call. A section waits while another thread holds the lock. -/
def goLoader (ofModel : B → String) (strict : Bool) (t : T) (w : ModelLoader T B)
    (call : LoaderCall T B) (input : LoaderInput B) : ModelLoader T B × LoaderCall T B :=
  match call with
  | .idle => (w, .idle)
  | .checkBreaker modelType version =>
      if !w.lockFree t then (w, call)
      else if circuitBreakerThreshold ≤ w.failures modelType then w.finish t none
      else
        match version with
        | none => (w, .findVersion modelType)
        | some version => (w, .lookUp (modelType, version))
  | .findVersion modelType =>
      match input.production with
      | none => w.finish t none
      | some version => (w, .lookUp (modelType, version))
  | .lookUp key => if w.lockFree t then w.lookUpSection t key input.now else (w, call)
  | .waitEvent key event => if w.eventSet event then (w, .lookUp key) else (w, call)
  | .load key event =>
      match loadFromRegistry ofModel strict w.currentDatasetVersions input.reads with
      | .error _ => (w, .handleFailure key event)
      | .ok (model, metadata) =>
          ({ w with
              history := { w.history with
                loads := ⟨key, input.reads, w.currentDatasetVersions, model, metadata⟩ ::
                  w.history.loads } }, .recordSuccess key event model metadata)
  | .recordSuccess key event model metadata =>
      if w.lockFree t then
        (w.recordSuccess key model metadata input.now,
          .setEvent key event (some ⟨key, model, .load⟩))
      else (w, call)
  | .handleFailure key event =>
      if w.lockFree t then
        ((w.handleFailure key).1, .setEvent key event (w.handleFailure key).2)
      else (w, call)
  | .setEvent key event outcome =>
      ({ w with eventSet := Function.update w.eventSet event true },
        .popInflight key event outcome)
  | .popInflight key _ outcome =>
      if w.lockFree t then
        ModelLoader.finish { w with inflight := Function.update w.inflight key none } t outcome
      else (w, call)
  | .pollRegistry modelType =>
      match input.production with
      | none => w.finish t none
      | some version => (w, .pollLock (modelType, version))
  | .pollLock key =>
      if !w.lockFree t then (w, call)
      else if (w.cache key).isNone then
        ({ w with lockOwner := some t }, .checkBreaker key.1 (some key.2))
      else w.finish t none
  | .clearCache modelType =>
      if w.lockFree t then
        ModelLoader.finish { w with
          cache := fun key =>
            (w.cache key).filter fun _ => modelType.any fun modelType => modelType ≠ key.1 }
          t none
      else (w, call)
  | .resetBreaker modelType =>
      if w.lockFree t then
        ModelLoader.finish { w with failures := Function.update w.failures modelType 0 } t none
      else (w, call)

/-- An idle thread starts a call; a thread in a call takes its next action. -/
def loaderAction (ofModel : B → String) (strict : Bool) (t : T) (w : ModelLoader T B)
    (call : LoaderCall T B) : LoaderAction B → ModelLoader T B × LoaderCall T B
  | .start request =>
      match call with
      | .idle => (w, firstLoaderCall request)
      | _ => (w, call)
  | .go input => goLoader ofModel strict t w call input
  | .setCurrentDatasetVersions versions => ({ w with currentDatasetVersions := versions }, call)

def loaderStep (ofModel : B → String) (strict : Bool) :
    Threads T (ModelLoader T B) (LoaderCall T B) → T × LoaderAction B →
      Threads T (ModelLoader T B) (LoaderCall T B) :=
  interleave (loaderAction ofModel strict)

end

def freshLoader (versions : List (String × String)) :
    Threads T (ModelLoader T B) (LoaderCall T B) where
  shared :=
    { cache := fun _ => none
      lockOwner := none
      inflight := fun _ => none
      eventSet := fun _ => false
      nextEvent := 0
      lastGood := fun _ => none
      failures := fun _ => 0
      currentDatasetVersions := versions
      history := ⟨[], []⟩ }
  loc := fun _ => .idle

end TradingPlatform.Models
