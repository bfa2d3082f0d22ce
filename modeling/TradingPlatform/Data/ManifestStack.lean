import TradingPlatform.Base.BackedStack
import Mathlib.Algebra.GroupWithZero.Nat

/-! # The versions of a manifest

`save_manifest` and `rollback_on_failure` on one dataset, with the manifest and
its backups as files. The backups are those of a stack: a save pushes, a rollback
pops, and a backup that a later save takes the version of is never looked for.
-/

namespace TradingPlatform.Data

open Base

variable {β : Type*}

/-- `SyncManifest`; `other` are the fields that no operation here reads. -/
structure ManifestRecord (β : Type*) where
  dataset : String
  checksum : String
  filePaths : List String
  manifestVersion : ℤ
  previousChecksum : Option String
  manifestId : Option String
  other : β
  deriving DecidableEq, Repr

structure ManifestDir (β : Type*) where
  manifest : Option (ManifestRecord β)
  backups : ℤ → Option (ManifestRecord β)

/-- The arguments of a save and what it finds: whether its token holds the lock of the dataset, the
sizes of the data files, and the answer of `check_disk_space`. -/
structure SaveCall (β : Type*) where
  manifest : ManifestRecord β
  expectedBytes : Option ℕ
  manifestBytes : ℕ
  held : Bool
  size : String → Option ℕ
  diskSpace : ℕ → Bool

/-! ## The operations -/

def ManifestRecord.withId (manifest : ManifestRecord β) : ManifestRecord β :=
  { manifest with
    manifestId := some
      (manifest.dataset ++ "@v" ++ toString manifest.manifestVersion ++ ":" ++
        manifest.checksum) }

def ManifestRecord.after (manifest current : ManifestRecord β) : ManifestRecord β :=
  { manifest with
    manifestVersion := current.manifestVersion + 1
    previousChecksum := some current.checksum }

def SaveCall.required (call : SaveCall β) : ℕ :=
  match call.expectedBytes with
  | some bytes => bytes
  | none =>
      let total := (call.manifest.filePaths.map fun path => (call.size path).getD 0).sum
      if 0 < total then total else call.manifestBytes

/-- `save_manifest`; `none` where it raises. -/
def ManifestDir.save (dir : ManifestDir β) (call : SaveCall β) : Option (ManifestDir β) :=
  if call.held = false then none
  else if call.manifest.filePaths.any fun path => (call.size path).getD 0 = 0 then none
  else if call.diskSpace (2 * call.required) = false then none
  else
    match dir.manifest with
    | some current => some
        { manifest := some (call.manifest.after current).withId
          backups := Function.update dir.backups current.manifestVersion (some current) }
    | none => some { dir with manifest := some call.manifest.withId }

/-- `rollback_on_failure`, with the manifest that it returns; `none` where it raises. -/
def ManifestDir.rollback (dir : ManifestDir β) (held : Bool) :
    Option (ManifestDir β × Option (ManifestRecord β)) :=
  if held = false then none
  else
    match dir.manifest with
    | none => some (dir, none)
    | some current =>
        match current.previousChecksum with
        | none => some (dir, none)
        | some previous =>
            if previous = "" then some (dir, none)
            else
              match dir.backups (current.manifestVersion - 1) with
              | none => some (dir, none)
              | some backup =>
                  if backup.checksum ≠ previous then some (dir, none)
                  else some ({ dir with manifest := some backup }, some backup)

inductive ManifestCall (β : Type*) where
  | save (call : SaveCall β)
  | rollback (held : Bool)

def ManifestDir.call (dir : ManifestDir β) : ManifestCall β → Option (ManifestDir β)
  | .save call => dir.save call
  | .rollback held => (dir.rollback held).map Prod.fst

/-- A run without a call that raises. -/
def ManifestDir.calls (dir : ManifestDir β) (calls : List (ManifestCall β)) :
    Option (ManifestDir β) := calls.foldlM ManifestDir.call dir

def ManifestDir.empty : ManifestDir β := ⟨none, fun _ => none⟩

/-! ## The stack -/

/-- The version is one above that of the top, whose checksum is the previous one. -/
def pushManifest (manifest : ManifestRecord β) :
    List (ManifestRecord β) → List (ManifestRecord β)
  | [] => [manifest.withId]
  | top :: stack => (manifest.after top).withId :: top :: stack

/-- What lies at the bottom stays. -/
def popManifest : List (ManifestRecord β) → List (ManifestRecord β)
  | _ :: below :: stack => below :: stack
  | stack => stack

def ManifestCall.onStack (stack : List (ManifestRecord β)) :
    ManifestCall β → List (ManifestRecord β)
  | .save call => pushManifest call.manifest stack
  | .rollback _ => popManifest stack

def manifestStack (calls : List (ManifestCall β)) : List (ManifestRecord β) :=
  calls.foldl ManifestCall.onStack []

/-! ## The backups are those of the stack -/

/-- The files of a dataset keep this stack. -/
structure KeepsStack (dir : ManifestDir β) (stack : List (ManifestRecord β)) : Prop where
  current : dir.manifest = stack.head?
  backed : Backed ManifestRecord.manifestVersion
    (fun manifest below => manifest.previousChecksum = some below.checksum) dir.backups stack
  checksums : ∀ manifest ∈ stack, manifest.checksum ≠ ""

variable {dir next : ManifestDir β} {stack : List (ManifestRecord β)}

theorem keepsStack_empty : KeepsStack (ManifestDir.empty : ManifestDir β) [] where
  current := rfl
  backed := Backed.empty
  checksums := by simp

theorem KeepsStack.save (h : KeepsStack dir stack) {call : SaveCall β}
    (hchecksum : call.manifest.checksum ≠ "") (hsave : dir.save call = some next) :
    KeepsStack next (pushManifest call.manifest stack) := by
  have hcurrent := h.current
  unfold ManifestDir.save at hsave
  split_ifs at hsave
  cases stack with
  | nil =>
      rw [hcurrent] at hsave
      cases hsave
      refine ⟨rfl, h.backed.first _, ?_⟩
      simpa [pushManifest, ManifestRecord.withId] using hchecksum
  | cons top stack =>
      rw [hcurrent] at hsave
      cases hsave
      refine ⟨rfl, h.backed.push rfl rfl, ?_⟩
      intro manifest hmem
      rcases List.mem_cons.mp hmem with rfl | hmem
      · exact hchecksum
      · exact h.checksums manifest hmem

theorem KeepsStack.rollback_bottom (h : KeepsStack dir stack) (hbottom : stack.tail = []) :
    dir.rollback true = some (dir, none) := by
  have hcurrent := h.current
  unfold ManifestDir.rollback
  cases stack with
  | nil =>
      simp [hcurrent]
  | cons top stack =>
      obtain rfl : stack = [] := hbottom
      have hnone := h.backed.copy_bottom
      cases hprevious : top.previousChecksum with
      | none =>
          simp [hcurrent, hprevious]
      | some previous =>
          simp [hcurrent, hprevious, hnone]

/-- The backup is that of the manifest below, though others may have had its version. -/
theorem KeepsStack.rollback_below {top below : ManifestRecord β}
    (h : KeepsStack dir (top :: below :: stack)) :
    dir.rollback true = some ({ dir with manifest := some below }, some below) := by
  have hcurrent := h.current
  obtain ⟨hcopy, hprevious⟩ := h.backed.copy_below
  have hchecksum := h.checksums below (by simp)
  simp [ManifestDir.rollback, hcurrent, hprevious, hcopy, hchecksum]

theorem KeepsStack.popped (h : KeepsStack dir stack) {held : Bool}
    {restored : Option (ManifestRecord β)}
    (hrollback : dir.rollback held = some (next, restored)) :
    KeepsStack next (popManifest stack) := by
  cases held with
  | false => simp [ManifestDir.rollback] at hrollback
  | true =>
      cases stack with
      | nil =>
          rw [h.rollback_bottom rfl] at hrollback
          cases hrollback
          exact h
      | cons top stack =>
          cases stack with
          | nil =>
              rw [h.rollback_bottom rfl] at hrollback
              cases hrollback
              exact h
          | cons below stack =>
              rw [h.rollback_below] at hrollback
              cases hrollback
              refine ⟨rfl, h.backed.pop, ?_⟩
              exact fun manifest hmem => h.checksums manifest (List.mem_cons_of_mem top hmem)

/-- The saves of a run are of manifests with a checksum. -/
def HaveChecksums (calls : List (ManifestCall β)) : Prop :=
  ∀ call : SaveCall β, .save call ∈ calls → call.manifest.checksum ≠ ""

theorem keepsStack_calls (calls : List (ManifestCall β)) (hchecksums : HaveChecksums calls)
    (h : KeepsStack dir stack) (hcalls : dir.calls calls = some next) :
    KeepsStack next (calls.foldl ManifestCall.onStack stack) := by
  induction calls generalizing dir stack with
  | nil =>
      cases hcalls
      exact h
  | cons call calls ih =>
      have hrest : HaveChecksums calls := fun save hmem =>
        hchecksums save (List.mem_cons_of_mem call hmem)
      unfold ManifestDir.calls at hcalls
      rw [List.foldlM_cons] at hcalls
      obtain ⟨middle, hcall, hlater⟩ := Option.bind_eq_some_iff.mp hcalls
      cases call with
      | save call => exact ih hrest (h.save (hchecksums call List.mem_cons_self) hcall) hlater
      | rollback held =>
          obtain ⟨⟨dir', restored⟩, hrollback, heq⟩ := Option.map_eq_some_iff.mp hcall
          cases heq
          exact ih hrest (h.popped hrollback) hlater

/-- After any run of successful saves and rollbacks the current manifest is the top of the stack
of the run. A rollback then returns `None` and changes nothing if there is nothing below it, and
otherwise restores and returns what is below. -/
theorem manifests_are_a_stack (calls : List (ManifestCall β)) (dir : ManifestDir β)
    (hchecksums : HaveChecksums calls) (hcalls : ManifestDir.empty.calls calls = some dir) :
    dir.manifest = (manifestStack calls).head? ∧
      ((manifestStack calls).tail = [] → dir.rollback true = some (dir, none)) ∧
        ∀ below ∈ (manifestStack calls).tail.head?,
          dir.rollback true = some ({ dir with manifest := some below }, some below) := by
  have hkeeps := keepsStack_calls calls hchecksums keepsStack_empty hcalls
  refine ⟨hkeeps.current, hkeeps.rollback_bottom, ?_⟩
  intro below hbelow
  unfold manifestStack at hbelow
  cases hstack : calls.foldl ManifestCall.onStack [] with
  | nil => simp [hstack] at hbelow
  | cons top stack =>
      cases stack with
      | nil => simp [hstack] at hbelow
      | cons first stack =>
          rw [hstack] at hbelow hkeeps
          cases hbelow
          exact hkeeps.rollback_below

/-- A save that finds one data file of ten bytes. -/
def saveOf (checksum : String) : ManifestCall Unit :=
  .save ⟨⟨"crsp", checksum, ["2024.parquet"], 1, none, none, ()⟩, none, 0, true,
    fun _ => some 10, fun _ => true⟩

/-- The third save takes the version that the second had. -/
theorem reused_version_is_rolled_back :
    ∃ dir, ManifestDir.empty.calls [saveOf "a", saveOf "b", .rollback true, saveOf "c"] = some dir ∧
      dir.manifest.map ManifestRecord.checksum = some "c" ∧
        ∃ first, dir.rollback true = some ({ dir with manifest := some first }, some first) ∧
          first.checksum = "a" := by
  obtain ⟨dir, hcalls⟩ := Option.isSome_iff_exists.mp (show (ManifestDir.empty.calls
    [saveOf "a", saveOf "b", .rollback true, saveOf "c"]).isSome = true from rfl)
  have hchecksums :
      HaveChecksums [saveOf "a", saveOf "b", ManifestCall.rollback true, saveOf "c"] := by
    simp [HaveChecksums, saveOf]
  obtain ⟨hmanifest, -, hbelow⟩ := manifests_are_a_stack _ dir hchecksums hcalls
  exact ⟨dir, hcalls, by rw [hmanifest]; rfl, _, hbelow _ rfl, rfl⟩

end TradingPlatform.Data
