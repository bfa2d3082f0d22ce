import TradingPlatform.Data.SipSync

/-! # What a running sync does to the published files

The directory of a sync is that of every sync with the same inputs. While the manifest
of one of them is the current one, another writes over the files that it signed.
-/

namespace TradingPlatform.Data.Sip

open Base

variable {P : Type*} {V : Type} {sha : Sha256 (List (BarRow V))} {s t : SipSystem P V}
  {files files' : SipFiles V} {manifest : SipManifest}

/-- The files of the manifest are these files. -/
def SipManifest.Signed (manifest : SipManifest) (files files' : SipFiles V) : Prop :=
  ∀ path ∈ manifest.filePaths, files' path = files path

/-- Readers of the current manifest see the files that it signed. -/
def SipSystem.SeenAsSigned (s : SipSystem P V) : Prop :=
  ∀ manifest signed, s.published = some (manifest, signed) → manifest.Signed signed s.files

/-- A manifest that was verified is so while it is the current one. -/
def KeepsVerified (sha : Sha256 (List (BarRow V))) (s t : SipSystem P V) : Prop :=
  ∀ manifest, s.current = some manifest → t.current = some manifest →
    verifyIntegrity sha s.files s.current = [] → verifyIntegrity sha t.files t.current = []

/-- A year that is fetched for a file of the current manifest has the rows of that file, and the
files of a manifest that is saved are as they were when it was created. -/
def Spares (s : SipSystem P V) : SipAction P V → Prop
  | .syncYear p client currentYear enoughDisk =>
      ∀ sync path df next, s.syncs p = some sync →
        sync.writeYear client currentYear enoughDisk = some (path, df, next) →
          ∀ manifest, s.current = some manifest → path ∈ manifest.filePaths →
            s.files path = some df
  | .save p =>
      ∀ sync manifest created, s.syncs p = some sync → sync.created = some (manifest, created) →
        (∀ path ∈ manifest.filePaths, (s.files path).isSome) → manifest.Signed created s.files
  | _ => True

/-! ## The current manifest -/

/-- The verification looks at the files of the manifest only. -/
theorem verifyIntegrity_congr (h : manifest.Signed files files') :
    verifyIntegrity sha files' (some manifest) = verifyIntegrity sha files (some manifest) := by
  have hmissing : manifest.filePaths.filter (fun path => (files' path).isNone) =
      manifest.filePaths.filter fun path => (files path).isNone := by
    apply List.filter_congr
    intro path hpath
    rw [h path hpath]
  have hrows : (manifest.filePaths.map fun path => ((files' path).getD []).length) =
      manifest.filePaths.map fun path => ((files path).getD []).length := by
    apply List.map_congr_left
    intro path hpath
    rw [h path hpath]
  have hchecksum : combinedChecksum sha files' manifest.filePaths =
      combinedChecksum sha files manifest.filePaths := by
    unfold combinedChecksum
    congr 3
    apply List.filterMap_congr
    intro path hpath
    exact h path (mem_sortByKey.mp hpath)
  unfold verifyIntegrity
  dsimp only
  rw [hmissing, hrows, hchecksum]

/-- The versions of the manifests that are published grow. -/
def Republished (s t : SipSystem P V) : Prop :=
  ∀ manifest signed, s.published = some (manifest, signed) →
    ∃ later signed', t.published = some (later, signed') ∧
      manifest.manifestVersion ≤ later.manifestVersion ∧
      (manifest.manifestVersion = later.manifestVersion → later = manifest ∧ signed' = signed)

theorem republished_of_eq (h : t.published = s.published) : Republished s t := by
  intro manifest signed hpublished
  exact ⟨manifest, signed, h.trans hpublished, le_refl _, fun _ => ⟨rfl, rfl⟩⟩

theorem Republished.trans {u : SipSystem P V} (h : Republished s t) (h' : Republished t u) :
    Republished s u := by
  intro manifest signed hpublished
  obtain ⟨next, signed', hnext, hle, hsame⟩ := h manifest signed hpublished
  obtain ⟨last, signed'', hlast, hle', hsame'⟩ := h' next signed' hnext
  refine ⟨last, signed'', hlast, hle.trans hle', ?_⟩
  intro heq
  obtain ⟨rfl, rfl⟩ := hsame (by omega)
  exact hsame' (by omega)

/-- Where the files are as signed before and after, the verification is the same. -/
theorem keepsVerified_of_seen (h : Republished s t) (hs : s.SeenAsSigned) (ht : t.SeenAsSigned) :
    KeepsVerified sha s t := by
  intro manifest hcurrent hlater hverified
  obtain ⟨⟨_, signed⟩, hpublished, rfl⟩ := Option.map_eq_some_iff.mp hcurrent
  obtain ⟨⟨_, signed'⟩, hpublished', rfl⟩ := Option.map_eq_some_iff.mp hlater
  obtain ⟨later, signed'', hsome, -, hsame⟩ := h _ _ hpublished
  rw [hpublished'] at hsome
  cases hsome
  obtain ⟨-, rfl⟩ := hsame rfl
  rw [hcurrent] at hverified
  rw [hlater, verifyIntegrity_congr (ht _ _ hpublished'),
    ← verifyIntegrity_congr (hs _ _ hpublished), hverified]

/-! ## Steps -/

theorem saved_eq_some {later : SipManifest} (h : s.saved manifest = some later) :
    later.filePaths = manifest.filePaths ∧
      (∀ path ∈ manifest.filePaths, (s.files path).isSome) ∧
      ∀ current, s.current = some current →
        later.manifestVersion = current.manifestVersion + 1 := by
  unfold SipSystem.saved at h
  split at h
  · rename_i hexist
    split at h
    · rename_i current hcurrent
      cases h
      refine ⟨rfl, hexist, ?_⟩
      intro other hother
      rw [hcurrent] at hother
      cases hother
      rfl
    · rename_i hnone
      cases h
      refine ⟨rfl, hexist, ?_⟩
      intro other hother
      rw [hnone] at hother
      cases hother
  · cases h

variable [DecidableEq P]

/-- A step writes a file, saves a manifest or leaves both as they are. -/
theorem sipStep_cases (sha : Sha256 (List (BarRow V))) (s : SipSystem P V)
    (action : SipAction P V) :
    ((sipStep sha s action).files = s.files ∧ (sipStep sha s action).published = s.published ∧
      Spares s action) ∨
    (∃ p client currentYear enoughDisk sync path df next,
      action = .syncYear p client currentYear enoughDisk ∧ s.syncs p = some sync ∧
      sync.writeYear client currentYear enoughDisk = some (path, df, next) ∧
      (sipStep sha s action).files = Function.update s.files path (some df) ∧
      (sipStep sha s action).published = s.published) ∨
    ∃ p sync manifest created later, action = .save p ∧ s.syncs p = some sync ∧
      sync.created = some (manifest, created) ∧ s.saved manifest = some later ∧
      (sipStep sha s action).files = s.files ∧
      (sipStep sha s action).published = some (later, created) := by
  cases action with
  | start p call currentYear enoughDisk =>
      left
      unfold sipStep
      dsimp only
      split
      · exact ⟨rfl, rfl, trivial⟩
      · exact ⟨rfl, rfl, trivial⟩
  | create p =>
      left
      unfold sipStep
      dsimp only
      split
      · exact ⟨rfl, rfl, trivial⟩
      · split
        · exact ⟨rfl, rfl, trivial⟩
        · exact ⟨rfl, rfl, trivial⟩
  | raise p => exact Or.inl ⟨rfl, rfl, trivial⟩
  | syncYear p client currentYear enoughDisk =>
      unfold sipStep Spares
      dsimp only
      cases hsync : s.syncs p with
      | none =>
          left
          refine ⟨rfl, rfl, ?_⟩
          intro sync path df next hsome
          cases hsome
      | some sync =>
          dsimp only
          cases hwrite : sync.writeYear client currentYear enoughDisk with
          | none =>
              left
              refine ⟨rfl, rfl, ?_⟩
              intro other path df next hsome hwritten
              cases hsome
              rw [hwrite] at hwritten
              cases hwritten
          | some written =>
              obtain ⟨path, df, next⟩ := written
              right
              left
              exact ⟨p, client, currentYear, enoughDisk, sync, path, df, next, rfl, hsync, hwrite,
                rfl, rfl⟩
  | save p =>
      unfold sipStep Spares
      dsimp only
      cases hsync : s.syncs p with
      | none =>
          left
          refine ⟨rfl, rfl, ?_⟩
          intro sync manifest created hsome
          cases hsome
      | some sync =>
          dsimp only
          cases hcreated : sync.created with
          | none =>
              left
              refine ⟨rfl, rfl, ?_⟩
              intro other manifest created hsome hother
              cases hsome
              rw [hcreated] at hother
              cases hother
          | some signing =>
              obtain ⟨manifest, created⟩ := signing
              dsimp only
              cases hsaved : s.saved manifest with
              | none =>
                  left
                  refine ⟨rfl, rfl, ?_⟩
                  intro other manifest' created' hsome hother hexist
                  cases hsome
                  rw [hcreated] at hother
                  cases hother
                  unfold SipSystem.saved at hsaved
                  rw [if_pos hexist] at hsaved
                  split at hsaved
                  · cases hsaved
                  · cases hsaved
              | some later =>
                  right
                  right
                  exact ⟨p, sync, manifest, created, later, rfl, hsync, hcreated, hsaved, rfl, rfl⟩

theorem republished_step (s : SipSystem P V) (action : SipAction P V) :
    Republished s (sipStep sha s action) := by
  rcases sipStep_cases sha s action with ⟨-, hpublished, -⟩ |
    ⟨p, client, currentYear, enoughDisk, sync, path, df, next, -, -, -, -, hpublished⟩ |
    ⟨p, sync, manifest, created, later, -, -, -, hsaved, -, hpublished⟩
  · exact republished_of_eq hpublished
  · exact republished_of_eq hpublished
  · intro current signed hcurrent
    obtain ⟨-, -, hversion⟩ := saved_eq_some hsaved
    have hnext := hversion current (by rw [SipSystem.current, hcurrent]; rfl)
    exact ⟨later, created, hpublished, by omega, by omega⟩

/-- A step leaves the files of the current manifest as signed just where it spares them. -/
theorem seen_step_iff (h : s.SeenAsSigned) (action : SipAction P V) :
    (sipStep sha s action).SeenAsSigned ↔ Spares s action := by
  unfold SipSystem.SeenAsSigned
  rcases sipStep_cases sha s action with ⟨hfiles, hpublished, hspares⟩ |
    ⟨p, client, currentYear, enoughDisk, sync, path, df, next, rfl, hsync, hwrite, hfiles,
      hpublished⟩ |
    ⟨p, sync, manifest, created, later, rfl, hsync, hcreated, hsaved, hfiles, hpublished⟩
  · rw [hfiles, hpublished]
    exact iff_of_true h hspares
  · rw [hfiles, hpublished]
    constructor
    · intro hseen other path' df' next' hother hwritten current hcurrent hlisted
      rw [hsync] at hother
      cases hother
      rw [hwrite] at hwritten
      cases hwritten
      obtain ⟨⟨_, signed⟩, hsome, rfl⟩ := Option.map_eq_some_iff.mp hcurrent
      have hnow := hseen _ _ hsome path hlisted
      rw [Function.update_self] at hnow
      exact (h _ _ hsome path hlisted).trans hnow.symm
    · intro hspares current signed hsome path' hlisted
      by_cases heq : path' = path
      · subst heq
        have hcurrent : s.current = some current := by
          rw [SipSystem.current, hsome]
          rfl
        rw [Function.update_self,
          ← hspares sync path' df next hsync hwrite current hcurrent hlisted]
        exact h current signed hsome path' hlisted
      · rw [Function.update_of_ne heq]
        exact h current signed hsome path' hlisted
  · obtain ⟨hpaths, hexist, -⟩ := saved_eq_some hsaved
    rw [hfiles, hpublished]
    constructor
    · intro hseen other manifest' created' hother hmanifest' _
      rw [hsync] at hother
      cases hother
      rw [hcreated] at hmanifest'
      cases hmanifest'
      intro path hlisted
      rw [← hpaths] at hlisted
      exact hseen later created rfl path hlisted
    · intro hspares current signed hsome
      cases hsome
      have hsigned := hspares sync manifest created hsync hcreated hexist
      intro path hlisted
      rw [hpaths] at hlisted
      exact hsigned path hlisted

/-- In a run of syncs, wherever they raise, the readers of the current manifest see the files that
it signed all along, and what was verified stays so, just where each write and save spares the
published files. -/
theorem published_files_stay_iff (sha : Sha256 (List (BarRow V))) (s : SipSystem P V)
    (hseen : s.SeenAsSigned) (actions : List (SipAction P V)) :
    EveryState (sipStep sha) SipSystem.SeenAsSigned s actions ∧
        Along (sipStep sha) (KeepsVerified sha) s actions ↔
      EachStep (sipStep sha) Spares s actions := by
  have hexact : EveryState (sipStep sha) SipSystem.SeenAsSigned s actions ↔
      EachStep (sipStep sha) Spares s actions :=
    everyState_iff_eachStep' (G := fun _ => True) (fun _ _ _ => trivial)
      (fun s action _ h => seen_step_iff h action) actions trivial hseen
  have hrepublished : Along (sipStep sha) Republished s actions := by
    rw [along_iff_eachStep (fun _ => republished_of_eq rfl) fun _ _ _ h h' => h.trans h']
    exact EachStep.mono (fun s action _ => republished_step s action)
      (eachStep_of_forall (W := fun _ => True) (fun _ _ => trivial) s)
  rw [← hexact]
  refine and_iff_left_of_imp ?_
  intro hstates m n hle
  have hbegin := everyState_iff_prefix.mp hstates
  exact keepsVerified_of_seen (hrepublished m n hle) (hbegin m) (hbegin n)

/-- No files, no manifest and no sync. -/
def SipSystem.empty : SipSystem P V := ⟨fun _ => none, none, fun _ => none⟩

/-- One symbol with one bar in its year, with that close. -/
def oneBar (close : ℕ) : BarsClient ℕ := fun chunk year _ =>
  some ⟨chunk.map fun symbol => (symbol, some [{
    symbol
    timestamp := some (newYear year)
    openPrice := some 100
    high := some 200
    low := some 50
    close := some close
    volume := some 1000
    tradeCount := none
    vwap := none }]), none⟩

def oneYear : SipCall where
  manager := ⟨id, 200, "sip", "raw"⟩
  symbols := ["AAPL"]
  startYear := 2024
  endYear := some 2024

/-- The digest of a file are its closes. -/
def closesSha : Sha256 (List (BarRow ℕ)) where
  ofFile := fun rows => toString (rows.map BarRow.close)
  ofText := id

def oneSync : List (SipAction Unit ℕ) :=
  [.start () oneYear 2025 true, .syncYear () (oneBar 100) 2025 true, .create (), .save ()]

/-- Nothing is published before it. -/
theorem published_files_stay_iff_first :
    EveryState (sipStep closesSha) SipSystem.SeenAsSigned .empty oneSync ∧
      Along (sipStep closesSha) (KeepsVerified closesSha) .empty oneSync := by
  apply (published_files_stay_iff closesSha .empty ?_ _).mpr
  · refine ⟨trivial, ?_, trivial, ?_, trivial⟩
    · intro sync path df next _ _ manifest hcurrent
      cases hcurrent
    · intro sync manifest created hsync hcreated _ path _
      cases hsync
      cases hcreated
      rfl
  · intro manifest signed hpublished
    cases hpublished

/-- The same sync again, with a close that was corrected in between, which raises after its
write. -/
def repeatedSync : List (SipAction Unit ℕ) :=
  oneSync ++ [.start () oneYear 2025 true, .syncYear () (oneBar 101) 2025 true, .raise ()]

theorem failed_sync_damages_published_data :
    ¬(EveryState (sipStep closesSha) SipSystem.SeenAsSigned .empty repeatedSync ∧
      Along (sipStep closesSha) (KeepsVerified closesSha) .empty repeatedSync) := by
  rintro ⟨-, hkeeps⟩
  have hverified := hkeeps 4 7 (by decide)
    ⟨[⟨"AAPL|2024|20", 2024⟩], 1, 738886, 738886, "[100]", 1⟩ (by decide +kernel)
    (by decide +kernel) (by decide +kernel)
  revert hverified
  decide +kernel

end TradingPlatform.Data.Sip
