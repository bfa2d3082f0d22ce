import TradingPlatform.Data.SnapshotConsistency

/-! # Backtests and the snapshots they name

Three records say which snapshot a backtest uses: its linkage file, the list of
references in the manifest of the snapshot, and an index. Linking writes all three and
a deletion cleans each by a rule of its own. They agree as long as a backtest that is
linked is not linked again to another snapshot.
-/

namespace TradingPlatform.Data

open Base

variable {P κ : Type*}

/-- `BacktestLinkage` -/
structure BacktestLinkage where
  snapshotVersion : String
  datasetVersions : String → Option ℕ
  orphanedAt : Option ℤ

/-- The snapshots, with the linkage files and the index of the backtests beside them. -/
structure BacktestStore (P κ : Type*) where
  store : SnapshotStore P κ
  linkages : String → Option BacktestLinkage
  index : String → Option String

def isTagStart (c : Char) : Bool := c.isAlpha || c.isDigit

def isTagChar (c : Char) : Bool := isTagStart c || c = '.' || c = '_' || c = '-'

/-- `SAFE_TAG_PATTERN`; it admits a line feed at the end. -/
def validIdentifier (identifier : String) : Bool :=
  let chars := identifier.toList
  match if chars.getLast? = some '\n' then chars.dropLast else chars with
  | [] => false
  | c :: cs => isTagStart c && cs.all isTagChar

/-- The file of the index is that of no backtest. -/
example : validIdentifier "_index" = false := by decide +kernel

/-! ## Operations -/

/-- The versions of the datasets, by default of all. -/
def Snapshot.datasetVersions (snapshot : Snapshot κ) (datasets : Option (List String))
    (dataset : String) : Option ℕ :=
  if ∀ listed ∈ datasets, dataset ∈ listed then
    (snapshot.datasets.find? dataset).map DatasetSnapshot.syncManifestVersion
  else none

/-- `link_backtest` -/
def BacktestStore.linkBacktest (s : BacktestStore P κ) (backtestId versionTag : String)
    (datasets : Option (List String)) : BacktestStore P κ :=
  match s.store.creation, s.store.snapshots.find? versionTag with
  | none, some snapshot =>
      if validIdentifier backtestId then
        { store := s.store.linkBacktest backtestId versionTag
          linkages := Function.update s.linkages backtestId
            (some ⟨versionTag, snapshot.datasetVersions datasets, none⟩)
          index := Function.update s.index backtestId (some versionTag) }
      else s
  | _, _ => s

/-- `_mark_backtest_orphaned`, of each backtest in the list. -/
def markOrphaned (linkages : String → Option BacktestLinkage) (backtests : List String) (now : ℤ)
    (backtestId : String) : Option BacktestLinkage :=
  if backtestId ∈ backtests then
    (linkages backtestId).map fun linkage => { linkage with orphanedAt := some now }
  else linkages backtestId

/-- `_clean_backtest_index_for_snapshot` -/
def cleanIndex (index : String → Option String) (versionTag backtestId : String) :
    Option String :=
  if index backtestId = some versionTag then none else index backtestId

/-- `delete_snapshot` -/
def BacktestStore.deleteSnapshot (s : BacktestStore P κ) (versionTag : String)
    (force released : Bool) (now : ℤ) : BacktestStore P κ :=
  match s.store.creation, s.store.snapshots.find? versionTag with
  | none, some snapshot =>
      if snapshot.referencedBy ≠ [] ∧ force = false then s
      else
        { store := s.store.deleteSnapshot versionTag force released
          linkages := markOrphaned s.linkages snapshot.referencedBy now
          index := cleanIndex s.index versionTag }
  | _, _ => s

/-- `RETENTION_DAYS` -/
def retentionDays : ℤ := 90

/-- A snapshot that the retention policy deletes. -/
def Snapshot.Expired (snapshot : Snapshot κ) (now : ℤ) : Prop :=
  snapshot.referencedBy = [] ∧ snapshot.createdAt ≤ now - retentionDays * secondsPerDay

instance (snapshot : Snapshot κ) (now : ℤ) : Decidable (snapshot.Expired now) :=
  inferInstanceAs (Decidable (_ ∧ _))

/-- `enforce_retention_policy`; whether the references of a deleted snapshot are released may
differ by its tag. -/
def BacktestStore.enforceRetentionPolicy (s : BacktestStore P κ) (released : String → Bool)
    (now : ℤ) : BacktestStore P κ :=
  s.store.listSnapshots.foldl (fun s snapshot =>
    if snapshot.Expired now then
      s.deleteSnapshot snapshot.versionTag false (released snapshot.versionTag) now
    else s) s

inductive BacktestEvent (P κ : Type*) where
  /-- Anything else that happens to the snapshots, their creation for one. -/
  | work (event : SnapshotEvent P κ)
  | link (backtestId versionTag : String) (datasets : Option (List String))
  | delete (versionTag : String) (force released : Bool) (now : ℤ)
  | retain (released : String → Bool) (now : ℤ)

def SnapshotEvent.concernsLinks : SnapshotEvent P κ → Bool
  | .link _ _ | .delete _ _ _ => true
  | _ => false

def backtestStep [DecidableEq P] (sha : Sha256 κ) (s : BacktestStore P κ) :
    BacktestEvent P κ → BacktestStore P κ
  | .work event =>
      if event.concernsLinks then s else { s with store := snapshotStep sha s.store event }
  | .link backtestId versionTag datasets => s.linkBacktest backtestId versionTag datasets
  | .delete versionTag force released now => s.deleteSnapshot versionTag force released now
  | .retain released now => s.enforceRetentionPolicy released now

/-! ## Properties -/

/-- The snapshot that the linkage of a backtest names, unless it is orphaned. -/
def linkedTo (linkages : String → Option BacktestLinkage) (backtestId : String) : Option String :=
  (linkages backtestId).bind fun linkage =>
    if linkage.orphanedAt = none then some linkage.snapshotVersion else none

/-- The backtest is in the `referenced_by` list of the snapshot. -/
def SnapshotStore.References (s : SnapshotStore P κ) (versionTag backtestId : String) : Prop :=
  ∃ snapshot ∈ s.snapshots.find? versionTag, backtestId ∈ snapshot.referencedBy

/-- The three records agree, and what they name exists. -/
structure LinksAgree (s : BacktestStore P κ) : Prop where
  references : ∀ versionTag backtestId,
    s.store.References versionTag backtestId ↔ linkedTo s.linkages backtestId = some versionTag
  index : ∀ backtestId, s.index backtestId = linkedTo s.linkages backtestId
  named : ∀ backtestId, ∀ versionTag ∈ linkedTo s.linkages backtestId,
    (s.store.snapshots.find? versionTag).isSome

/-- No snapshot that such a linkage names is removed, unless by force. -/
def Spares [DecidableEq P] (sha : Sha256 κ) (names : BacktestLinkage → Prop)
    (s : BacktestStore P κ) (event : BacktestEvent P κ) : Prop :=
  (∀ versionTag released now, event ≠ .delete versionTag true released now) →
    ∀ versionTag, (s.store.snapshots.find? versionTag).isSome →
      (backtestStep sha s event).store.snapshots.find? versionTag = none →
      ∀ backtestId, ∀ linkage ∈ s.linkages backtestId, names linkage →
        linkage.snapshotVersion ≠ versionTag

/-- Only a backtest without a live linkage is linked, or one to the snapshot it is linked to. -/
def LinksAnew (s : BacktestStore P κ) : BacktestEvent P κ → Prop
  | .link backtestId versionTag _ =>
      s.store.creation = none → (s.store.snapshots.find? versionTag).isSome →
        validIdentifier backtestId →
          ∀ linked ∈ linkedTo s.linkages backtestId, linked = versionTag
  | _ => True

/-- An unforced deletion gets through to a snapshot with that tag. -/
def BacktestStore.Deletes (s : BacktestStore P κ) (versionTag : String) :
    BacktestEvent P κ → Prop
  | .delete deleted false _ _ => s.store.creation = none ∧ deleted = versionTag ∧
      ∃ snapshot ∈ s.store.snapshots.find? versionTag, snapshot.referencedBy = []
  | .retain _ now => s.store.creation = none ∧
      ∃ snapshot ∈ s.store.snapshots.find? versionTag, snapshot.Expired now
  | _ => False

/-- A tag that an orphaned linkage names is not deleted a second time, unless by force. -/
def SparesOrphans (s : BacktestStore P κ) (event : BacktestEvent P κ) : Prop :=
  ∀ versionTag, s.Deletes versionTag event → ∀ backtestId, ∀ linkage ∈ s.linkages backtestId,
    linkage.orphanedAt ≠ none → linkage.snapshotVersion ≠ versionTag

variable {s s' : BacktestStore P κ}

/-! ## Linking -/

theorem find?_linkBacktest (store : SnapshotStore P κ) (backtestId versionTag other : String) :
    (store.linkBacktest backtestId versionTag).snapshots.find? other =
      if other = versionTag then (store.snapshots.find? other).map fun snapshot =>
        { snapshot with referencedBy := snapshot.referencedBy ++ [backtestId] }
      else store.snapshots.find? other := by
  unfold SnapshotStore.linkBacktest
  split
  · rename_i heq
    subst heq
    dsimp only
    rw [Table.find?_update]
  · rename_i hne
    dsimp only
    rw [Table.find?_update_ne _ _ _ hne]

theorem references_linkBacktest {store : SnapshotStore P κ} {versionTag : String}
    {snapshot : Snapshot κ} (hfind : store.snapshots.find? versionTag = some snapshot)
    (backtestId other otherId : String) :
    (store.linkBacktest backtestId versionTag).References other otherId ↔
      store.References other otherId ∨ other = versionTag ∧ otherId = backtestId := by
  unfold SnapshotStore.References
  rw [find?_linkBacktest]
  by_cases heq : other = versionTag
  · subst heq
    rw [if_pos rfl, hfind]
    simp
  · rw [if_neg heq]
    simp [heq]

theorem linkedTo_update (linkages : String → Option BacktestLinkage)
    (backtestId versionTag : String) (datasetVersions : String → Option ℕ) (other : String) :
    linkedTo (Function.update linkages backtestId (some ⟨versionTag, datasetVersions, none⟩))
        other =
      if other = backtestId then some versionTag else linkedTo linkages other := by
  unfold linkedTo
  by_cases heq : other = backtestId
  · subst heq
    rw [Function.update_self, if_pos rfl]
    rfl
  · rw [Function.update_of_ne heq, if_neg heq]

/-- After linking the records agree just where the backtest was not linked elsewhere. -/
theorem linksAgree_link (h : LinksAgree s) (backtestId versionTag : String)
    (datasets : Option (List String)) :
    LinksAgree (s.linkBacktest backtestId versionTag datasets) ↔
      LinksAnew s (.link backtestId versionTag datasets) := by
  unfold BacktestStore.linkBacktest LinksAnew
  split
  · rename_i snapshot hfree hfind
    split
    · rename_i hvalid
      constructor
      · intro hagree _ _ _ other hother
        have hreferences := (references_linkBacktest hfind backtestId other backtestId).mpr
          (Or.inl ((h.references other backtestId).mpr hother))
        have hlinked := (hagree.references other backtestId).mp hreferences
        rw [linkedTo_update, if_pos rfl] at hlinked
        exact (Option.some.inj hlinked).symm
      · intro hanew
        have hanew := hanew hfree (by rw [hfind]; rfl) hvalid
        constructor
        · intro other otherId
          rw [references_linkBacktest hfind, linkedTo_update, h.references]
          by_cases heq : otherId = backtestId
          · subst heq
            rw [if_pos rfl]
            constructor
            · rintro (hlinked | ⟨rfl, -⟩)
              · rw [hanew other hlinked]
              · rfl
            · intro hsome
              exact Or.inr ⟨(Option.some.inj hsome).symm, rfl⟩
          · rw [if_neg heq, or_iff_left fun hand => heq hand.2]
        · intro otherId
          rw [linkedTo_update, ← h.index]
          exact Function.update_apply _ _ _ _
        · intro otherId other hother
          rw [linkedTo_update] at hother
          rw [find?_linkBacktest]
          by_cases heq : otherId = backtestId
          · rw [if_pos heq] at hother
            cases hother
            rw [if_pos rfl, hfind]
            rfl
          · rw [if_neg heq] at hother
            have hsome := h.named otherId other hother
            split
            · rw [Option.isSome_map]
              exact hsome
            · exact hsome
    · rename_i hinvalid
      exact iff_of_true h fun _ _ hvalid => absurd hvalid hinvalid
  · rename_i hblocked
    refine iff_of_true h fun hfree hsome => ?_
    obtain ⟨snapshot, hfind⟩ := Option.isSome_iff_exists.mp hsome
    exact absurd hfind (hblocked snapshot hfree)

/-! ## Deletion -/

theorem find?_deleteSnapshot {store : SnapshotStore P κ} {versionTag : String}
    {snapshot : Snapshot κ} (hfind : store.snapshots.find? versionTag = some snapshot)
    {force : Bool} (hallowed : ¬(snapshot.referencedBy ≠ [] ∧ force = false)) (released : Bool)
    (other : String) :
    (store.deleteSnapshot versionTag force released).snapshots.find? other =
      if other = versionTag then none else store.snapshots.find? other := by
  unfold SnapshotStore.deleteSnapshot
  rw [hfind]
  dsimp only
  rw [if_neg hallowed]
  exact Table.find?_delete store.snapshots versionTag other

theorem linkedTo_markOrphaned (linkages : String → Option BacktestLinkage) (backtests : List String)
    (now : ℤ) (backtestId : String) :
    linkedTo (markOrphaned linkages backtests now) backtestId =
      if backtestId ∈ backtests then none else linkedTo linkages backtestId := by
  unfold linkedTo markOrphaned
  split
  · cases linkages backtestId <;> simp
  · rfl

/-- A deletion, by force or not, clears the three records of the same backtests. -/
theorem linksAgree_delete (h : LinksAgree s) (versionTag : String) (force released : Bool)
    (now : ℤ) : LinksAgree (s.deleteSnapshot versionTag force released now) := by
  unfold BacktestStore.deleteSnapshot
  split
  · rename_i snapshot hfree hfind
    split
    · exact h
    · rename_i hallowed
      have hlisted : ∀ backtestId, backtestId ∈ snapshot.referencedBy ↔
          linkedTo s.linkages backtestId = some versionTag := by
        intro backtestId
        rw [← h.references, SnapshotStore.References, hfind]
        simp
      constructor
      · intro other backtestId
        unfold SnapshotStore.References
        rw [find?_deleteSnapshot hfind hallowed, linkedTo_markOrphaned]
        by_cases hmem : backtestId ∈ snapshot.referencedBy
        · rw [if_pos hmem]
          refine iff_of_false ?_ (by simp)
          rintro ⟨found, hfound, hreferenced⟩
          split at hfound
          · cases hfound
          · rename_i hne
            have hother := (h.references other backtestId).mp ⟨found, hfound, hreferenced⟩
            rw [(hlisted backtestId).mp hmem] at hother
            exact hne (Option.some.inj hother).symm
        · rw [if_neg hmem, ← h.references]
          by_cases heq : other = versionTag
          · subst heq
            rw [if_pos rfl, h.references, ← hlisted]
            exact iff_of_false (by simp) hmem
          · rw [if_neg heq]
            rfl
      · intro backtestId
        rw [linkedTo_markOrphaned]
        change cleanIndex s.index versionTag backtestId = _
        rw [cleanIndex, h.index]
        by_cases hmem : backtestId ∈ snapshot.referencedBy
        · rw [if_pos hmem, if_pos ((hlisted backtestId).mp hmem)]
        · rw [if_neg hmem, if_neg fun hlinked => hmem ((hlisted backtestId).mpr hlinked)]
      · intro backtestId other hother
        rw [linkedTo_markOrphaned] at hother
        rw [find?_deleteSnapshot hfind hallowed]
        split at hother
        · cases hother
        · rename_i hmem
          rw [if_neg]
          · exact h.named backtestId other hother
          · rintro rfl
            exact hmem ((hlisted backtestId).mpr hother)
  · exact h

theorem linksAgree_retain (h : LinksAgree s) (released : String → Bool) (now : ℤ) :
    LinksAgree (s.enforceRetentionPolicy released now) := by
  unfold BacktestStore.enforceRetentionPolicy
  induction s.store.listSnapshots generalizing s with
  | nil => exact h
  | cons snapshot rest ih =>
      apply ih
      dsimp only
      split
      · exact linksAgree_delete h snapshot.versionTag false _ now
      · exact h

/-! ## What is removed -/

/-- A deletion gets through while the lock is free, to a snapshot without references or by
force. -/
theorem removed_delete (s : BacktestStore P κ) (versionTag : String) (force released : Bool)
    (now : ℤ) (other : String) :
    (s.deleteSnapshot versionTag force released now).store.snapshots.find? other =
      if other = versionTag ∧ s.store.creation = none ∧
          ∃ snapshot ∈ s.store.snapshots.find? versionTag,
            snapshot.referencedBy = [] ∨ force = true then none
      else s.store.snapshots.find? other := by
  unfold BacktestStore.deleteSnapshot
  split
  · rename_i snapshot hfree hfind
    split
    · rename_i hrefused
      rw [if_neg]
      rintro ⟨-, -, found, hfound, hallowed⟩
      rw [hfind] at hfound
      cases hfound
      rcases hallowed with hnone | hforce
      · exact hrefused.1 hnone
      · rw [hforce] at hrefused
        cases hrefused.2
    · rename_i hallowed
      rw [find?_deleteSnapshot hfind hallowed]
      by_cases heq : other = versionTag
      · rw [if_pos heq, if_pos]
        refine ⟨heq, hfree, snapshot, hfind, ?_⟩
        by_cases hnone : snapshot.referencedBy = []
        · exact Or.inl hnone
        · right
          simpa [hnone] using hallowed
      · rw [if_neg heq, if_neg fun hand => heq hand.1]
  · rename_i hblocked
    rw [if_neg]
    rintro ⟨-, hfree, snapshot, hfind, -⟩
    exact hblocked snapshot hfree hfind

theorem creation_deleteSnapshot (s : BacktestStore P κ) (versionTag : String)
    (force released : Bool) (now : ℤ) :
    (s.deleteSnapshot versionTag force released now).store.creation = s.store.creation := by
  unfold BacktestStore.deleteSnapshot
  split
  · split
    · rfl
    · unfold SnapshotStore.deleteSnapshot
      split
      · rfl
      · split <;> rfl
  · rfl

/-- The snapshots stay or are gone. -/
theorem kept_or_removed (s : BacktestStore P κ) (versionTag : String) (force released : Bool)
    (now : ℤ) {other : String} {snapshot : Snapshot κ}
    (h : (s.deleteSnapshot versionTag force released now).store.snapshots.find? other =
      some snapshot) : s.store.snapshots.find? other = some snapshot := by
  rw [removed_delete] at h
  split at h
  · cases h
  · exact h

/-- The retention policy over some of the snapshots. -/
def retainOver (released : String → Bool) (now : ℤ) (s : BacktestStore P κ)
    (snapshots : List (Snapshot κ)) : BacktestStore P κ :=
  snapshots.foldl (fun s snapshot =>
    if snapshot.Expired now then
      s.deleteSnapshot snapshot.versionTag false (released snapshot.versionTag) now
    else s) s

theorem retainOver_cons (released : String → Bool) (now : ℤ) (s : BacktestStore P κ)
    (first : Snapshot κ) (rest : List (Snapshot κ)) :
    retainOver released now s (first :: rest) = retainOver released now
      (if first.Expired now then
        s.deleteSnapshot first.versionTag false (released first.versionTag) now else s) rest := rfl

theorem retainOver_none (released : String → Bool) (now : ℤ) {versionTag : String}
    (snapshots : List (Snapshot κ)) {s : BacktestStore P κ}
    (h : s.store.snapshots.find? versionTag = none) :
    (retainOver released now s snapshots).store.snapshots.find? versionTag = none := by
  induction snapshots generalizing s with
  | nil => exact h
  | cons first rest ih =>
      rw [retainOver_cons]
      apply ih
      split
      · rw [removed_delete]
        split
        · rfl
        · exact h
      · exact h

theorem retainOver_locked (released : String → Bool) (now : ℤ) (snapshots : List (Snapshot κ))
    {s : BacktestStore P κ} {c : Creation κ} (h : s.store.creation = some c) :
    retainOver released now s snapshots = s := by
  induction snapshots with
  | nil => rfl
  | cons first rest ih =>
      rw [retainOver_cons]
      have hsame : s.deleteSnapshot first.versionTag false (released first.versionTag) now = s := by
        unfold BacktestStore.deleteSnapshot
        rw [h]
      rw [hsame, ite_self, ih]

theorem removed_retainOver (released : String → Bool) (now : ℤ) {versionTag : String}
    {snapshot : Snapshot κ} (snapshots : List (Snapshot κ)) {s : BacktestStore P κ}
    (hfree : s.store.creation = none)
    (hlisted : ∀ listed ∈ snapshots, ∀ found ∈ s.store.snapshots.find? listed.versionTag,
      found = listed) (hfind : s.store.snapshots.find? versionTag = some snapshot) :
    (retainOver released now s snapshots).store.snapshots.find? versionTag = none ↔
      snapshot ∈ snapshots ∧ snapshot.Expired now := by
  induction snapshots generalizing s with
  | nil =>
      rw [retainOver, List.foldl_nil, hfind]
      simp
  | cons first rest ih =>
      rw [retainOver_cons]
      have hrest : ∀ listed ∈ rest, ∀ found ∈ s.store.snapshots.find? listed.versionTag,
          found = listed := fun listed hmem => hlisted listed (List.mem_cons_of_mem _ hmem)
      by_cases hexpired : first.Expired now
      · rw [if_pos hexpired]
        by_cases heq : versionTag = first.versionTag
        · -- the first snapshot is the one in question
          subst heq
          obtain rfl := hlisted first List.mem_cons_self snapshot hfind
          refine iff_of_true (retainOver_none released now rest ?_)
            ⟨List.mem_cons_self, hexpired⟩
          rw [removed_delete, if_pos ⟨rfl, hfree, snapshot, hfind, Or.inl hexpired.1⟩]
        · have hne : snapshot ≠ first := by
            rintro rfl
            exact heq (Table.find?_key hfind).symm
          rw [ih ((creation_deleteSnapshot s _ _ _ _).trans hfree) ?_ ?_]
          · simp [hne]
          · intro listed hmem found hfound
            exact hrest listed hmem found (kept_or_removed s _ _ _ _ hfound)
          · rw [removed_delete, if_neg fun hand => heq hand.1, hfind]
      · rw [if_neg hexpired, ih hfree hrest hfind]
        constructor
        · rintro ⟨hmem, hold⟩
          exact ⟨List.mem_cons_of_mem _ hmem, hold⟩
        · rintro ⟨hmem, hold⟩
          rcases List.mem_cons.mp hmem with rfl | hmem
          · exact absurd hold hexpired
          · exact ⟨hmem, hold⟩

/-! ## Other work -/

/-- The snapshots stay, or one without references is added. -/
def Extended (s s' : SnapshotStore P κ) : Prop :=
  s'.snapshots = s.snapshots ∨ ∃ snapshot : Snapshot κ, snapshot.referencedBy = [] ∧
    s.snapshots.insert snapshot = some s'.snapshots

theorem linksAgree_extended (h : LinksAgree s) {store : SnapshotStore P κ}
    (hextended : Extended s.store store) : LinksAgree { s with store := store } := by
  rcases hextended with hsame | ⟨snapshot, hnone, hinsert⟩
  · refine ⟨?_, h.index, ?_⟩
    · intro versionTag backtestId
      rw [← h.references, SnapshotStore.References, SnapshotStore.References, hsame]
    · intro backtestId versionTag hlinked
      change (store.snapshots.find? versionTag).isSome
      rw [hsame]
      exact h.named backtestId versionTag hlinked
  · have hfree : s.store.snapshots.find? snapshot.versionTag = none := by
      by_contra hfound
      rw [Table.insert_eq_none_iff_find?.mpr hfound] at hinsert
      cases hinsert
    have hfind := Table.find?_insert hinsert
    refine ⟨?_, h.index, ?_⟩
    · intro versionTag backtestId
      rw [← h.references, SnapshotStore.References, SnapshotStore.References, hfind]
      by_cases heq : versionTag = snapshot.versionTag
      · rw [if_pos heq, heq, hfree]
        simp [hnone]
      · rw [if_neg heq]
    · intro backtestId versionTag hlinked
      change (store.snapshots.find? versionTag).isSome
      rw [hfind]
      split
      · rfl
      · exact h.named backtestId versionTag hlinked

theorem extended_rfl (s : SnapshotStore P κ) : Extended s s := Or.inl rfl

variable [DecidableEq P]

/-- Work other than links and deletions adds a snapshot by its commit at most. -/
theorem extended_step (sha : Sha256 κ) (s : SnapshotStore P κ) (event : SnapshotEvent P κ)
    (hother : event.concernsLinks = false) :
    Extended s (snapshotStep sha s event) := by
  cases event with
  | write path content => exact extended_rfl s
  | save dataset paths => exact Or.inl (saveManifest_frame sha s dataset paths).1
  | rollback dataset => exact Or.inl (rollback_frame s dataset).1
  | request p versionTag datasets useCas =>
      simp only [snapshotStep]
      split <;> exact Or.inl rfl
  | pin p => exact Or.inl (pinNext_frame s p).1
  | lock p => exact Or.inl (takeLock_snapshots s p)
  | proceed answer now =>
      simp only [snapshotStep]
      split
      · rename_i c hcreation
        split
        · rcases proceed_snapshots sha s c answer now with hsame | ⟨-, hinsert, -⟩
          · exact Or.inl hsame
          · exact Or.inr ⟨_, rfl, hinsert⟩
        · exact extended_rfl s
      · exact extended_rfl s
  | fail error =>
      simp only [snapshotStep]
      split
      · split <;> exact Or.inl rfl
      · exact extended_rfl s
  | cleanup released stuck =>
      simp only [snapshotStep]
      split
      · split
        · exact Or.inl (cleanup_frame s _ released stuck)
        · exact extended_rfl s
      · exact extended_rfl s
  | crash => exact Or.inl rfl
  | delete versionTag force released => cases hother
  | gc stuck =>
      simp only [snapshotStep]
      split <;> exact Or.inl rfl
  | link backtestId versionTag => cases hother

theorem linksAgree_work (h : LinksAgree s) (sha : Sha256 κ) (event : SnapshotEvent P κ) :
    LinksAgree (backtestStep sha s (.work event)) := by
  unfold backtestStep
  dsimp only
  split
  · exact h
  · rename_i hother
    exact linksAgree_extended h (extended_step sha s.store event (by simpa using hother))

/-! ## Runs -/

/-- A step that is no forced deletion removes a snapshot just where it deletes that tag. -/
theorem removed_iff (sha : Sha256 κ) (s : BacktestStore P κ) {event : BacktestEvent P κ}
    (hunforced : ∀ versionTag released now, event ≠ .delete versionTag true released now)
    {versionTag : String} {snapshot : Snapshot κ}
    (hfind : s.store.snapshots.find? versionTag = some snapshot) :
    (backtestStep sha s event).store.snapshots.find? versionTag = none ↔
      s.Deletes versionTag event := by
  cases event with
  | work event =>
      refine iff_of_false ?_ id
      unfold backtestStep
      dsimp only
      split
      · rw [hfind]
        exact Option.some_ne_none _
      · rename_i hother
        rcases extended_step sha s.store event (by simpa using hother) with
          hsame | ⟨added, -, hinsert⟩
        · rw [hsame, hfind]
          exact Option.some_ne_none _
        · rw [Table.find?_insert hinsert, hfind]
          split <;> exact Option.some_ne_none _
  | link backtestId tag datasets =>
      refine iff_of_false ?_ id
      change (s.linkBacktest backtestId tag datasets).store.snapshots.find? versionTag ≠ none
      unfold BacktestStore.linkBacktest
      split
      · split
        · dsimp only
          rw [find?_linkBacktest, hfind]
          split <;> exact Option.some_ne_none _
        · rw [hfind]
          exact Option.some_ne_none _
      · rw [hfind]
        exact Option.some_ne_none _
  | delete tag force released now =>
      cases force with
      | true => exact absurd rfl (hunforced tag released now)
      | false =>
          change
            (s.deleteSnapshot tag false released now).store.snapshots.find? versionTag = none ↔ _
          rw [removed_delete, hfind]
          by_cases heq : versionTag = tag
          · subst heq
            simp [BacktestStore.Deletes, hfind]
          · simp [BacktestStore.Deletes, heq, Ne.symm heq]
  | retain released now =>
      change (retainOver released now s s.store.listSnapshots).store.snapshots.find? versionTag =
        none ↔ s.store.creation = none ∧
          ∃ found ∈ s.store.snapshots.find? versionTag, found.Expired now
      rw [hfind]
      cases hlock : s.store.creation with
      | some c =>
          rw [retainOver_locked released now _ hlock, hfind]
          simp
      | none =>
          rw [removed_retainOver released now _ hlock _ hfind]
          · have hmem : snapshot ∈ s.store.listSnapshots :=
              List.mem_mergeSort.mpr (Table.find?_mem hfind)
            simp [hmem]
          · intro listed hmem found hfound
            rw [SnapshotStore.listSnapshots, List.mem_mergeSort] at hmem
            rw [Table.find?_of_mem hmem] at hfound
            exact (Option.some.inj hfound).symm

omit [DecidableEq P] in
theorem unreferenced_of_deletes {versionTag : String} {event : BacktestEvent P κ}
    (h : s.Deletes versionTag event) :
    ∃ snapshot, s.store.snapshots.find? versionTag = some snapshot ∧ snapshot.referencedBy = [] ∧
      ∀ tag released now, event ≠ .delete tag true released now := by
  cases event with
  | work event => exact h.elim
  | link backtestId tag datasets => exact h.elim
  | delete tag force released now =>
      cases force with
      | true => exact h.elim
      | false =>
          obtain ⟨-, -, snapshot, hfind, hnone⟩ := h
          exact ⟨snapshot, hfind, hnone, by simp⟩
  | retain released now =>
      obtain ⟨-, snapshot, hfind, hnone, -⟩ := h
      exact ⟨snapshot, hfind, hnone, by simp⟩

/-- A live linkage is spared where the records agree. -/
theorem spares_live (h : LinksAgree s) (sha : Sha256 κ) (event : BacktestEvent P κ) :
    Spares sha (fun linkage => linkage.orphanedAt = none) s event := by
  intro hunforced versionTag hsome hnone backtestId linkage hlinkage hlive heq
  obtain ⟨snapshot, hfind⟩ := Option.isSome_iff_exists.mp hsome
  have hlinked : linkedTo s.linkages backtestId = some versionTag := by
    have hlinkage : s.linkages backtestId = some linkage := hlinkage
    rw [linkedTo, hlinkage, Option.bind_some, if_pos hlive, heq]
  obtain ⟨found, hfound, hlisted⟩ := (h.references versionTag backtestId).mpr hlinked
  obtain ⟨deleted, hdeleted, hunlisted, -⟩ :=
    unreferenced_of_deletes ((removed_iff sha s hunforced hfind).mp hnone)
  rw [Option.mem_unique hfound hdeleted, hunlisted] at hlisted
  exact List.not_mem_nil hlisted

theorem spares_iff (h : LinksAgree s) (sha : Sha256 κ) (event : BacktestEvent P κ) :
    Spares sha (fun _ => True) s event ↔ SparesOrphans s event := by
  constructor
  · intro hspares versionTag hdeletes backtestId linkage hlinkage _
    obtain ⟨snapshot, hfind, -, hunforced⟩ := unreferenced_of_deletes hdeletes
    exact hspares hunforced versionTag (by rw [hfind]; rfl)
      ((removed_iff sha s hunforced hfind).mpr hdeletes) backtestId linkage hlinkage trivial
  · intro horphans hunforced versionTag hsome hnone backtestId linkage hlinkage _
    by_cases hlive : linkage.orphanedAt = none
    · exact spares_live h sha event hunforced versionTag hsome hnone backtestId linkage hlinkage
        hlive
    · obtain ⟨snapshot, hfind⟩ := Option.isSome_iff_exists.mp hsome
      exact horphans versionTag ((removed_iff sha s hunforced hfind).mp hnone) backtestId linkage
        hlinkage hlive

theorem linksAgree_step_iff (h : LinksAgree s) (sha : Sha256 κ) (event : BacktestEvent P κ) :
    LinksAgree (backtestStep sha s event) ↔ LinksAnew s event := by
  cases event with
  | work event => exact iff_of_true (linksAgree_work h sha event) trivial
  | link backtestId versionTag datasets => exact linksAgree_link h backtestId versionTag datasets
  | delete versionTag force released now =>
      exact iff_of_true (linksAgree_delete h versionTag force released now) trivial
  | retain released now => exact iff_of_true (linksAgree_retain h released now) trivial

/-- No snapshot and no backtest yet. -/
def BacktestStore.start (sources : FilePath → Option κ)
    (manifests : String → Option (FileManifest κ)) : BacktestStore P κ where
  store := .start sources manifests
  linkages := fun _ => none
  index := fun _ => none

omit [DecidableEq P] in
theorem linksAgree_start (sources : FilePath → Option κ)
    (manifests : String → Option (FileManifest κ)) :
    LinksAgree (BacktestStore.start sources manifests : BacktestStore P κ) := by
  constructor
  · intro versionTag backtestId
    refine iff_of_false ?_ (by simp [BacktestStore.start, linkedTo])
    rintro ⟨snapshot, hfind, -⟩
    cases hfind
  · exact fun _ => rfl
  · intro backtestId versionTag hlinked
    cases hlinked

/-- In a run the three records agree in every state, and no unforced deletion removes a snapshot
that a live linkage names, just where no live backtest is linked to another snapshot. With that
it removes no snapshot that an orphaned linkage names just where that is so of each deletion. -/
theorem linkage_is_consistent (sha : Sha256 κ) (sources : FilePath → Option κ)
    (manifests : String → Option (FileManifest κ)) (events : List (BacktestEvent P κ)) :
    (EveryState (backtestStep sha) LinksAgree (.start sources manifests) events ∧
        EachStep (backtestStep sha) (Spares sha fun linkage => linkage.orphanedAt = none)
          (.start sources manifests) events ↔
      EachStep (backtestStep sha) LinksAnew (.start sources manifests) events) ∧
    (EveryState (backtestStep sha) LinksAgree (.start sources manifests) events ∧
        EachStep (backtestStep sha) (Spares sha fun _ => True) (.start sources manifests) events ↔
      EachStep (backtestStep sha) (fun s event => LinksAnew s event ∧ SparesOrphans s event)
        (.start sources manifests) events) := by
  have hstart : LinksAgree (BacktestStore.start sources manifests : BacktestStore P κ) :=
    linksAgree_start sources manifests
  constructor
  · apply everyState_and_eachStep_iff (G := fun _ => True) (fun _ _ _ => trivial) ?_ events trivial
      hstart
    intro s event _ h
    rw [and_iff_left (spares_live h sha event)]
    exact linksAgree_step_iff h sha event
  · apply everyState_and_eachStep_iff (G := fun _ => True) (fun _ _ _ => trivial) ?_ events trivial
      hstart
    intro s event _ h
    exact and_congr (linksAgree_step_iff h sha event) (spares_iff h sha event)

/-- A backtest is linked to one snapshot and then to another. -/
def relinkRun : List (BacktestEvent Unit String) :=
  (createEvents "v1" ["crsp"] false 9 ++ createEvents "v2" ["crsp"] false 9).map .work ++
    [.link "b1" "v1" none, .link "b1" "v2" none]

def pricesStart : BacktestStore Unit String :=
  .start pricesSources fun dataset => if dataset = "crsp" then some pricesManifest else none

theorem relinked_backtest_stays_referenced :
    ¬EveryState (backtestStep plainText) LinksAgree pricesStart relinkRun := by
  intro h
  have hstale : (∃ snapshot ∈ (run (backtestStep plainText) pricesStart
      relinkRun).store.snapshots.find? "v1", "b1" ∈ snapshot.referencedBy) ∧
      linkedTo (run (backtestStep plainText) pricesStart relinkRun).linkages "b1" ≠ some "v1" := by
    decide +kernel
  exact hstale.2 ((h.last.references "v1" "b1").mp hstale.1)

end TradingPlatform.Data
