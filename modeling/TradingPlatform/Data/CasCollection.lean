import TradingPlatform.Data.CasStore

/-! # What a collection of the content-addressed store removes and counts

The index keeps its total through every operation. The collector counts what an
entry records and then, once the entry is gone, the file as well.
-/

namespace TradingPlatform.Data

open Base

/-! ## The index as reference counts -/

namespace CasIndex

variable (index : CasIndex) (versionTag hash : String)

/-- The counts that `SnapshotStore` keeps of the index. -/
def refs : RefIndex String := fun hash => (index.files.find? hash).map CasEntry.refCount

@[simp] theorem refs_apply : index.refs hash = (index.files.find? hash).map CasEntry.refCount :=
  rfl

theorem refs_reference (hsome : (index.files.find? hash).isSome) :
    (index.reference versionTag hash).refs = index.refs.acquire hash := by
  funext other
  obtain ⟨entry, hentry⟩ := Option.isSome_iff_exists.mp hsome
  by_cases hother : other = hash
  · subst hother
    simp [reference, RefIndex.acquire, RefIndex.refs, Table.find?_update, hentry]
  · simp [reference, RefIndex.acquire, Table.find?_update_ne, hother]

theorem refs_enter (sizeBytes : ℤ) (hnone : index.files.find? hash = none) :
    (index.enter versionTag hash sizeBytes).refs = index.refs.acquire hash := by
  funext other
  by_cases hother : other = hash
  · subst hother
    simp [enter, RefIndex.acquire, RefIndex.refs, Table.find?_upsert, hnone]
  · simp [enter, RefIndex.acquire, Table.find?_upsert, hother]

theorem refs_release : (index.release versionTag hash).refs = index.refs.release hash := by
  funext other
  unfold RefIndex.release
  cases hentry : index.files.find? hash with
  | none =>
      by_cases hother : other = hash
      · subst hother
        simp [release, Table.find?_update, hentry]
      · simp [release, Table.find?_update_ne, hother, hentry]
  | some entry =>
      by_cases hother : other = hash
      · subst hother
        simp [release, Table.find?_update, hentry]
      · simp [release, Table.find?_update_ne, hother, hentry]

theorem refs_releaseAll (hashes : List String) :
    (index.releaseAll versionTag hashes).refs = index.refs.releaseAll hashes := by
  induction hashes generalizing index with
  | nil => rfl
  | cons hash hashes ih =>
      have hfirst := refs_release index versionTag hash
      have hrest := ih (index.release versionTag hash)
      rw [hfirst] at hrest
      exact hrest

theorem find?_collected :
    index.collected.files.find? hash =
      (index.files.find? hash).filter fun entry => ¬ entry.refCount ≤ 0 := by
  cases hentry : index.files.find? hash with
  | none =>
      rw [Table.find?_eq_none] at hentry
      refine Table.find?_eq_none.mpr fun entry hmem => hentry entry ?_
      exact List.mem_of_mem_filter hmem
  | some entry =>
      obtain rfl := Table.find?_key hentry
      have hmem := Table.find?_mem hentry
      by_cases hdead : entry.refCount ≤ 0
      · rw [Option.filter_some_neg (by simpa using hdead), Table.find?_eq_none]
        intro other hother hkey
        have hother := List.mem_filter.mp hother
        have hsame := Table.find?_of_mem hother.1
        rw [hkey, hentry] at hsame
        cases hsame
        simp [hdead] at hother
      · rw [Option.filter_some_pos (by simpa using hdead)]
        exact Table.find?_of_mem (List.mem_filter.mpr ⟨hmem, by simpa using hdead⟩)

theorem refs_collected : index.collected.refs = index.refs.sweep := by
  funext hash
  rw [refs_apply, find?_collected, RefIndex.sweep, refs_apply]
  cases index.files.find? hash with
  | none => rfl
  | some entry =>
      by_cases hdead : entry.refCount ≤ 0
      · simp [Option.filter, hdead]
      · have hpos : 0 < entry.refCount := by omega
        simp [Option.filter, hdead, hpos]

/-! ## The total of the index -/

def Balanced : Prop := index.totalSizeBytes = entrySizes index.files.rows

instance : Decidable index.Balanced := inferInstanceAs (Decidable (_ = _))

variable {index}

theorem Balanced.update {f : CasEntry → CasEntry} (h : index.Balanced)
    (keeps : ∀ entry, (f entry).hash = entry.hash)
    (hsize : ∀ entry, (f entry).sizeBytes = entry.sizeBytes) :
    Balanced { index with files := index.files.update hash f keeps } := by
  have hmap := Table.map_key_update index.files.rows (fun entry => entry.hash = hash) hsize
  show index.totalSizeBytes = entrySizes _
  rw [h]
  exact (congrArg List.sum hmap).symm

theorem Balanced.reference (h : index.Balanced) : (index.reference versionTag hash).Balanced :=
  h.update hash _ fun _ => rfl

theorem Balanced.release (h : index.Balanced) : (index.release versionTag hash).Balanced :=
  h.update hash _ fun _ => rfl

theorem Balanced.releaseAll (h : index.Balanced) (hashes : List String) :
    (index.releaseAll versionTag hashes).Balanced := by
  induction hashes generalizing index with
  | nil => exact h
  | cons hash hashes ih => exact ih (h.release versionTag hash)

theorem Balanced.enter (h : index.Balanced) (sizeBytes : ℤ)
    (hnone : index.files.find? hash = none) : (index.enter versionTag hash sizeBytes).Balanced := by
  show index.totalSizeBytes + sizeBytes = entrySizes _
  rw [CasIndex.enter, Table.upsert_rows_of_fresh hnone, h]
  simp [entrySizes]

theorem entrySizes_dead_add (index : CasIndex) :
    entrySizes index.dead + entrySizes index.collected.files.rows = entrySizes index.files.rows :=
  List.sum_map_filter_add_sum_map_filter_not (fun entry : CasEntry => entry.refCount ≤ 0)
    CasEntry.sizeBytes index.files.rows

theorem Balanced.collected (h : index.Balanced) : index.collected.Balanced := by
  have hsplit := entrySizes_dead_add index
  unfold Balanced at h ⊢
  simp only [CasIndex.collected] at hsplit ⊢
  omega

end CasIndex

/-! ## Runs -/

/-- A file that is stored is one more reference, or none. -/
theorem CasBatch.refs_store (batch : CasBatch) (versionTag : String) (existing : String → Bool)
    (write : CasWrite) :
    let next := (batch.store versionTag existing write).1
    (next.index.refs = batch.index.refs.acquire write.checksum ∧
      next.added = batch.added ++ [write.checksum]) ∨
      (next.index = batch.index ∧ next.added = batch.added) := by
  unfold CasBatch.store
  cases hfound : batch.index.files.find? write.checksum with
  | some entry =>
      have hsome : (batch.index.files.find? write.checksum).isSome := by
        simp [hfound]
      simp only [hfound, Option.isSome_some, if_true]
      exact Or.inl ⟨batch.index.refs_reference versionTag _ hsome, rfl⟩
  | none =>
      simp only [hfound, Option.isSome_none, Bool.false_eq_true, if_false]
      cases write.answer with
      | stored => exact Or.inl ⟨batch.index.refs_enter versionTag _ _ hfound, rfl⟩
      | failed => exact Or.inr ⟨rfl, rfl⟩
      | left => exact Or.inr ⟨rfl, rfl⟩
      | refused => exact Or.inr ⟨rfl, rfl⟩

theorem CasBatch.balanced_store {batch : CasBatch} (h : batch.index.Balanced) (versionTag : String)
    (existing : String → Bool) (write : CasWrite) :
    (batch.store versionTag existing write).1.index.Balanced := by
  unfold CasBatch.store
  cases hfound : batch.index.files.find? write.checksum with
  | some entry =>
      simp only [hfound, Option.isSome_some, if_true]
      exact h.reference versionTag write.checksum
  | none =>
      simp only [hfound, Option.isSome_none, Bool.false_eq_true, if_false]
      cases write.answer with
      | stored => exact h.enter versionTag write.checksum _ hfound
      | failed => exact h
      | left => exact h
      | refused => exact h

theorem CasBatch.balanced_storeAll (versionTag : String) (existing : String → Bool)
    {batch : CasBatch} (h : batch.index.Balanced) (writes : List CasWrite) :
    (batch.storeAll versionTag existing writes).1.index.Balanced := by
  induction writes generalizing batch with
  | nil => exact h
  | cons write writes ih =>
      have hnext := batch.balanced_store h versionTag existing write
      unfold CasBatch.storeAll
      split
      · rename_i next hstore
        rwa [hstore] at hnext
      · rename_i next hstore
        rw [hstore] at hnext
        exact ih hnext

/-- The calls that hold the snapshot lock. -/
inductive CasCall where
  | create (versionTag : String) (useCas : Bool) (writes : List CasWrite) (ending : CreateEnding)
      (stuck : String → Bool)
  | delete (versionTag : String) (targets : List String) (released : Bool)
  | gc

namespace CasStore

variable {s : CasStore}

def call (s : CasStore) : CasCall → CasStore
  | .create versionTag useCas writes ending stuck =>
      s.createSnapshot versionTag useCas writes ending stuck
  | .delete versionTag targets released => s.deleteSnapshot versionTag targets released
  | .gc => s.gcCas.1

theorem balanced_create (h : s.index.Balanced) (versionTag : String) (useCas : Bool)
    (writes : List CasWrite) (ending : CreateEnding) (stuck : String → Bool) :
    (s.createSnapshot versionTag useCas writes ending stuck).index.Balanced := by
  unfold createSnapshot
  cases useCas with
  | false => exact h
  | true =>
      have hbatch := @CasBatch.balanced_storeAll versionTag
        (fun hash => (s.index.files.find? hash).isSome) ⟨s.files, s.index, [], []⟩ h writes
      simp only [if_true]
      split
      · exact h
      · cases ending with
        | committed => exact hbatch
        | unsaved => exact h
        | saved released =>
            cases released with
            | true => exact hbatch.releaseAll versionTag _
            | false => exact hbatch

theorem balanced_call (h : s.index.Balanced) (call : CasCall) : (s.call call).index.Balanced := by
  cases call with
  | create versionTag useCas writes ending stuck =>
      exact balanced_create h versionTag useCas writes ending stuck
  | delete versionTag targets released =>
      cases released with
      | true => exact h.releaseAll versionTag targets
      | false => exact h
  | gc => exact h.collected

/-- The total is kept through any calls, one after another. -/
theorem balanced_calls (h : s.index.Balanced) (calls : List CasCall) :
    (calls.foldl call s).index.Balanced := by
  induction calls generalizing s with
  | nil => exact h
  | cons c calls ih => exact ih (balanced_call h c)

/-! ## Names -/

theorem pathStem_of_not_mem {name : String} (h : '.' ∉ name.toList) : pathStem name = name := by
  simp [pathStem, h]

theorem length_takeWhile_le {α : Type*} {p : α → Bool} {a : α} (ha : p a = false)
    (first rest : List α) : ((first ++ a :: rest).takeWhile p).length ≤ first.length := by
  induction first with
  | nil => simp [ha]
  | cons b first ih =>
      rw [List.cons_append, List.takeWhile_cons]
      split
      · simpa using ih
      · simp

/-- The stem ends at the last dot; where it has none itself, that is the first one. -/
theorem toList_pathStem {name : String} {first rest : List Char}
    (hname : name.toList = first ++ '.' :: rest) (hstem : '.' ∉ (pathStem name).toList) :
    (pathStem name).toList = first := by
  have hsuffix : (name.toList.reverse.takeWhile (· ≠ '.')).length ≤ rest.length := by
    have hle := @length_takeWhile_le Char (· ≠ '.') '.' (by simp) rest.reverse first.reverse
    simpa [hname] using hle
  have hlength : name.toList.length = first.length + 1 + rest.length := by
    simp [hname]
    omega
  revert hstem
  unfold pathStem
  simp only
  split
  · intro hstem
    rw [String.toList_ofList] at hstem ⊢
    generalize (name.toList.reverse.takeWhile (· ≠ '.')).length = suffix at hsuffix hstem ⊢
    have hcut : name.toList.length - (suffix + 1) = first.length + (rest.length - suffix) := by
      omega
    rw [hcut, hname, List.take_length_add_append] at hstem ⊢
    cases hmore : rest.length - suffix with
    | zero => simp
    | succ n => simp [hmore] at hstem
  · intro hstem
    simp [hname] at hstem

theorem isDigest_not_mem {hash : String} (h : IsDigest hash) : '.' ∉ hash.toList := by
  intro hdot
  have hhex := h.2 '.' hdot
  revert hhex
  decide

theorem isDigest_not_hidden {hash : String} (h : IsDigest hash) : isHidden hash = false := by
  unfold isHidden
  cases hchars : hash.toList with
  | nil => rfl
  | cons c chars =>
      have hhex := h.2 c (by simp [hchars])
      have hne : c ≠ '_' := by
        rintro rfl
        revert hhex
        decide
      simpa using hne

theorem globbed_iff {hash name : String} :
    globbed hash name = true ↔ ∃ rest, name.toList = hash.toList ++ '.' :: rest := by
  simp only [globbed, List.isPrefixOf_iff_prefix]
  constructor
  · rintro ⟨rest, hrest⟩
    exact ⟨rest, by simpa using hrest.symm⟩
  · rintro ⟨rest, hrest⟩
    exact ⟨rest, by simp [hrest]⟩

/-! ## What a collection leaves -/

end CasStore

/-- The hash is indexed and referenced. -/
def CasIndex.Keeps (index : CasIndex) (hash : String) : Prop :=
  ∃ entry ∈ index.files.rows, entry.hash = hash ∧ 0 < entry.refCount

/-- The name is a dead hash with a suffix. -/
def CasIndex.globs (index : CasIndex) (name : String) : Bool :=
  index.dead.any fun entry => globbed entry.hash name

instance (index : CasIndex) (hash : String) : Decidable (index.Keeps hash) :=
  inferInstanceAs (Decidable (∃ _ ∈ _, _ ∧ _))

theorem CasIndex.mem_dead {index : CasIndex} {entry : CasEntry} :
    entry ∈ index.dead ↔ entry ∈ index.files.rows ∧ entry.refCount ≤ 0 := by
  simp [dead]

theorem CasIndex.mem_collected {index : CasIndex} {entry : CasEntry} :
    entry ∈ index.collected.files.rows ↔ entry ∈ index.files.rows ∧ 0 < entry.refCount := by
  simp [collected]

theorem CasIndex.find?_collected_eq_none {index : CasIndex} {hash : String} :
    index.collected.files.find? hash = none ↔ ¬ index.Keeps hash := by
  rw [Table.find?_eq_none]
  constructor
  · rintro hnone ⟨entry, hmem, hhash, hpos⟩
    exact hnone entry (mem_collected.mpr ⟨hmem, hpos⟩) hhash
  · intro hkeeps entry hmem hhash
    obtain ⟨hmem, hpos⟩ := mem_collected.mp hmem
    exact hkeeps ⟨entry, hmem, hhash, hpos⟩

theorem unlinkGlobbed_eq (entries : List CasEntry) (files : List CasFile) :
    unlinkGlobbed entries files =
      files.filter fun file => ¬ (entries.filter fun entry => entry.refCount ≤ 0).any
        fun entry => globbed entry.hash file.name := by
  induction entries generalizing files with
  | nil =>
      simp [unlinkGlobbed]
  | cons entry entries ih =>
      have hstep : unlinkGlobbed (entry :: entries) files = unlinkGlobbed entries
          (if entry.refCount ≤ 0 then files.filter fun file => ¬ globbed entry.hash file.name
            else files) := rfl
      rw [hstep, ih]
      by_cases hdead : entry.refCount ≤ 0
      · rw [if_pos hdead, List.filter_filter]
        apply List.filter_congr
        intro file _
        cases hglob : globbed entry.hash file.name <;> simp [hdead, hglob]
      · simp [hdead]

namespace CasStore

variable {s : CasStore}

theorem mem_gcCas {file : CasFile} :
    file ∈ s.gcCas.1.files.rows ↔ file ∈ s.files.rows ∧ s.index.globs file.name = false ∧
      isOrphan s.index.collected file = false := by
  simp only [gcCas, unlinkGlobbed_eq, List.mem_filter, decide_eq_true_eq, Bool.not_eq_true]
  exact and_assoc

theorem isOrphan_eq_false {file : CasFile} : isOrphan s.index.collected file = false ↔
    isHidden file.name = true ∨ s.index.Keeps (pathStem file.name) := by
  unfold isOrphan
  rw [decide_eq_false_iff_not, CasIndex.find?_collected_eq_none]
  tauto

/-- Each indexed hash has its file, named by the hash alone, with the recorded size. -/
structure WellKept (s : CasStore) : Prop where
  digest : ∀ entry ∈ s.index.files.rows, IsDigest entry.hash
  stored : ∀ entry ∈ s.index.files.rows,
    ∃ file ∈ s.files.rows, file.name = entry.hash ∧ (file.size : ℤ) = entry.sizeBytes

variable (h : s.WellKept)

include h

theorem WellKept.digest_of_keeps {hash : String} (hkeeps : s.index.Keeps hash) :
    IsDigest hash := by
  obtain ⟨entry, hmem, rfl, -⟩ := hkeeps
  exact h.digest entry hmem

theorem WellKept.not_globs {name : String}
    (hstays : isHidden name = true ∨ s.index.Keeps (pathStem name)) :
    s.index.globs name = false := by
  rw [Bool.eq_false_iff]
  intro hglobs
  obtain ⟨entry, hentry, hglob⟩ := List.any_eq_true.mp hglobs
  obtain ⟨hmem, hdead⟩ := CasIndex.mem_dead.mp hentry
  obtain ⟨rest, hname⟩ := globbed_iff.mp hglob
  have hdigest := h.digest entry hmem
  rcases hstays with hhidden | hkeeps
  · have hchars := isDigest_not_hidden hdigest
    unfold isHidden at hhidden hchars
    cases hhash : entry.hash.toList with
    | nil =>
        have hlength := hdigest.1
        rw [hhash] at hlength
        cases hlength
    | cons c chars =>
        rw [hname, hhash] at hhidden
        rw [hhash] at hchars
        simp_all
  · have hstem := toList_pathStem hname (isDigest_not_mem (h.digest_of_keeps hkeeps))
    obtain ⟨kept, hkept, hhash, hpos⟩ := hkeeps
    have hsame : kept = entry := by
      apply List.inj_on_of_nodup_map s.index.files.keys_nodup hkept hmem
      rw [hhash]
      exact String.toList_inj.mp hstem
    subst hsame
    omega

theorem WellKept.mem_gcCas {file : CasFile} (hfile : file ∈ s.files.rows) :
    file ∈ s.gcCas.1.files.rows ↔
      isHidden file.name = true ∨ s.index.Keeps (pathStem file.name) := by
  rw [CasStore.mem_gcCas, isOrphan_eq_false]
  constructor
  · exact fun hstays => hstays.2.2
  · exact fun hstays => ⟨hfile, h.not_globs hstays, hstays⟩

theorem WellKept.keeps_pathStem {hash : String} (hkeeps : s.index.Keeps hash) :
    s.index.Keeps (pathStem hash) := by
  rwa [pathStem_of_not_mem (isDigest_not_mem (h.digest_of_keeps hkeeps))]

omit h

/-! ## The accounting -/

/-- What a collection promises: the files that go are the unindexed and the unreferenced ones,
with the entries of the latter, and their sizes are what it returns. -/
structure Accounted (s : CasStore) : Prop where
  files : ∀ file ∈ s.files.rows, file ∈ s.gcCas.1.files.rows ↔ s.index.Keeps file.name
  noFiles : ∀ file ∈ s.gcCas.1.files.rows, file ∈ s.files.rows
  entries : ∀ entry, entry ∈ s.gcCas.1.index.files.rows ↔
    entry ∈ s.index.files.rows ∧ 0 < entry.refCount
  freed : s.gcCas.2 = sizes (s.files.rows.filter fun file => file ∉ s.gcCas.1.files.rows)
  total : s.index.Balanced → s.gcCas.1.index.Balanced

/-- No file beside the index is hidden from the scan or shares its stem with a kept hash, and the
dead entries record the sizes of the files that the loop over them finds. -/
structure Collectable (s : CasStore) : Prop where
  visible : ∀ file ∈ s.files.rows, isHidden file.name = false
  stems : ∀ file ∈ s.files.rows, s.index.Keeps (pathStem file.name) → s.index.Keeps file.name
  counted : entrySizes s.index.dead =
    sizes (s.files.rows.filter fun file => s.index.globs file.name)

/-- The files that go are found by the loop over the entries or by the scan after it. -/
theorem sizes_removed (s : CasStore) :
    sizes (s.files.rows.filter fun file => file ∉ s.gcCas.1.files.rows) +
        entrySizes s.index.dead =
      sizes (s.files.rows.filter fun file => s.index.globs file.name) + s.gcCas.2 := by
  have hsplit := List.sum_map_filter_add_sum_map_filter_not
    (fun file : CasFile => s.index.globs file.name = true) (fun file => (file.size : ℤ))
    (s.files.rows.filter fun file => file ∉ s.gcCas.1.files.rows)
  have hglobbed : (s.files.rows.filter fun file => file ∉ s.gcCas.1.files.rows).filter
      (fun file => s.index.globs file.name = true) =
        s.files.rows.filter fun file => s.index.globs file.name := by
    rw [List.filter_filter]
    apply List.filter_congr
    intro file _
    cases hglob : s.index.globs file.name <;> simp [mem_gcCas, hglob]
  have hscanned : (s.files.rows.filter fun file => file ∉ s.gcCas.1.files.rows).filter
      (fun file => ¬ s.index.globs file.name = true) =
        (unlinkGlobbed s.index.files.rows s.files.rows).filter
          fun file => isOrphan s.index.collected file := by
    rw [unlinkGlobbed_eq, List.filter_filter, List.filter_filter]
    apply List.filter_congr
    intro file hfile
    show _ = (isOrphan s.index.collected file && decide (¬ s.index.globs file.name = true))
    cases hglob : s.index.globs file.name <;> simp [mem_gcCas, hglob, hfile]
  rw [hglobbed, hscanned] at hsplit
  show _ = _ + (entrySizes s.index.dead + sizes _)
  unfold sizes
  omega

/-- A collection accounts for what it removes exactly where the store is `Collectable`. The total
of the index is kept through every run of creations, deletions and collections. -/
theorem gc_accounts_iff (s : CasStore) (hkept : s.WellKept) :
    (s.Accounted ↔ s.Collectable) ∧
      (s.index.Balanced → ∀ calls : List CasCall, (calls.foldl call s).index.Balanced) := by
  have hremoved := sizes_removed s
  refine ⟨⟨fun h => ⟨?_, ?_, ?_⟩, fun h => ⟨?_, ?_, ?_, ?_, ?_⟩⟩, balanced_calls⟩
  · intro file hfile
    rw [Bool.eq_false_iff]
    intro hhidden
    have hkeeps := (h.files file hfile).mp ((hkept.mem_gcCas hfile).mpr (Or.inl hhidden))
    have hvisible := isDigest_not_hidden (hkept.digest_of_keeps hkeeps)
    rw [hhidden] at hvisible
    cases hvisible
  · intro file hfile hstem
    exact (h.files file hfile).mp ((hkept.mem_gcCas hfile).mpr (Or.inr hstem))
  · have hfreed := h.freed
    omega
  · intro file hfile
    rw [hkept.mem_gcCas hfile, h.visible file hfile]
    constructor
    · intro hstays
      exact h.stems file hfile (by simpa using hstays)
    · exact fun hkeeps => Or.inr (hkept.keeps_pathStem hkeeps)
  · exact fun file hfile => (mem_gcCas.mp hfile).1
  · exact fun entry => CasIndex.mem_collected
  · have hcounted := h.counted
    omega
  · exact fun hbalanced => hbalanced.collected

/-- A store of one file of a hundred bytes, with this count of references. -/
def ofCount (refCount : ℤ) : CasStore where
  files := ⟨[⟨"e3b0c44298fc1c149afbf4c8996fb92427ae41e4649b934ca495991b7852b855", 100⟩],
    List.nodup_singleton _⟩
  index := ⟨⟨[⟨"e3b0c44298fc1c149afbf4c8996fb92427ae41e4649b934ca495991b7852b855", 100,
    refCount, []⟩], List.nodup_singleton _⟩, 100⟩

theorem wellKept_ofCount (refCount : ℤ) : (ofCount refCount).WellKept := by
  constructor
  · simp only [ofCount, List.mem_singleton, forall_eq]
    have hhex : ("e3b0c44298fc1c149afbf4c8996fb92427ae41e4649b934ca495991b7852b855".toList.all
        fun c => "0123456789abcdef".toList.contains c) = true := by decide +kernel
    refine ⟨by decide +kernel, fun c hc => ?_⟩
    exact List.contains_iff_mem.mp (List.all_eq_true.mp hhex c hc)
  · simp [ofCount]

theorem gc_accounts_referenced : (ofCount 1).Accounted ∧
    ∀ calls : List CasCall, (calls.foldl call (ofCount 1)).index.Balanced := by
  obtain ⟨haccounted, hbalanced⟩ := gc_accounts_iff (ofCount 1) (wellKept_ofCount 1)
  exact ⟨haccounted.mpr ⟨by decide +kernel, by decide +kernel, by decide +kernel⟩,
    hbalanced (by decide +kernel)⟩

/-- The last snapshot of a file is deleted; the collection then removes its hundred bytes and
returns two hundred. -/
theorem dead_file_is_counted_twice : (ofCount 0).WellKept ∧
    (ofCount 0).gcCas.1.files.rows = [] ∧ (ofCount 0).gcCas.2 = 200 ∧
      ¬ (ofCount 0).Accounted := by
  have hgone : (ofCount 0).gcCas.1.files.rows = [] := by
    decide +kernel
  refine ⟨wellKept_ofCount 0, hgone, by decide +kernel, ?_⟩
  intro h
  have hfreed := h.freed
  rw [hgone] at hfreed
  revert hfreed
  decide +kernel

end CasStore

end TradingPlatform.Data
