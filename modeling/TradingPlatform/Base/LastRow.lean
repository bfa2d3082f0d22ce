import Mathlib.Data.List.Sort
import Mathlib.Order.Lattice

/-! # Rows that win by key

Frames of rows with a key, which sorting and dropping repeated keys bring into one
form: a frame is determined by the row that comes last of each key.
-/

namespace TradingPlatform.Base

variable {ρ κ : Type*} [LinearOrder κ] {key : ρ → κ} {rows : List ρ} {r : ρ} {k : κ}

/-- `unique(subset, keep="first")` -/
def uniqueFirst (key : ρ → κ) : List ρ → List ρ
  | [] => []
  | r :: rows => r :: (uniqueFirst key rows).filter fun s => key s ≠ key r

/-- `unique(subset, keep="last")` -/
def uniqueLast (key : ρ → κ) (rows : List ρ) : List ρ := (uniqueFirst key rows.reverse).reverse

/-- A stable sort by the key. -/
def sortByKey (key : ρ → κ) (rows : List ρ) : List ρ :=
  rows.insertionSort fun r s => key r ≤ key s

def withKey (key : ρ → κ) (rows : List ρ) (k : κ) : List ρ := rows.filter fun r => key r = k

/-- The row that wins among those with the key. -/
def lastRow (key : ρ → κ) (rows : List ρ) (k : κ) : Option ρ := (withKey key rows k).getLast?

theorem withKey_cons_of_eq (h : key r = k) (rows : List ρ) :
    withKey key (r :: rows) k = r :: withKey key rows k :=
  List.filter_cons_of_pos (by simpa using h)

theorem withKey_cons_of_ne (h : key r ≠ k) (rows : List ρ) :
    withKey key (r :: rows) k = withKey key rows k :=
  List.filter_cons_of_neg (by simpa using h)

theorem withKey_append (rows rows' : List ρ) (k : κ) :
    withKey key (rows ++ rows') k = withKey key rows k ++ withKey key rows' k :=
  List.filter_append rows rows'

theorem lastRow_append (rows rows' : List ρ) (k : κ) :
    lastRow key (rows ++ rows') k = (lastRow key rows' k).or (lastRow key rows k) := by
  rw [lastRow, withKey_append, List.getLast?_append]
  rfl

theorem mem_of_lastRow (h : lastRow key rows k = some r) : r ∈ rows ∧ key r = k := by
  have hmem := List.mem_filter.mp (List.mem_of_getLast? h)
  exact ⟨hmem.1, by simpa using hmem.2⟩

theorem lastRow_eq_none : lastRow key rows k = none ↔ ∀ r ∈ rows, key r ≠ k := by
  rw [lastRow, List.getLast?_eq_none_iff, withKey, List.filter_eq_nil_iff]
  simp

theorem exists_lastRow (h : r ∈ rows) : ∃ s, lastRow key rows (key r) = some s := by
  apply Option.ne_none_iff_exists'.mp
  intro hnone
  exact lastRow_eq_none.mp hnone r h rfl

/-- Where no key is repeated every row wins. -/
theorem lastRow_of_nodup (hnodup : (rows.map key).Nodup) (h : r ∈ rows) :
    lastRow key rows (key r) = some r := by
  obtain ⟨s, hs⟩ : ∃ s, lastRow key rows (key r) = some s := exists_lastRow h
  have ⟨hmem, hkey⟩ := mem_of_lastRow hs
  rw [hs, List.inj_on_of_nodup_map hnodup hmem h hkey]

/-! ## Dropping repeated keys -/

theorem mem_uniqueFirst : r ∈ uniqueFirst key rows ↔
    (withKey key rows (key r)).head? = some r := by
  induction rows with
  | nil => simp [uniqueFirst, withKey]
  | cons s rows ih =>
      rw [uniqueFirst, List.mem_cons, List.mem_filter, ih]
      by_cases hkey : key s = key r
      · rw [withKey_cons_of_eq hkey, List.head?_cons]
        simp [hkey, eq_comm]
      · have hne : r ≠ s := fun heq => hkey (heq ▸ rfl)
        have hkey' : key r ≠ key s := Ne.symm hkey
        rw [withKey_cons_of_ne hkey]
        simp [hne, hkey']

theorem nodup_uniqueFirst : ((uniqueFirst key rows).map key).Nodup := by
  induction rows with
  | nil => exact List.nodup_nil
  | cons r rows ih =>
      rw [uniqueFirst, List.map_cons, List.nodup_cons]
      constructor
      · intro hmem
        obtain ⟨s, hs, hkey⟩ := List.mem_map.mp hmem
        have hne := (List.mem_filter.mp hs).2
        exact absurd hkey (by simpa using hne)
      · exact ih.sublist (List.filter_sublist.map key)

theorem uniqueFirst_sublist (rows : List ρ) : (uniqueFirst key rows).Sublist rows := by
  induction rows with
  | nil => exact List.Sublist.refl _
  | cons r rows ih => exact (List.filter_sublist.trans ih).cons_cons r

theorem uniqueFirst_of_nodup (h : (rows.map key).Nodup) : uniqueFirst key rows = rows := by
  induction rows with
  | nil => rfl
  | cons r rows ih =>
      rw [List.map_cons, List.nodup_cons] at h
      rw [uniqueFirst, ih h.2, List.filter_eq_self.mpr]
      intro s hs
      have hne : key s ≠ key r := fun heq => h.1 (heq ▸ List.mem_map_of_mem hs)
      simpa using hne

/-- No row is dropped just if no key is repeated. -/
theorem length_uniqueFirst_eq_iff :
    (uniqueFirst key rows).length = rows.length ↔ (rows.map key).Nodup := by
  constructor
  · intro h
    rw [← (uniqueFirst_sublist rows).eq_of_length h]
    exact nodup_uniqueFirst
  · intro h
    rw [uniqueFirst_of_nodup h]

theorem mem_uniqueFirst_reverse :
    r ∈ uniqueFirst key rows.reverse ↔ lastRow key rows (key r) = some r := by
  rw [mem_uniqueFirst, withKey, List.filter_reverse, List.head?_reverse]
  rfl

theorem mem_uniqueLast : r ∈ uniqueLast key rows ↔ lastRow key rows (key r) = some r := by
  rw [uniqueLast, List.mem_reverse, mem_uniqueFirst_reverse]

theorem nodup_uniqueLast : ((uniqueLast key rows).map key).Nodup := by
  rw [uniqueLast, List.map_reverse, List.nodup_reverse]
  exact nodup_uniqueFirst

/-! ## Sorting -/

theorem perm_sortByKey (rows : List ρ) : (sortByKey key rows).Perm rows :=
  List.perm_insertionSort _ rows

@[simp] theorem mem_sortByKey : r ∈ sortByKey key rows ↔ r ∈ rows := (perm_sortByKey rows).mem_iff

theorem nodup_sortByKey : ((sortByKey key rows).map key).Nodup ↔ (rows.map key).Nodup :=
  ((perm_sortByKey rows).map key).nodup_iff

theorem pairwise_sortByKey (rows : List ρ) :
    (sortByKey key rows).Pairwise fun r s => key r ≤ key s := by
  have : Std.Total fun r s : ρ => key r ≤ key s := ⟨fun r s => le_total (key r) (key s)⟩
  have : IsTrans ρ fun r s => key r ≤ key s := ⟨fun _ _ _ h h' => le_trans h h'⟩
  exact List.pairwise_insertionSort _ rows

theorem map_sortByKey {σ : Type*} {key' : σ → κ} {f : ρ → σ} (h : ∀ r, key' (f r) = key r)
    (rows : List ρ) : (sortByKey key rows).map f = sortByKey key' (rows.map f) := by
  apply List.map_insertionSort
  intro r _ s _
  rw [h, h]

/-- The rows of a key stay in order. -/
theorem withKey_sortByKey (rows : List ρ) (k : κ) :
    withKey key (sortByKey key rows) k = withKey key rows k := by
  have hequal : (withKey key rows k).Pairwise fun r s => key r ≤ key s := by
    apply List.pairwise_of_forall_mem_list
    intro r hr s hs
    have hr : key r = k := by simpa using (List.mem_filter.mp hr).2
    have hs : key s = k := by simpa using (List.mem_filter.mp hs).2
    rw [hr, hs]
  have hsub : (withKey key rows k).Sublist (sortByKey key rows) :=
    List.sublist_insertionSort hequal List.filter_sublist
  have hkept : (withKey key rows k).Sublist (withKey key (sortByKey key rows) k) := by
    have hfilter := hsub.filter fun r => key r = k
    simp only [withKey, List.filter_filter, Bool.and_self] at hfilter
    exact hfilter
  have hlength : (withKey key (sortByKey key rows) k).length = (withKey key rows k).length :=
    ((perm_sortByKey rows).filter _).length_eq
  exact (hkept.eq_of_length hlength.symm).symm

/-- Sorted frames without repeated keys are told by their rows. -/
theorem eq_of_mem_iff {rows rows' : List ρ} (hsorted : rows.Pairwise fun r s => key r ≤ key s)
    (hsorted' : rows'.Pairwise fun r s => key r ≤ key s) (hnodup : (rows.map key).Nodup)
    (hnodup' : (rows'.map key).Nodup) (h : ∀ r, r ∈ rows ↔ r ∈ rows') : rows = rows' := by
  have hperm : rows.Perm rows' :=
    (List.perm_ext_iff_of_nodup hnodup.of_map hnodup'.of_map).mpr h
  apply hperm.eq_of_pairwise _ hsorted hsorted'
  intro r s hr hs hle hge
  exact List.inj_on_of_nodup_map hnodup hr ((h s).mpr hs) (le_antisymm hle hge)

end TradingPlatform.Base
