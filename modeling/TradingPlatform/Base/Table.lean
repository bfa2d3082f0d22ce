import Mathlib.Algebra.BigOperators.Group.List.Basic
import Mathlib.Data.List.Count
import Mathlib.Data.List.MinMax
import Mathlib.Data.List.Nodup
import Mathlib.Order.WithBot
import Mathlib.Tactic.Abel
import Mathlib.Tactic.TypeStar

/-! # Tables with a primary key

A table is a list of rows in insertion order whose keys are distinct, as a
relational table with a primary key is. The four statements a client issues are
modelled: `insert` refuses a key that is taken, `updateWhere` rewrites the rows
a predicate selects, `find?` reads by key and `select` by predicate.
-/

namespace TradingPlatform.Base

structure Table (κ ρ : Type*) (key : ρ → κ) where
  rows : List ρ
  keys_nodup : (rows.map key).Nodup

namespace Table

variable {κ ρ : Type*} {key : ρ → κ}

def empty : Table κ ρ key := ⟨[], List.nodup_nil⟩

theorem map_key_update (rows : List ρ) (p : ρ → Bool) {f : ρ → ρ}
    (keeps : ∀ r, key (f r) = key r) :
    (rows.map fun r => if p r then f r else r).map key = rows.map key := by
  rw [List.map_map]
  apply List.map_congr_left
  intro r _
  by_cases hp : p r <;> simp [hp, keeps]

/-- Rows are rewritten in place; `keeps` says that an update leaves the key column alone. -/
def updateWhere (t : Table κ ρ key) (p : ρ → Bool) (f : ρ → ρ)
    (keeps : ∀ r, key (f r) = key r) : Table κ ρ key where
  rows := t.rows.map fun r => if p r then f r else r
  keys_nodup := by
    rw [map_key_update t.rows p keeps]
    exact t.keys_nodup

theorem mem_updateWhere {t : Table κ ρ key} {p : ρ → Bool} {f : ρ → ρ}
    {keeps : ∀ r, key (f r) = key r} {r : ρ} :
    r ∈ (t.updateWhere p f keeps).rows ↔ ∃ x ∈ t.rows, (if p x then f x else x) = r := by
  simp [updateWhere]

def select (t : Table κ ρ key) (p : ρ → Bool) : List ρ := t.rows.filter p

variable [DecidableEq κ]

def find? (t : Table κ ρ key) (k : κ) : Option ρ := t.rows.find? fun r => key r = k

/-- `none` is the unique violation of the primary key. -/
def insert (t : Table κ ρ key) (r : ρ) : Option (Table κ ρ key) :=
  if h : key r ∈ t.rows.map key then none
  else some ⟨t.rows ++ [r], by
    rw [List.map_append, List.map_singleton, List.nodup_append]
    refine ⟨t.keys_nodup, List.nodup_singleton _, ?_⟩
    intro a ha b hb
    rw [List.mem_singleton] at hb
    rintro rfl
    exact h (hb ▸ ha)⟩

/-- `INSERT ... ON CONFLICT (key) DO UPDATE` with every column taken from the new row. -/
def upsert (t : Table κ ρ key) (r : ρ) : Table κ ρ key :=
  match t.insert r with
  | some t' => t'
  | none => t.updateWhere (fun x => key x = key r) (fun x => if key x = key r then r else x) (by
      intro x
      split
      · rename_i h
        exact h.symm
      · rfl)

/-- The update by primary key. -/
def update (t : Table κ ρ key) (k : κ) (f : ρ → ρ) (keeps : ∀ r, key (f r) = key r) :
    Table κ ρ key :=
  t.updateWhere (fun r => key r = k) f keeps

def delete (t : Table κ ρ key) (k : κ) : Table κ ρ key :=
  ⟨t.rows.filter fun r => key r ≠ k, t.keys_nodup.sublist (List.filter_sublist.map key)⟩

/-! ## Reading back an update -/

theorem find?_key {t : Table κ ρ key} {k : κ} {r : ρ} (h : t.find? k = some r) : key r = k := by
  simpa using List.find?_some h

theorem find?_mem {t : Table κ ρ key} {k : κ} {r : ρ} (h : t.find? k = some r) : r ∈ t.rows :=
  List.mem_of_find?_eq_some h

theorem find?_eq_none {t : Table κ ρ key} {k : κ} :
    t.find? k = none ↔ ∀ r ∈ t.rows, key r ≠ k := by
  simp [find?, List.find?_eq_none]

theorem find?_of_mem {t : Table κ ρ key} {r : ρ} (h : r ∈ t.rows) :
    t.find? (key r) = some r := by
  obtain ⟨rows, nodup⟩ := t
  simp only [find?] at h ⊢
  induction rows with
  | nil => cases h
  | cons x xs ih =>
      rw [List.map_cons, List.nodup_cons] at nodup
      rcases List.mem_cons.mp h with rfl | hx
      · simp
      · have hne : key x ≠ key r := by
          intro he
          exact nodup.1 (he ▸ List.mem_map_of_mem hx)
        rw [List.find?_cons_of_neg (by simpa using hne)]
        exact ih nodup.2 hx

/-- A row under a key is the only one. -/
theorem existsUnique_iff {t : Table κ ρ key} {k : κ} {p : ρ → Prop} :
    (∃! r, r ∈ t.rows ∧ key r = k ∧ p r) ↔ ∃ r, t.find? k = some r ∧ p r := by
  constructor
  · rintro ⟨r, ⟨hmem, rfl, hp⟩, -⟩
    exact ⟨r, find?_of_mem hmem, hp⟩
  · rintro ⟨r, hr, hp⟩
    refine ⟨r, ⟨find?_mem hr, find?_key hr, hp⟩, ?_⟩
    rintro x ⟨hmem, rfl, -⟩
    rw [find?_of_mem hmem] at hr
    exact Option.some.inj hr

theorem find?_updateWhere (t : Table κ ρ key) (p : ρ → Bool) (f : ρ → ρ)
    (keeps : ∀ r, key (f r) = key r) (k : κ) :
    (t.updateWhere p f keeps).find? k = (t.find? k).map fun r => if p r then f r else r := by
  simp only [find?, updateWhere, List.find?_map]
  congr 2
  funext r
  by_cases hp : p r <;> simp [hp, keeps]

theorem find?_update (t : Table κ ρ key) (k : κ) (f : ρ → ρ)
    (keeps : ∀ r, key (f r) = key r) : (t.update k f keeps).find? k = (t.find? k).map f := by
  rw [update, find?_updateWhere]
  cases h : t.find? k with
  | none => rfl
  | some r => simp [find?_key h]

theorem find?_update_ne (t : Table κ ρ key) {k k' : κ} (f : ρ → ρ)
    (keeps : ∀ r, key (f r) = key r) (hne : k' ≠ k) :
    (t.update k f keeps).find? k' = t.find? k' := by
  rw [update, find?_updateWhere]
  cases h : t.find? k' with
  | none => rfl
  | some r => simp [find?_key h, hne]

/-! ## Reading back an insert -/

theorem insert_eq_none {t : Table κ ρ key} {r : ρ} :
    t.insert r = none ↔ key r ∈ t.rows.map key := by
  unfold insert
  split <;> simp_all

theorem insert_eq_none_iff_find? {t : Table κ ρ key} {r : ρ} :
    t.insert r = none ↔ t.find? (key r) ≠ none := by
  rw [insert_eq_none, List.mem_map]
  constructor
  · rintro ⟨x, hx, hkey⟩ hnone
    exact find?_eq_none.mp hnone x hx hkey
  · intro hfound
    obtain ⟨x, hx⟩ := Option.ne_none_iff_exists'.mp hfound
    exact ⟨x, find?_mem hx, find?_key hx⟩

theorem insert_rows {t t' : Table κ ρ key} {r : ρ} (h : t.insert r = some t') :
    t'.rows = t.rows ++ [r] := by
  unfold insert at h
  split at h
  · cases h
  · cases h
    rfl

theorem mem_insert {t t' : Table κ ρ key} {r x : ρ} (h : t.insert r = some t') :
    x ∈ t'.rows ↔ x ∈ t.rows ∨ x = r := by
  rw [insert_rows h, List.mem_append, List.mem_singleton]

/-- `INSERT ... ON CONFLICT (key) DO NOTHING` adds no row but the new one. -/
theorem mem_insert_getD {t : Table κ ρ key} {r x : ρ} (h : x ∈ ((t.insert r).getD t).rows) :
    x ∈ t.rows ∨ x = r := by
  cases hins : t.insert r with
  | none =>
      rw [hins] at h
      exact Or.inl h
  | some t' =>
      rw [hins] at h
      exact (mem_insert hins).mp h

theorem find?_insert {t t' : Table κ ρ key} {r : ρ} (h : t.insert r = some t') (k : κ) :
    t'.find? k = if k = key r then some r else t.find? k := by
  have hnew : key r ∉ t.rows.map key := by
    intro hmem
    rw [insert_eq_none.mpr hmem] at h
    cases h
  rw [find?, insert_rows h, List.find?_append]
  by_cases hk : k = key r
  · subst hk
    have hnone : t.find? (key r) = none := by
      rw [find?_eq_none]
      intro x hx he
      exact hnew (he ▸ List.mem_map_of_mem hx)
    rw [find?] at hnone
    simp [hnone]
  · have hne : key r ≠ k := fun he => hk he.symm
    simp [find?, hk, hne]

theorem find?_upsert (t : Table κ ρ key) (r : ρ) (k : κ) :
    (t.upsert r).find? k = if k = key r then some r else t.find? k := by
  unfold upsert
  split
  · rename_i t' h
    exact find?_insert h k
  · rename_i h
    rw [find?_updateWhere]
    cases hf : t.find? k with
    | none =>
        have hne : k ≠ key r := by
          rintro rfl
          rw [insert_eq_none, List.mem_map] at h
          obtain ⟨x, hx, hkey⟩ := h
          exact find?_eq_none.mp hf x hx hkey
        simp [hne]
    | some x =>
        obtain rfl := find?_key hf
        by_cases hk : key x = key r <;> simp [hk]

theorem mem_upsert {t : Table κ ρ key} {r x : ρ} (h : x ∈ (t.upsert r).rows) :
    x ∈ t.rows ∨ x = r := by
  have hfound := find?_of_mem h
  rw [find?_upsert] at hfound
  split at hfound
  · exact Or.inr (Option.some.inj hfound).symm
  · exact Or.inl (find?_mem hfound)

/-- A mapping built from a list of rows: a later row replaces an earlier one with its key. -/
def ofList (rows : List ρ) : Table κ ρ key := rows.foldl upsert empty

theorem mem_ofList {rows : List ρ} {x : ρ}
    (h : x ∈ (ofList rows : Table κ ρ key).rows) : x ∈ rows := by
  have hfold : ∀ (rows : List ρ) (t : Table κ ρ key), x ∈ (rows.foldl upsert t).rows →
      x ∈ t.rows ∨ x ∈ rows := by
    intro rows
    induction rows with
    | nil => exact fun t ht => Or.inl ht
    | cons r rows ih =>
        intro t ht
        rcases ih (t.upsert r) ht with hfirst | hrest
        · rcases mem_upsert hfirst with hold | rfl
          · exact Or.inl hold
          · exact Or.inr List.mem_cons_self
        · exact Or.inr (List.mem_cons_of_mem r hrest)
  rcases hfold rows empty h with hempty | hmem
  · cases hempty
  · exact hmem

theorem find?_ofList_isSome {rows : List ρ} {r : ρ} (h : r ∈ rows) :
    ((ofList rows : Table κ ρ key).find? (key r)).isSome := by
  have hfold : ∀ (rows : List ρ) (t : Table κ ρ key), (t.find? (key r)).isSome ∨ r ∈ rows →
      ((rows.foldl upsert t).find? (key r)).isSome := by
    intro rows
    induction rows with
    | nil =>
        rintro t (hfound | hnone)
        · exact hfound
        · cases hnone
    | cons x rows ih =>
        intro t ht
        apply ih
        rw [find?_upsert]
        split
        · exact Or.inl rfl
        · rename_i hne
          rcases ht with hfound | hmem
          · exact Or.inl hfound
          · rcases List.mem_cons.mp hmem with rfl | hrest
            · exact absurd rfl hne
            · exact Or.inr hrest
  exact hfold rows empty (Or.inr h)

theorem upsert_rows_of_fresh {t : Table κ ρ key} {r : ρ} (h : t.find? (key r) = none) :
    (t.upsert r).rows = t.rows ++ [r] := by
  unfold upsert
  split
  · rename_i t' hins
    exact insert_rows hins
  · rename_i hins
    rw [insert_eq_none, List.mem_map] at hins
    obtain ⟨x, hx, hkey⟩ := hins
    exact absurd hkey (find?_eq_none.mp h x hx)

/-! ## Reading back a delete -/

theorem find?_delete (t : Table κ ρ key) (k k' : κ) :
    (t.delete k).find? k' = if k' = k then none else t.find? k' := by
  by_cases hk : k' = k
  · rw [if_pos hk, find?_eq_none]
    intro r hr
    have hr := (List.mem_filter.mp hr).2
    rw [decide_eq_true_eq] at hr
    rw [hk]
    exact hr
  · rw [if_neg hk]
    cases hf : t.find? k' with
    | none =>
        rw [find?_eq_none] at hf ⊢
        intro r hr
        exact hf r (List.mem_of_mem_filter hr)
    | some r =>
        obtain rfl := find?_key hf
        exact find?_of_mem (List.mem_filter.mpr ⟨find?_mem hf, by simpa using hk⟩)

/-- A delete takes out the row it finds. -/
theorem perm_delete {t : Table κ ρ key} {k : κ} {r : ρ} (h : t.find? k = some r) :
    t.rows.Perm (r :: (t.delete k).rows) := by
  obtain rfl := find?_key h
  have hmem := find?_mem h
  obtain ⟨rows, nodup⟩ := t
  simp only [delete] at hmem ⊢
  clear h
  induction rows with
  | nil => cases hmem
  | cons x xs ih =>
      rw [List.map_cons, List.nodup_cons] at nodup
      rcases List.mem_cons.mp hmem with heq | hx
      · subst heq
        have hrest : xs.filter (fun y => key y ≠ key r) = xs := by
          rw [List.filter_eq_self]
          intro y hy
          rw [decide_eq_true_eq]
          intro hkey
          exact nodup.1 (hkey ▸ List.mem_map_of_mem hy)
        rw [List.filter_cons_of_neg (by simp), hrest]
      · have hne : key x ≠ key r := by
          intro hkey
          exact nodup.1 (hkey ▸ List.mem_map_of_mem hx)
        rw [List.filter_cons_of_pos (by simpa using hne)]
        exact ((ih nodup.2 hx).cons x).trans (List.Perm.swap _ _ _)

theorem delete_update (t : Table κ ρ key) (k : κ) (f : ρ → ρ) (keeps : ∀ r, key (f r) = key r) :
    ((t.update k f keeps).delete k).rows = (t.delete k).rows := by
  simp only [delete, update, updateWhere, List.filter_map]
  have hsame : t.rows.filter ((fun r => decide (key r ≠ k)) ∘
      fun r => if decide (key r = k) = true then f r else r) =
      t.rows.filter fun r => key r ≠ k := by
    apply List.filter_congr
    intro r _
    by_cases hk : key r = k <;> simp [hk, keeps]
  rw [hsame]
  have hid : ∀ r ∈ t.rows.filter fun r => key r ≠ k,
      (if decide (key r = k) = true then f r else r) = r := by
    intro r hr
    have hne := (List.mem_filter.mp hr).2
    rw [decide_eq_true_eq] at hne
    simp [hne]
  exact (List.map_congr_left hid).trans (List.map_id _)

/-- What an update by key changes in a column total. -/
theorem sum_update {M : Type*} [AddCommGroup M] {t : Table κ ρ key} {k : κ} {r : ρ}
    (h : t.find? k = some r) (f : ρ → ρ) (keeps : ∀ r, key (f r) = key r) (g : ρ → M) :
    ((t.update k f keeps).rows.map g).sum = (t.rows.map g).sum - g r + g (f r) := by
  have hnew : (t.update k f keeps).find? k = some (f r) := by
    rw [find?_update, h, Option.map_some]
  have hold := ((perm_delete h).map g).sum_eq
  have hupdated := ((perm_delete hnew).map g).sum_eq
  rw [delete_update] at hupdated
  rw [hupdated, hold, List.map_cons, List.map_cons, List.sum_cons, List.sum_cons]
  abel

/-! ## What an upsert replaces -/

theorem upsert_delete_rows (t : Table κ ρ key) (r : ρ) :
    ((t.upsert r).delete (key r)).rows = (t.delete (key r)).rows := by
  unfold upsert
  split
  · rename_i t' hins
    change t'.rows.filter _ = t.rows.filter _
    rw [insert_rows hins, List.filter_append]
    simp
  · change ((t.rows.map _).filter _) = t.rows.filter _
    induction t.rows with
    | nil => rfl
    | cons x rows ih => by_cases hx : key x = key r <;> simp [hx] <;> simpa using ih

/-- An upsert puts the row in the place of the one with its key, if there is one. -/
theorem perm_upsert (t : Table κ ρ key) (r : ρ) :
    (t.upsert r).rows.Perm (r :: (t.delete (key r)).rows) := by
  have hfound : (t.upsert r).find? (key r) = some r := by
    rw [find?_upsert, if_pos rfl]
  have hperm := perm_delete hfound
  rwa [upsert_delete_rows] at hperm

/-- What an upsert changes in a column total. -/
theorem sum_upsert {M : Type*} [AddCommGroup M] (t : Table κ ρ key) (r : ρ) (g : ρ → M) :
    ((t.upsert r).rows.map g).sum =
      (t.rows.map g).sum - (t.find? (key r)).elim 0 g + g r := by
  have hupserted := ((perm_upsert t r).map g).sum_eq
  rw [hupserted, List.map_cons, List.sum_cons]
  cases hfound : t.find? (key r) with
  | none =>
      have hsame : (t.delete (key r)).rows = t.rows := by
        apply List.filter_eq_self.mpr
        intro x hx
        simpa using find?_eq_none.mp hfound x hx
      rw [hsame, Option.elim_none]
      abel
  | some old =>
      have hdeleted := ((perm_delete hfound).map g).sum_eq
      rw [List.map_cons, List.sum_cons] at hdeleted
      rw [Option.elim_some, hdeleted]
      abel

omit [DecidableEq κ] in
theorem sum_select {M : Type*} [AddCommMonoid M] (t : Table κ ρ key) (p : ρ → Bool) (g : ρ → M) :
    ((t.select p).map g).sum = (t.rows.map fun r => if p r then g r else 0).sum := by
  unfold select
  induction t.rows with
  | nil => rfl
  | cons x rows ih => by_cases hx : p x <;> simp [hx, ih]

/-- The rows that a later one with their key replaces. -/
def superseded (key : ρ → κ) : List ρ → List ρ
  | [] => []
  | r :: rows =>
      if rows.any (fun x => key x = key r) then r :: superseded key rows
      else superseded key rows

theorem superseded_eq_nil_iff {rows : List ρ} :
    superseded key rows = [] ↔ (rows.map key).Nodup := by
  induction rows with
  | nil => simp [superseded]
  | cons r rows ih =>
      rw [List.map_cons, List.nodup_cons, List.mem_map, ← ih, superseded]
      split
      · rename_i hlater
        obtain ⟨x, hx, hkey⟩ := List.any_eq_true.mp hlater
        rw [decide_eq_true_eq] at hkey
        exact iff_of_false (List.cons_ne_nil _ _) fun hfresh => hfresh.1 ⟨x, hx, hkey⟩
      · rename_i hlater
        refine ⟨fun hrest => ⟨?_, hrest⟩, fun hfresh => hfresh.2⟩
        rintro ⟨x, hx, hkey⟩
        exact hlater (List.any_eq_true.mpr ⟨x, hx, by rw [hkey, decide_eq_true_eq]⟩)

theorem ofList_rows_of_nodup {rows : List ρ} (h : (rows.map key).Nodup) :
    (ofList rows : Table κ ρ key).rows = rows := by
  have hfold : ∀ (rows : List ρ) (t : Table κ ρ key), ((t.rows ++ rows).map key).Nodup →
      (rows.foldl upsert t).rows = t.rows ++ rows := by
    intro rows
    induction rows with
    | nil => exact fun t _ => (List.append_nil t.rows).symm
    | cons r rows ih =>
        intro t hnodup
        have hfresh : t.find? (key r) = none := by
          rw [find?_eq_none]
          intro x hx hkey
          rw [List.map_append, List.nodup_append] at hnodup
          exact hnodup.2.2 (key x) (List.mem_map_of_mem hx) (key r) (by simp) hkey
        have hrows := upsert_rows_of_fresh hfresh
        have hrest := ih (t.upsert r) (by rwa [hrows, List.append_assoc])
        rw [List.foldl_cons, hrest, hrows, List.append_assoc]
        rfl
  exact hfold rows empty h

theorem perm_ofList (rows : List ρ) :
    rows.Perm ((ofList rows : Table κ ρ key).rows ++ superseded key rows) := by
  classical
  have hfilter : ∀ (p : ρ → Bool) (a : ρ) (l : List ρ),
      (l.filter p).count a = if p a = true then l.count a else 0 := by
    intro p a l
    split
    · rename_i ha
      exact List.count_filter ha
    · rename_i ha
      exact List.count_eq_zero_of_not_mem fun hmem => ha (List.mem_filter.mp hmem).2
  have hfold : ∀ (rows : List ρ) (t : Table κ ρ key), (t.rows ++ rows).Perm
      ((rows.foldl upsert t).rows ++ superseded key rows ++
        t.rows.filter fun x => rows.any fun y => key y = key x) := by
    intro rows
    induction rows with
    | nil => simp [superseded]
    | cons r rows ih =>
        intro t
        have hrest := ih (t.upsert r)
        have hupsert := perm_upsert t r
        rw [List.perm_iff_count] at hrest hupsert ⊢
        intro a
        have hrest := hrest a
        have hupsert := hupsert a
        simp only [delete, List.count_append, List.count_cons, hfilter, List.foldl_cons,
          superseded, List.any_cons, Bool.or_eq_true, decide_eq_true_eq] at hrest hupsert ⊢
        by_cases hkey : key a = key r <;> grind
  simpa [ofList, empty] using hfold rows empty

end Table

/-! ## The latest row -/

variable {ρ τ : Type*} [LinearOrder τ] {time : ρ → Option τ} {rows : List ρ} {last : ρ}

/-- `ORDER BY time DESC NULLS LAST LIMIT 1` -/
def latest (time : ρ → Option τ) (rows : List ρ) : Option ρ :=
  rows.argmax fun row => (time row).elim (⊥ : WithBot τ) WithBot.some

theorem mem_of_latest (h : latest time rows = some last) : last ∈ rows := List.argmax_mem h

theorem le_of_latest (h : latest time rows = some last) {row : ρ} (hrow : row ∈ rows) {t u : τ}
    (hrowTime : time row = some t) (hlastTime : time last = some u) : t ≤ u := by
  have hle := List.le_of_mem_argmax hrow h
  rw [hrowTime, hlastTime] at hle
  exact WithBot.coe_le_coe.mp hle

end TradingPlatform.Base
