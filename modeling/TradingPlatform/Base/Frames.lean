import Mathlib.Algebra.BigOperators.Group.List.Basic
import Mathlib.Data.List.Dedup
import TradingPlatform.Base.LastRow

/-! # Columns computed within groups

A window function hands the rows of a group, in the order of the frame, to a
function and puts its values back beside the rows. A running total that is
reversed, shifted by one and reversed again holds for each row what comes after
it in its group.
-/

namespace TradingPlatform.Base

section Windows

variable {ρ κ β M : Type*} [LinearOrder κ] {key : ρ → κ} {rows : List ρ}

def overFrom (key : ρ → κ) (f : List ρ → List β) : List ρ → List ρ → List (ρ × Option β)
  | _, [] => []
  | before, r :: after =>
      (r, (f (withKey key (before ++ r :: after) (key r)))[(withKey key before (key r)).length]?) ::
        overFrom key f (before ++ [r]) after

/-- `expression.over(key)` -/
def overKey (key : ρ → κ) (f : List ρ → List β) (rows : List ρ) : List (ρ × Option β) :=
  overFrom key f [] rows

/-- `shift(1, fill_value=fill)` -/
def shift (fill : M) (xs : List M) : List M := (fill :: xs).dropLast

/-- `cum_sum` and `cum_prod` -/
def cumulate (op : M → M → M) (unit : M) (xs : List M) : List M := (xs.scanl op unit).tail

/-- `reverse().cum_sum().shift(1, fill_value=unit).reverse()`, or with `cum_prod`. -/
def laterTotals (op : M → M → M) (unit : M) (xs : List M) : List M :=
  (shift unit (cumulate op unit xs.reverse)).reverse

theorem overFrom_eq_map {f : List ρ → List β} {g : ρ → Option β} (before rows : List ρ)
    (h : ∀ earlier r after, rows = earlier ++ r :: after →
      (f (withKey key (before ++ rows) (key r)))[(withKey key (before ++ earlier)
        (key r)).length]? = g r) :
    overFrom key f before rows = rows.map fun r => (r, g r) := by
  induction rows generalizing before with
  | nil => rfl
  | cons r after ih =>
      have hfirst := h [] r after rfl
      rw [List.append_nil] at hfirst
      rw [overFrom, hfirst, List.map_cons, ih]
      intro earlier s later hsplit
      have hs := h (r :: earlier) s later (by rw [hsplit, List.cons_append])
      rw [List.append_assoc, List.singleton_append, List.append_assoc, List.singleton_append]
      exact hs

theorem map_fst_overFrom {f : List ρ → List β} (before rows : List ρ) :
    (overFrom key f before rows).map Prod.fst = rows := by
  induction rows generalizing before with
  | nil => rfl
  | cons r after ih => rw [overFrom, List.map_cons, ih]

theorem length_overKey {f : List ρ → List β} : (overKey key f rows).length = rows.length := by
  rw [← List.length_map Prod.fst, overKey, map_fst_overFrom]

/-- A group is computed without the others. -/
theorem overFrom_filter {f : List ρ → List β} (k : κ) (before rows : List ρ) :
    (overFrom key f before rows).filter (fun p => key p.1 = k) =
      overFrom key f (withKey key before k) (withKey key rows k) := by
  have hagain : ∀ rows : List ρ, withKey key (withKey key rows k) k = withKey key rows k := by
    intro rows
    rw [withKey, withKey, List.filter_filter]
    simp only [Bool.and_self]
  induction rows generalizing before with
  | nil => rfl
  | cons r after ih =>
      rw [overFrom]
      by_cases hk : key r = k
      · have hbefore : withKey key (before ++ [r]) k = withKey key before k ++ [r] := by
          rw [withKey_append, withKey_cons_of_eq hk]
          rfl
        rw [List.filter_cons_of_pos (by simpa using hk), ih, hbefore, withKey_cons_of_eq hk,
          overFrom, hk, hagain, withKey_append, withKey_append, hagain,
          withKey_cons_of_eq hk, withKey_cons_of_eq hk, hagain]
      · have hbefore : withKey key (before ++ [r]) k = withKey key before k := by
          rw [withKey_append, withKey_cons_of_ne hk]
          exact List.append_nil _
        rw [List.filter_cons_of_neg (by simpa using hk), ih, hbefore, withKey_cons_of_ne hk]

theorem overKey_filter {f : List ρ → List β} (k : κ) (rows : List ρ) :
    (overKey key f rows).filter (fun p => key p.1 = k) = overKey key f (withKey key rows k) :=
  overFrom_filter k [] rows

/-- A window function, given what it is at each place. -/
theorem overKey_eq_map {f : List ρ → List β} {g : ρ → Option β}
    (h : ∀ earlier r after, rows = earlier ++ r :: after →
      (f (withKey key rows (key r)))[(withKey key earlier (key r)).length]? = g r) :
    overKey key f rows = rows.map fun r => (r, g r) := overFrom_eq_map [] rows h

/-- `with_columns(expression.over(key))` -/
def withColumn (key : ρ → κ) (f : List ρ → List β) (rows : List ρ) : List (ρ × β) :=
  (overKey key f rows).filterMap fun p => p.2.map fun value => (p.1, value)

/-- The column beside the rows, computed anew from itself. -/
def replaceColumn {γ : Type*} (key : ρ → κ) (f : List β → List γ) (frame : List (ρ × β)) :
    List (ρ × γ) :=
  (withColumn (fun p => key p.1) (fun group => f (group.map Prod.snd)) frame).map
    fun p => (p.1.1, p.2)

/-- Within each group, the values of a column in the order of the rows. -/
def HasColumn (key : ρ → κ) (rows : List ρ) (frame : List (ρ × β)) (column : κ → List β) : Prop :=
  ∀ k, (column k).length = (withKey key rows k).length ∧
    frame.filter (fun p => key p.1 = k) = (withKey key rows k).zip (column k)

theorem withColumn_filter (key : ρ → κ) (f : List ρ → List β) (k : κ) (rows : List ρ) :
    (withColumn key f rows).filter (fun p => key p.1 = k) =
      withColumn key f (withKey key rows k) := by
  unfold withColumn
  rw [← overKey_filter, List.filter_filterMap, List.filterMap_filter]
  apply List.filterMap_congr
  rintro ⟨r, value⟩ -
  cases value <;> by_cases hk : key r = k <;> simp [hk]

theorem withKey_eq_self {k : κ} (h : ∀ r ∈ rows, key r = k) : withKey key rows k = rows := by
  rw [withKey, List.filter_eq_self]
  simpa using h

theorem overFrom_of_key {f : List ρ → List β} {k : κ} {before : List ρ}
    (hbefore : ∀ r ∈ before, key r = k) (hrows : ∀ r ∈ rows, key r = k)
    (hlength : (f (before ++ rows)).length = (before ++ rows).length) :
    (overFrom key f before rows).filterMap (fun p => p.2.map fun value => (p.1, value)) =
      rows.zip ((f (before ++ rows)).drop before.length) := by
  induction rows generalizing before with
  | nil => rfl
  | cons r rows ih =>
      have hr : key r = k := hrows r (by simp)
      have hall : ∀ s ∈ before ++ r :: rows, key s = k := by
        intro s hs
        rcases List.mem_append.mp hs with hs | hs
        · exact hbefore s hs
        · exact hrows s hs
      have hnext : ∀ s ∈ before ++ [r], key s = k := by
        intro s hs
        exact hall s (by simp at hs ⊢; tauto)
      have hlt : before.length < (f (before ++ r :: rows)).length := by
        rw [hlength]
        simp
      have happend : before ++ [r] ++ rows = before ++ r :: rows := by simp
      have hrest := ih hnext (fun s hs => hrows s (by simp [hs])) (by rw [happend, hlength])
      rw [happend, List.length_append, List.length_singleton] at hrest
      rw [overFrom, hr, withKey_eq_self hbefore, withKey_eq_self hall, List.getElem?_eq_getElem hlt,
        List.drop_eq_getElem_cons hlt, List.zip_cons_cons, ← hrest]
      rfl

/-- Within one group the function gives the whole column. -/
theorem withColumn_of_key {f : List ρ → List β} {k : κ} (hrows : ∀ r ∈ rows, key r = k)
    (hlength : (f rows).length = rows.length) : withColumn key f rows = rows.zip (f rows) :=
  overFrom_of_key (by simp) hrows hlength

theorem key_eq_of_mem_withKey {k : κ} {r : ρ} (h : r ∈ withKey key rows k) : key r = k := by
  simpa using (List.mem_filter.mp h).2

theorem hasColumn_withColumn {f : List ρ → List β}
    (hlength : ∀ k, (f (withKey key rows k)).length = (withKey key rows k).length) :
    HasColumn key rows (withColumn key f rows) fun k => f (withKey key rows k) := by
  intro k
  refine ⟨hlength k, ?_⟩
  rw [withColumn_filter, withColumn_of_key (fun r => key_eq_of_mem_withKey) (hlength k)]

theorem HasColumn.replaceColumn {γ : Type*} {f : List β → List γ} {frame : List (ρ × β)}
    {column : κ → List β} (h : HasColumn key rows frame column)
    (hlength : ∀ k, (f (column k)).length = (column k).length) :
    HasColumn key rows (replaceColumn key f frame) fun k => f (column k) := by
  intro k
  obtain ⟨hcolumn, hframe⟩ := h k
  have hgroup : withKey (fun p => key p.1) frame k = (withKey key rows k).zip (column k) := hframe
  have hvalues : ((withKey key rows k).zip (column k)).map Prod.snd = column k :=
    List.map_snd_zip hcolumn.le
  have hwidth : ((withKey key rows k).zip (column k)).length = (column k).length := by
    rw [List.length_zip, hcolumn, min_self]
  have hkey : ∀ p ∈ (withKey key rows k).zip (column k), key p.1 = k := fun p hp =>
    key_eq_of_mem_withKey (List.of_mem_zip hp).1
  have hnew : withColumn (fun p => key p.1) (fun group => f (group.map Prod.snd))
      ((withKey key rows k).zip (column k)) =
        ((withKey key rows k).zip (column k)).zip (f (column k)) := by
    rw [withColumn_of_key hkey (by rw [hvalues, hlength, hwidth]), hvalues]
  refine ⟨(hlength k).trans hcolumn, ?_⟩
  have hfilter := withColumn_filter (fun p : ρ × β => key p.1)
    (fun group => f (group.map Prod.snd)) k frame
  rw [hgroup, hnew] at hfilter
  unfold Base.replaceColumn
  rw [List.filter_map]
  show List.map (Prod.map Prod.fst id)
    (List.filter (fun p : (ρ × β) × γ => decide (key p.1.1 = k)) _) = _
  rw [hfilter, ← List.zip_map_left, List.map_fst_zip hcolumn.ge]

theorem HasColumn.map {γ : Type*} {f : β → γ} {frame : List (ρ × β)} {column : κ → List β}
    (h : HasColumn key rows frame column) :
    HasColumn key rows (frame.map fun p => (p.1, f p.2)) fun k => (column k).map f := by
  intro k
  obtain ⟨hcolumn, hframe⟩ := h k
  refine ⟨by rw [List.length_map, hcolumn], ?_⟩
  rw [List.filter_map, List.zip_map_right, ← hframe]
  rfl

theorem laterTotals_eq {op : M → M → M} {unit : M} (xs : List M) :
    laterTotals op unit xs = (xs.scanr (fun x total => op total x) unit).tail := by
  have hshift : ∀ ys : List M, shift unit (cumulate op unit ys) =
      (ys.scanl op unit).dropLast := by
    intro ys
    unfold shift cumulate
    congr 1
    cases ys with
    | nil => simp
    | cons y ys => simp
  rw [laterTotals, hshift, List.scanl_reverse, List.dropLast_reverse, List.reverse_reverse]
  rfl

theorem getElem?_laterTotals {op : M → M → M} {unit : M} (before : List M) (x : M)
    (after : List M) :
    (laterTotals op unit (before ++ x :: after))[before.length]? =
      some (after.foldr (fun y total => op total y) unit) := by
  rw [laterTotals_eq, List.getElem?_tail, List.getElem?_scanr_of_lt (by simp)]
  simp

theorem getElem?_shift {fill : M} (before : List M) (x : M) (after : List M) :
    (shift fill (before ++ x :: after))[before.length]? = some (before.getLast?.getD fill) := by
  induction before generalizing fill with
  | nil => rfl
  | cons y before ih =>
      have hrest := @ih y
      unfold shift at hrest ⊢
      rw [List.cons_append, List.dropLast_cons_of_ne_nil (by simp), List.length_cons,
        List.getElem?_cons_succ, hrest, List.getLast?_cons]
      rfl

theorem foldr_mul_eq_prod [CommMonoid M] (xs : List M) :
    xs.foldr (fun y total => total * y) 1 = xs.prod := by
  induction xs with
  | nil => rfl
  | cons x xs ih => rw [List.foldr_cons, ih, List.prod_cons, mul_comm]

end Windows

/-! ## Sorted frames -/

section Sorted

variable {ρ κ ω M : Type*} [LinearOrder κ] [LinearOrder ω] {key : ρ → κ} {order : ρ → ω}
variable {rows earlier after : List ρ} {r : ρ}

theorem withKey_after (hsorted : rows.Pairwise fun r s => order r < order s)
    (hsplit : rows = earlier ++ r :: after) :
    withKey key after (key r) = rows.filter fun s => key s = key r ∧ order r < order s := by
  subst hsplit
  rw [List.pairwise_append, List.pairwise_cons] at hsorted
  obtain ⟨-, ⟨hafter, -⟩, hearlier⟩ := hsorted
  have hnone : earlier.filter (fun s => key s = key r ∧ order r < order s) = [] := by
    rw [List.filter_eq_nil_iff]
    intro s hs
    have hlt := hearlier s hs r List.mem_cons_self
    simp [hlt.le]
  rw [List.filter_append, hnone, List.nil_append, List.filter_cons_of_neg (by simp), withKey]
  apply List.filter_congr
  intro s hs
  simp [hafter s hs]

theorem withKey_earlier (hsorted : rows.Pairwise fun r s => order r < order s)
    (hsplit : rows = earlier ++ r :: after) :
    withKey key earlier (key r) = rows.filter fun s => key s = key r ∧ order s < order r := by
  subst hsplit
  rw [List.pairwise_append, List.pairwise_cons] at hsorted
  obtain ⟨-, ⟨hafter, -⟩, hearlier⟩ := hsorted
  have hnone : after.filter (fun s => key s = key r ∧ order s < order r) = [] := by
    rw [List.filter_eq_nil_iff]
    intro s hs
    have hlt := hafter s hs
    simp [hlt.le]
  rw [List.filter_append, List.filter_cons_of_neg (by simp), hnone, List.append_nil, withKey]
  apply List.filter_congr
  intro s hs
  simp [hearlier s hs r List.mem_cons_self]

theorem withKey_split (hsplit : rows = earlier ++ r :: after) :
    withKey key rows (key r) =
      withKey key earlier (key r) ++ r :: withKey key after (key r) := by
  rw [hsplit, withKey_append, withKey_cons_of_eq rfl]

theorem strictly_sortByKey (hnodup : (rows.map order).Nodup) :
    (sortByKey order rows).Pairwise fun r s => order r < order s := by
  have hne := List.pairwise_map.mp (nodup_sortByKey.mpr hnodup)
  exact (pairwise_sortByKey rows).imp₂ (fun _ _ hle hne => lt_of_le_of_ne hle hne) hne

/-- Rows that are in order already are what sorting gives. -/
theorem sortByKey_eq {rows' : List ρ} (hperm : rows.Perm rows')
    (hsorted : rows'.Pairwise fun r s => order r < order s) : sortByKey order rows = rows' := by
  have hnodup : (rows'.map order).Nodup := by
    rw [List.Nodup, List.pairwise_map]
    exact hsorted.imp ne_of_lt
  apply eq_of_mem_iff (pairwise_sortByKey rows) (hsorted.imp le_of_lt)
  · exact nodup_sortByKey.mpr ((hperm.map order).nodup_iff.mpr hnodup)
  · exact hnodup
  · intro r
    rw [mem_sortByKey, hperm.mem_iff]

/-- The last of the rows that are meant is the greatest. -/
theorem getLast?_filter_iff {p : ρ → Bool}
    (hsorted : rows.Pairwise fun r s => order r < order s) :
    (rows.filter p).getLast? = some r ↔
      r ∈ rows ∧ p r = true ∧ ∀ s ∈ rows, p s = true → order s ≤ order r := by
  have hfiltered := hsorted.filter p
  constructor
  · intro hlast
    have hmem := List.mem_filter.mp (List.mem_of_getLast? hlast)
    refine ⟨hmem.1, hmem.2, ?_⟩
    intro s hs hp
    obtain ⟨front, hfront⟩ := List.getLast?_eq_some_iff.mp hlast
    have hin : s ∈ rows.filter p := List.mem_filter.mpr ⟨hs, hp⟩
    rw [hfront] at hin hfiltered
    rcases List.mem_append.mp hin with hbefore | hlast
    · exact ((List.pairwise_append.mp hfiltered).2.2 s hbefore r List.mem_cons_self).le
    · rw [List.mem_singleton.mp hlast]
  · intro ⟨hr, hp, hgreatest⟩
    have hin : r ∈ rows.filter p := List.mem_filter.mpr ⟨hr, hp⟩
    obtain ⟨front, after, hsplit⟩ := List.append_of_mem hin
    cases after with
    | nil => rw [hsplit, List.getLast?_append, List.getLast?_singleton, Option.some_or]
    | cons s after =>
        have hs : s ∈ rows.filter p := by
          rw [hsplit]
          simp
        have hle := hgreatest s (List.mem_filter.mp hs).1 (List.mem_filter.mp hs).2
        rw [hsplit] at hfiltered
        have hlt := (List.pairwise_cons.mp (List.pairwise_append.mp hfiltered).2.1).1 s
          List.mem_cons_self
        exact absurd hle (not_le.mpr hlt)

/-- The running product holds the product over what comes later in the group. -/
theorem overKey_laterTotals [CommMonoid M] {value : ρ → M}
    (hsorted : rows.Pairwise fun r s => order r < order s) :
    overKey key (fun group => laterTotals (· * ·) 1 (group.map value)) rows =
      rows.map fun r => (r, some ((rows.filter fun s =>
        key s = key r ∧ order r < order s).map value).prod) := by
  apply overKey_eq_map
  intro earlier r after hsplit
  rw [withKey_split hsplit, List.map_append, List.map_cons, ← List.length_map value,
    getElem?_laterTotals, foldr_mul_eq_prod, withKey_after hsorted hsplit]

/-- A shift by one holds the value of the row before in the group. -/
theorem overKey_shift {value : ρ → Option M}
    (hsorted : rows.Pairwise fun r s => order r < order s) :
    overKey key (fun group => shift none (group.map value)) rows =
      rows.map fun r => (r, some ((rows.filter fun s =>
        key s = key r ∧ order s < order r).getLast?.bind value)) := by
  apply overKey_eq_map
  intro earlier r after hsplit
  rw [withKey_split hsplit, List.map_append, List.map_cons, ← List.length_map value,
    getElem?_shift, withKey_earlier hsorted hsplit, List.getLast?_map]
  cases (rows.filter fun s => key s = key r ∧ order s < order r).getLast? <;> rfl

end Sorted

/-! ## Joins -/

section Joins

variable {ρ σ κ M : Type*} [LinearOrder κ] {key : ρ → κ} {key' : σ → κ} {value : σ → M}
variable {fill : M} {rows : List ρ} {others : List σ}

/-- The matches of a row, or the row with a null that is filled. -/
def joinRow (key : ρ → κ) (key' : σ → κ) (value : σ → M) (fill : M) (others : List σ) (r : ρ) :
    List (ρ × M) :=
  match withKey key' others (key r) with
  | [] => [(r, fill)]
  | s :: matched => (s :: matched).map fun s => (r, value s)

/-- `join(others, on=key, how="left")` and `fill_null(fill)` of the column that is joined. -/
def leftJoin (key : ρ → κ) (key' : σ → κ) (value : σ → M) (fill : M) (rows : List ρ)
    (others : List σ) : List (ρ × M) :=
  rows.flatMap (joinRow key key' value fill others)

theorem leftJoin_cons (r : ρ) (rows : List ρ) :
    leftJoin key key' value fill (r :: rows) others =
      joinRow key key' value fill others r ++ leftJoin key key' value fill rows others :=
  List.flatMap_cons ..

theorem fst_of_mem_joinRow {r : ρ} {q : ρ × M} (h : q ∈ joinRow key key' value fill others r) :
    q.1 = r := by
  unfold joinRow at h
  split at h
  · rw [List.mem_singleton.mp h]
  · obtain ⟨s, -, rfl⟩ := List.mem_map.mp h
    rfl

/-- Rows of the left frame that are left out are left out of the join. -/
theorem leftJoin_filter (p : ρ → Bool) (rows : List ρ) :
    (leftJoin key key' value fill rows others).filter (fun q => p q.1) =
      leftJoin key key' value fill (rows.filter p) others := by
  induction rows with
  | nil => rfl
  | cons r rows ih =>
      rw [leftJoin_cons, List.filter_append, ih]
      by_cases hp : p r = true
      · rw [List.filter_cons_of_pos hp, leftJoin_cons, List.filter_eq_self.mpr]
        intro q hq
        rw [fst_of_mem_joinRow hq]
        exact hp
      · rw [List.filter_cons_of_neg hp, List.filter_eq_nil_iff.mpr, List.nil_append]
        intro q hq
        rw [fst_of_mem_joinRow hq]
        exact hp

/-- A join repeats a row for every other match. -/
theorem length_leftJoin (rows : List ρ) :
    rows.length ≤ (leftJoin key key' value fill rows others).length ∧
      ((leftJoin key key' value fill rows others).length = rows.length ↔
        ∀ r ∈ rows, (withKey key' others (key r)).length ≤ 1) := by
  induction rows with
  | nil => simp [leftJoin]
  | cons r rows ih =>
      obtain ⟨hle, hiff⟩ := ih
      rw [leftJoin_cons, List.forall_mem_cons, ← hiff, joinRow]
      cases hmatched : withKey key' others (key r) with
      | nil =>
          simp only [List.length_append, List.length_cons, List.length_nil]
          omega
      | cons s matched =>
          simp only [List.length_append, List.length_cons, List.length_map]
          omega

/-- With one match at most, the rows stay as they are. -/
theorem leftJoin_eq_map (h : ∀ r ∈ rows, (withKey key' others (key r)).length ≤ 1) :
    leftJoin key key' value fill rows others =
      rows.map fun r => (r, (withKey key' others (key r)).head?.elim fill value) := by
  induction rows with
  | nil => rfl
  | cons r rows ih =>
      rw [List.forall_mem_cons] at h
      rw [leftJoin_cons, ih h.2, List.map_cons, joinRow]
      cases hmatched : withKey key' others (key r) with
      | nil => rfl
      | cons s matched =>
          rw [hmatched, List.length_cons] at h
          have hnone : matched = [] := List.eq_nil_of_length_eq_zero (by omega)
          rw [hnone]
          rfl

theorem length_withKey_le_one (hnodup : (others.map key').Nodup) (k : κ) :
    (withKey key' others k).length ≤ 1 := by
  induction others with
  | nil => simp [withKey]
  | cons s others ih =>
      obtain ⟨hs, hothers⟩ := List.nodup_cons.mp hnodup
      by_cases hk : key' s = k
      · have hnone : withKey key' others k = [] := by
          rw [withKey, List.filter_eq_nil_iff]
          intro s' hs' hkey
          exact hs (List.mem_map.mpr ⟨s', hs', (by simpa using hkey : key' s' = k).trans hk.symm⟩)
        rw [withKey_cons_of_eq hk, hnone, List.length_singleton]
      · rw [withKey_cons_of_ne hk]
        exact ih hothers

/-- A join with a frame of one value for each of some keys. -/
theorem leftJoin_values {ks : List κ} {f : κ → M} (hnodup : ks.Nodup) (rows : List ρ) :
    leftJoin key Prod.fst Prod.snd fill rows (ks.map fun k => (k, f k)) =
      rows.map fun r => (r, if key r ∈ ks then f (key r) else fill) := by
  have hunique : ((ks.map fun k => (k, f k)).map Prod.fst).Nodup := by
    simpa [List.map_map, Function.comp_def] using hnodup
  rw [leftJoin_eq_map fun r _ => length_withKey_le_one hunique (key r)]
  apply List.map_congr_left
  intro r _
  have hlookup : withKey Prod.fst (ks.map fun k => (k, f k)) (key r) =
      (List.replicate (ks.count (key r)) (key r)).map fun k => (k, f k) := by
    rw [withKey, List.filter_map, ← List.filter_eq]
    rfl
  rw [hlookup]
  by_cases hkey : key r ∈ ks
  · rw [if_pos hkey, List.count_eq_one_of_mem hnodup hkey]
    rfl
  · rw [if_neg hkey, List.count_eq_zero_of_not_mem hkey]
    rfl

omit [LinearOrder κ] in
/-- Two columns over the same keys agree row by row. -/
theorem eq_of_perm_map {f g : ρ → ρ} (hnodup : (rows.map key).Nodup)
    (hf : ∀ r, key (f r) = key r) (hg : ∀ r, key (g r) = key r)
    (hperm : (rows.map f).Perm (rows.map g)) : ∀ r ∈ rows, f r = g r := by
  intro r hr
  have hmem : f r ∈ rows.map g := hperm.mem_iff.mp (List.mem_map_of_mem hr)
  obtain ⟨r', hr', heq⟩ := List.mem_map.mp hmem
  have hkey : key r' = key r := by rw [← hg, heq, hf]
  rw [List.inj_on_of_nodup_map hnodup hr' hr hkey] at heq
  exact heq.symm

/-- `join(others, on=key, how="inner")` -/
def innerJoin (key : ρ → κ) (key' : σ → κ) (rows : List ρ) (others : List σ) : List (ρ × σ) :=
  rows.flatMap fun r => (withKey key' others (key r)).map fun s => (r, s)

theorem mem_innerJoin {q : ρ × σ} : q ∈ innerJoin key key' rows others ↔
    q.1 ∈ rows ∧ q.2 ∈ others ∧ key' q.2 = key q.1 := by
  simp only [innerJoin, List.mem_flatMap, List.mem_map, withKey, List.mem_filter,
    decide_eq_true_eq]
  constructor
  · rintro ⟨r, hr, s, hs, rfl⟩
    exact ⟨hr, hs⟩
  · rintro ⟨hr, hs⟩
    exact ⟨q.1, hr, q.2, hs, rfl⟩

variable [CommMonoid M]

theorem head_elim_eq_prod {matched : List σ} (h : matched.length ≤ 1) :
    matched.head?.elim 1 value = (matched.map value).prod := by
  match matched with
  | [] => rfl
  | [s] => simp
  | s :: s' :: matched => simp at h

theorem prod_indicator {ks : List κ} (hnodup : ks.Nodup) (k : κ) (x : M) :
    (ks.map fun k' => if k' = k then x else 1).prod = if k ∈ ks then x else 1 := by
  induction ks with
  | nil => rfl
  | cons k' ks ih =>
      obtain ⟨hk', hks⟩ := List.nodup_cons.mp hnodup
      by_cases hk : k' = k
      · subst hk
        simp [ih hks, hk']
      · simp [ih hks, hk, Ne.symm hk]

/-- The products of the groups multiply to that of the rows in them. -/
theorem prod_groups {ks : List κ} (hnodup : ks.Nodup) :
    (ks.map fun k => ((withKey key' others k).map value).prod).prod =
      ((others.filter fun s => key' s ∈ ks).map value).prod := by
  induction others with
  | nil => simp [withKey]
  | cons s others ih =>
      have hgroup : ∀ k, ((withKey key' (s :: others) k).map value).prod =
          (if k = key' s then value s else 1) * ((withKey key' others k).map value).prod := by
        intro k
        by_cases hk : k = key' s
        · rw [hk, withKey_cons_of_eq rfl, List.map_cons, List.prod_cons, if_pos rfl]
        · rw [withKey_cons_of_ne (Ne.symm hk), if_neg hk, one_mul]
      simp only [hgroup]
      rw [List.prod_map_mul, ih, prod_indicator hnodup]
      by_cases hs : key' s ∈ ks
      · rw [List.filter_cons_of_pos (by simpa using hs), List.map_cons, List.prod_cons, if_pos hs]
      · rw [List.filter_cons_of_neg (by simpa using hs), if_neg hs, one_mul]

end Joins

end TradingPlatform.Base
