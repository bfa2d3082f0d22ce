import Mathlib.Algebra.Order.BigOperators.GroupWithZero.List
import TradingPlatform.Data.ReadTimeAdjustment

/-! # The factor of a row

Both adjustments are meant to divide by the ratios of all later splits. The join of
`adjust_for_splits` only sees the splits of dates that have a row and repeats a row
for each of them; the timeline of `derive_split_adjusted_prices` has all dates.
-/

namespace TradingPlatform.Data

open Base

/-- The ratios of a symbol after a date, multiplied. -/
def splitsAfter (splits : List ActionRow) (symbol : String) (date : Int) : ℚ :=
  ((splits.filter fun a => a.symbol = symbol ∧ date < a.date).map (·.amount)).prod

/-- Those of dates that have no row. -/
def offCalendarAfter (df : List OhlcvRow) (splits : List ActionRow) (r : OhlcvRow) : ℚ :=
  ((splits.filter fun a => (a.symbol = r.symbol ∧ r.date < a.date) ∧
    a.key ∉ df.map OhlcvRow.key).map (·.amount)).prod

/-- A row that no factor changes. -/
def OhlcvRow.Blank (r : OhlcvRow) : Prop :=
  ∀ column ∈ [r.openPrice, r.high, r.low, r.close, r.volume], ∀ x ∈ column, x = 0

/-- Each row once, divided by the later ratios. -/
def SplitsExact (df : List OhlcvRow) (splits : List ActionRow) : Prop :=
  (adjustForSplits df splits).Perm
    (df.map fun r => r.divideBy (splitsAfter splits r.symbol r.date))

/-- The split dates that matter have a row, and have one split each. -/
def SplitsOnCalendar (df : List OhlcvRow) (splits : List ActionRow) : Prop :=
  ∀ r ∈ df, (withKey ActionRow.key splits r.key).length ≤ 1 ∧
    (r.Blank ∨ offCalendarAfter df splits r = 1)

/-! ## Splits that are joined -/

section Joined

variable {df : List OhlcvRow} {splits : List ActionRow}

theorem divideBy_key (split : ℚ) (r : OhlcvRow) : (r.divideBy split).key = r.key := rfl

theorem splitsAfter_eq (r : OhlcvRow) :
    splitsAfter splits r.symbol r.date =
      laterJoined ActionRow.amount df splits r * offCalendarAfter df splits r := by
  have hsplit := List.prod_map_filter_mul_prod_map_filter_not
    (fun a : ActionRow => a.key ∈ df.map OhlcvRow.key) (·.amount)
    (splits.filter fun a => a.symbol = r.symbol ∧ r.date < a.date)
  rw [List.filter_filter, List.filter_filter] at hsplit
  rw [splitsAfter, ← hsplit, laterJoined, offCalendarAfter]
  simp only [Bool.decide_and _ (_ ∈ _), Bool.decide_and _ (_ ∉ _), Bool.and_comm]

/-- With one split a date at most, each row is divided by the splits that the join sees. -/
theorem adjustForSplits_perm (huniq : (df.map OhlcvRow.key).Nodup)
    (hone : ∀ r ∈ df, (withKey ActionRow.key splits r.key).length ≤ 1)
    (hsplits : splits.isEmpty = false) :
    (adjustForSplits df splits).Perm
      (df.map fun r => r.divideBy (laterJoined ActionRow.amount df splits r)) := by
  have hkeys : ((df.map fun r => (r, joined ActionRow.amount splits r)).map
      fun p => p.1.key).Nodup := by
    rw [List.map_map]
    exact huniq
  have hover := overKey_joined ActionRow.amount huniq (perm_sortByKey _) (strictly_sortByKey hkeys)
  rw [adjustForSplits, hsplits, if_neg Bool.false_ne_true, withCumulative,
    leftJoin_eq_joined ActionRow.amount hone]
  apply (hover.map _).trans
  rw [List.map_map]
  rfl

/-! ## Rows that the factor changes -/

theorem mul_eq_mul_mul_iff {a b x : ℚ} (ha : a ≠ 0) : x * a = x * (a * b) ↔ x = 0 ∨ b = 1 := by
  rw [mul_eq_mul_left_iff, left_eq_mul₀ ha]
  exact or_comm

theorem map_div_eq_iff {a b : ℚ} (ha : a ≠ 0) (hb : b ≠ 0) (column : Option ℚ) :
    column.map (· / a) = column.map (· / (a * b)) ↔ (∀ x ∈ column, x = 0) ∨ b = 1 := by
  cases column with
  | none => simp
  | some x =>
      simp only [Option.map_some, Option.some_inj, Option.mem_def, forall_eq']
      rw [div_eq_div_iff ha (mul_ne_zero ha hb), eq_comm]
      exact mul_eq_mul_mul_iff ha

theorem map_mul_eq_iff {a b : ℚ} (ha : a ≠ 0) (column : Option ℚ) :
    column.map (· * a) = column.map (· * (a * b)) ↔ (∀ x ∈ column, x = 0) ∨ b = 1 := by
  cases column with
  | none => simp
  | some x =>
      simp only [Option.map_some, Option.some_inj, Option.mem_def, forall_eq']
      exact mul_eq_mul_mul_iff ha

theorem divideBy_eq_iff {a b : ℚ} (ha : a ≠ 0) (hb : b ≠ 0) (r : OhlcvRow) :
    r.divideBy a = r.divideBy (a * b) ↔ r.Blank ∨ b = 1 := by
  have hcolumns : r.divideBy a = r.divideBy (a * b) ↔
      r.openPrice.map (· / a) = r.openPrice.map (· / (a * b)) ∧
        r.high.map (· / a) = r.high.map (· / (a * b)) ∧
        r.low.map (· / a) = r.low.map (· / (a * b)) ∧
        r.close.map (· / a) = r.close.map (· / (a * b)) ∧
        r.volume.map (· * a) = r.volume.map (· * (a * b)) := by
    simp only [OhlcvRow.divideBy, OhlcvRow.mk.injEq, true_and]
  rw [hcolumns, map_div_eq_iff ha hb, map_div_eq_iff ha hb, map_div_eq_iff ha hb,
    map_div_eq_iff ha hb, map_mul_eq_iff ha, OhlcvRow.Blank]
  simp only [List.forall_mem_cons, List.not_mem_nil, false_implies, implies_true, and_true]
  tauto

theorem divideBy_one (r : OhlcvRow) : r.divideBy 1 = r := by
  simp [OhlcvRow.divideBy]

theorem prod_pos_of_pos (hpos : ∀ a ∈ splits, 0 < a.amount) (p : ActionRow → Bool) :
    0 < ((splits.filter p).map (·.amount)).prod := by
  apply List.prod_pos
  intro x hx
  obtain ⟨a, ha, rfl⟩ := List.mem_map.mp hx
  exact hpos a (List.mem_of_mem_filter ha)

theorem length_adjustForSplits (hsplits : splits.isEmpty = false) :
    (adjustForSplits df splits).length =
      (leftJoin OhlcvRow.key ActionRow.key ActionRow.amount 1 df splits).length := by
  rw [adjustForSplits, hsplits, if_neg Bool.false_ne_true, List.length_map, withCumulative,
    length_overKey, (perm_sortByKey _).length_eq]

/-- The adjustment is exact exactly when the splits are on the calendar of the frame. -/
theorem splitsExact_iff (huniq : (df.map OhlcvRow.key).Nodup)
    (hpos : ∀ a ∈ splits, 0 < a.amount) :
    SplitsExact df splits ↔ SplitsOnCalendar df splits := by
  cases hsplits : splits.isEmpty with
  | true =>
      rw [List.isEmpty_iff] at hsplits
      subst hsplits
      apply iff_of_true
      · have hone : ∀ r : OhlcvRow, r.divideBy (splitsAfter [] r.symbol r.date) = r := divideBy_one
        rw [SplitsExact, List.map_congr_left fun r _ => hone r, List.map_id']
        exact List.Perm.refl _
      · intro r _
        exact ⟨Nat.zero_le 1, Or.inr rfl⟩
  | false =>
      have hrows : ∀ r : OhlcvRow,
          r.divideBy (laterJoined ActionRow.amount df splits r) =
            r.divideBy (splitsAfter splits r.symbol r.date) ↔
          r.Blank ∨ offCalendarAfter df splits r = 1 := by
        intro r
        rw [splitsAfter_eq r]
        exact divideBy_eq_iff (prod_pos_of_pos hpos _).ne' (prod_pos_of_pos hpos _).ne' r
      constructor
      · intro h
        have hlength := h.length_eq
        rw [List.length_map, length_adjustForSplits hsplits] at hlength
        have hone := (length_leftJoin df).2.mp hlength
        have hpointwise := eq_of_perm_map huniq (fun r => divideBy_key _ r)
          (fun r => divideBy_key _ r) ((adjustForSplits_perm huniq hone hsplits).symm.trans h)
        exact fun r hr => ⟨hone r hr, (hrows r).mp (hpointwise r hr)⟩
      · intro h
        have hperm := adjustForSplits_perm huniq (fun r hr => (h r hr).1) hsplits
        rw [List.map_congr_left fun r hr => (hrows r).mpr (h r hr).2] at hperm
        exact hperm

end Joined

/-! ## The timeline -/

section Timeline

variable {prices : List OhlcvRow} {splits : List ActionRow}

/-- Rows that were multiplied by date have the same later ratios. -/
theorem prod_later_groups {ρ : Type*} (key : ρ → SymbolDate) (ratio : ρ → ℚ) (rows : List ρ)
    (symbol : String) (date : Int) :
    (((groupKeys key rows).filter fun k =>
        (ofLex k).1 = symbol ∧ toLex (symbol, date) < k).map fun k =>
          ((withKey key rows k).map ratio).prod).prod =
      ((rows.filter fun r => (ofLex (key r)).1 = symbol ∧ date < (ofLex (key r)).2).map
        ratio).prod := by
  rw [prod_groups (nodup_groupKeys.filter _)]
  congr 2
  apply List.filter_congr
  intro r hr
  have hmem : key r ∈ groupKeys key rows := mem_groupKeys.mpr ⟨r, hr, rfl⟩
  rw [decide_eq_decide, List.mem_filter, decide_eq_true_eq]
  have hiff := @key_lt_iff symbol (ofLex (key r)).1 date (ofLex (key r)).2
  exact ⟨fun h => hiff.mp h.2, fun h => ⟨hmem, hiff.mpr h⟩⟩

theorem splitsAfter_multiplyByDate (rows : List ActionRow) (symbol : String) (date : Int) :
    splitsAfter (multiplyByDate rows) symbol date = splitsAfter rows symbol date := by
  have hgroups := prod_later_groups ActionRow.key (·.amount) rows symbol date
  rw [splitsAfter, splitsAfter, multiplyByDate,
    (((perm_sortByKey _).filter _).map _).prod_eq, List.filter_map, List.map_map]
  refine Eq.trans ?_ hgroups
  congr 2
  apply List.filter_congr
  intro k _
  rw [Function.comp_apply, decide_eq_decide]
  exact key_lt_iff.symm

theorem timeline_keys : ((timeline prices splits).map (·.action.key)).Nodup := by
  rw [timeline, nodup_sortByKey, List.map_map]
  change ((groupKeys (·.action.key) (timelineRows prices splits)).map fun k => k).Nodup
  rw [List.map_id']
  exact nodup_groupKeys

theorem timeline_sorted :
    (timeline prices splits).Pairwise fun t u => t.action.key < u.action.key :=
  strictly_sortByKey (nodup_sortByKey.mp timeline_keys)

/-- What comes after a date on the timeline are the later splits. -/
theorem prod_timeline (symbol : String) (date : Int) :
    (((timeline prices splits).filter fun t =>
        t.action.symbol = symbol ∧ toLex (symbol, date) < t.action.key).map
          (·.action.amount)).prod = splitsAfter splits symbol date := by
  have hgroups := prod_later_groups (fun t : TimelineRow => t.action.key) (·.action.amount)
    (timelineRows prices splits) symbol date
  rw [timeline, (((perm_sortByKey _).filter _).map _).prod_eq, List.filter_map, List.map_map]
  refine Eq.trans ?_ (hgroups.trans ?_)
  · rfl
  · -- the rows of prices count as one
    rw [timelineRows, List.filter_append, List.map_append, List.prod_append]
    have hprices : ∀ later : TimelineRow → Bool,
        (((prices.map fun r => (⟨⟨r.symbol, r.date, 1⟩, true⟩ : TimelineRow)).filter
          later).map (·.action.amount)).prod = 1 := by
      intro later
      apply List.prod_eq_one
      intro x hx
      obtain ⟨t, ht, rfl⟩ := List.mem_map.mp hx
      obtain ⟨r, -, rfl⟩ := List.mem_map.mp (List.mem_of_mem_filter ht)
      rfl
    rw [hprices, one_mul, List.filter_map, List.map_map]
    rfl

theorem splitFactorFrame_eq :
    splitFactorFrame prices splits =
      ((timeline prices splits).filter (·.isPriceRow)).map fun t =>
        (t.action.key, splitsAfter splits t.action.symbol t.action.date) := by
  rw [splitFactorFrame, overKey_laterTotals timeline_sorted, List.filter_map, List.map_map]
  apply List.map_congr_left
  intro t _
  have hlater := @prod_timeline prices splits t.action.symbol t.action.date
  simp only [Function.comp_apply, Option.getD_some, Prod.mk.injEq, true_and]
  exact hlater

/-- Each price row finds the factor of its date. -/
theorem factor_of_row (splits : List ActionRow) {r : OhlcvRow} (hr : r ∈ prices) :
    (r.key, splitsAfter splits r.symbol r.date) ∈ splitFactorFrame prices splits := by
  let row : TimelineRow := ⟨⟨r.symbol, r.date, 1⟩, true⟩
  let group := withKey (·.action.key) (timelineRows prices splits) r.key
  have hrow : row ∈ timelineRows prices splits :=
    List.mem_append_left _ (List.mem_map_of_mem hr)
  have hgroup : row ∈ group := List.mem_filter.mpr ⟨hrow, decide_eq_true rfl⟩
  have hmem : ⟨⟨r.symbol, r.date, (group.map (·.action.amount)).prod⟩,
      group.any (·.isPriceRow)⟩ ∈ timeline prices splits := by
    rw [timeline, mem_sortByKey]
    exact List.mem_map.mpr ⟨r.key, mem_groupKeys.mpr ⟨row, hrow, rfl⟩, rfl⟩
  have hprice : group.any (·.isPriceRow) = true := List.any_eq_true.mpr ⟨row, hgroup, rfl⟩
  rw [splitFactorFrame_eq, List.mem_map]
  exact ⟨_, List.mem_filter.mpr ⟨hmem, hprice⟩, rfl⟩

theorem splitFactorFrame_keys (prices : List OhlcvRow) (splits : List ActionRow) :
    ((splitFactorFrame prices splits).map Prod.fst).Nodup := by
  rw [splitFactorFrame_eq, List.map_map]
  exact (List.filter_sublist.map _).nodup timeline_keys

/-- The join gives each price row the later splits of its symbol. -/
theorem join_splitFactorFrame (splits : List ActionRow) (rows : List (OhlcvRow × ℕ))
    (hrows : ∀ p ∈ rows, p.1 ∈ prices) :
    leftJoin (fun p : OhlcvRow × ℕ => p.1.key) Prod.fst Prod.snd 1 rows
        (splitFactorFrame prices splits) =
      rows.map fun p => (p, splitsAfter splits p.1.symbol p.1.date) := by
  rw [leftJoin_eq_map fun p _ => length_withKey_le_one (splitFactorFrame_keys prices splits) _]
  apply List.map_congr_left
  intro p hp
  have hfactor := factor_of_row splits (hrows p hp)
  have hmatched : (p.1.key, splitsAfter splits p.1.symbol p.1.date) ∈
      withKey Prod.fst (splitFactorFrame prices splits) p.1.key :=
    List.mem_filter.mpr ⟨hfactor, decide_eq_true rfl⟩
  have hone := length_withKey_le_one (splitFactorFrame_keys prices splits) p.1.key
  obtain ⟨q, hq⟩ := List.length_eq_one_iff.mp (le_antisymm hone (List.length_pos_of_mem hmatched))
  rw [hq, List.mem_singleton] at hmatched
  rw [hq, ← hmatched]
  rfl

end Timeline

/-! ## Returns -/

section Returns

/-- The row before in the frame of the symbol. -/
structure Precedes (frame : List AdjustedRow) (p x : AdjustedRow) : Prop where
  mem : p ∈ frame
  symbol : p.raw.symbol = x.raw.symbol
  before : p.raw.date < x.raw.date
  last : ∀ y ∈ frame, y.raw.symbol = x.raw.symbol → y.raw.date < x.raw.date →
    y.raw.date ≤ p.raw.date

/-- The returns are those from the row before. -/
def ReturnsExact (frame : List AdjustedRow) : Prop :=
  ∀ x ∈ frame, (∀ p, Precedes frame p x → x.ret = returnOn p.adjClose x.adjClose) ∧
    ((∀ p, ¬Precedes frame p x) → x.ret = none)

/-- Everything but the return. -/
def AdjustedRow.adjusted (x : AdjustedRow) : AdjustedRow := { x with ret := none }

def AdjustedRow.key (x : AdjustedRow) : SymbolDate := x.raw.key

/-- The return of a row, among the rows by symbol and date. -/
def withReturn (sorted : List (AdjustedRow × ℕ)) (p : AdjustedRow × ℕ) : AdjustedRow × ℕ :=
  ({ p.1 with
    ret := returnOn ((sorted.filter fun q => q.1.raw.symbol = p.1.raw.symbol ∧
      q.1.key < p.1.key).getLast?.bind (·.1.adjClose)) p.1.adjClose }, p.2)

variable {rows : List AdjustedRow}

theorem nodup_zipIdx_keys (huniq : (rows.map AdjustedRow.key).Nodup) :
    (rows.zipIdx.map fun p => p.1.key).Nodup := by
  have hrows : rows.zipIdx.map (fun p => p.1.key) = rows.map AdjustedRow.key := by
    rw [← List.zipIdx_map_fst 0 rows, List.map_map, List.zipIdx_map_fst]
    rfl
  rwa [hrows]

theorem withReturns_eq (huniq : (rows.map AdjustedRow.key).Nodup) :
    withReturns rows.zipIdx = rows.zipIdx.map fun p =>
      (withReturn (sortByKey (·.1.key) rows.zipIdx) p).1 := by
  have hplaces : (rows.zipIdx.map (withReturn (sortByKey (·.1.key) rows.zipIdx))).Pairwise
      fun p q => p.2 < q.2 := by
    rw [List.pairwise_map]
    apply (List.pairwise_map (f := Prod.snd)).mp
    rw [List.zipIdx_map_snd]
    exact List.pairwise_lt_range'
  have hsort : sortByKey Prod.snd ((sortByKey (·.1.key) rows.zipIdx).map
      (withReturn (sortByKey (·.1.key) rows.zipIdx))) =
        rows.zipIdx.map (withReturn (sortByKey (·.1.key) rows.zipIdx)) :=
    sortByKey_eq ((perm_sortByKey _).map _) hplaces
  have hshifted : overKey (fun p : AdjustedRow × ℕ => p.1.raw.symbol)
      (fun group => shift none (group.map (·.1.adjClose)))
      (sortByKey (·.1.raw.key) rows.zipIdx) = _ :=
    overKey_shift (strictly_sortByKey (nodup_zipIdx_keys huniq))
  rw [withReturns, hshifted, List.map_map]
  exact (congrArg (List.map Prod.fst) hsort).trans (List.map_map ..)

/-- The row that the shift finds is the one that precedes. -/
theorem getLast?_before_iff (huniq : (rows.map AdjustedRow.key).Nodup) {q q' : AdjustedRow × ℕ} :
    ((sortByKey (·.1.key) rows.zipIdx).filter fun s => s.1.raw.symbol = q.1.raw.symbol ∧
        s.1.key < q.1.key).getLast? = some q' ↔
      q' ∈ rows.zipIdx ∧ Precedes (withReturns rows.zipIdx)
        (withReturn (sortByKey (·.1.key) rows.zipIdx) q').1
        (withReturn (sortByKey (·.1.key) rows.zipIdx) q).1 := by
  rw [getLast?_filter_iff (strictly_sortByKey (nodup_zipIdx_keys huniq)), mem_sortByKey,
    withReturns_eq huniq, decide_eq_true_eq]
  constructor
  · intro ⟨hmem, hbefore, hgreatest⟩
    refine ⟨hmem, List.mem_map_of_mem hmem, hbefore.1,
      (key_lt_iff.mp ⟨hbefore.1.symm, hbefore.2⟩).2, ?_⟩
    intro y hy hsymbol hdate
    obtain ⟨s, hs, rfl⟩ := List.mem_map.mp hy
    have hlt := (key_lt_iff.mpr ⟨Eq.symm hsymbol, hdate⟩).2
    have hle := hgreatest s (mem_sortByKey.mpr hs) (decide_eq_true ⟨hsymbol, hlt⟩)
    have hsame : s.1.raw.symbol = q'.1.raw.symbol := Eq.trans hsymbol hbefore.1.symm
    change toLex (s.1.raw.symbol, s.1.raw.date) ≤ toLex (q'.1.raw.symbol, q'.1.raw.date) at hle
    rw [hsame] at hle
    exact key_le_iff.mp hle
  · intro ⟨hmem, hprecedes⟩
    have hsymbol : q'.1.raw.symbol = q.1.raw.symbol := hprecedes.symbol
    refine ⟨hmem, ⟨hsymbol, (key_lt_iff.mpr ⟨hsymbol.symm, hprecedes.before⟩).2⟩, ?_⟩
    intro s hs hlater
    rw [decide_eq_true_eq] at hlater
    have hdate := (key_lt_iff.mp ⟨hlater.1.symm, hlater.2⟩).2
    have hle := hprecedes.last _ (List.mem_map_of_mem (mem_sortByKey.mp hs)) hlater.1 hdate
    change toLex (s.1.raw.symbol, s.1.raw.date) ≤ toLex (q'.1.raw.symbol, q'.1.raw.date)
    rw [hlater.1, hsymbol]
    exact key_le_iff.mpr hle

theorem withReturns_spec (huniq : (rows.map AdjustedRow.key).Nodup) :
    (withReturns rows.zipIdx).map AdjustedRow.adjusted = rows.map AdjustedRow.adjusted ∧
      ReturnsExact (withReturns rows.zipIdx) := by
  constructor
  · rw [withReturns_eq huniq, List.map_map, ← List.zipIdx_map_fst 0 rows, List.map_map,
      List.zipIdx_map_fst]
    rfl
  · intro x hx
    have hrow := hx
    rw [withReturns_eq huniq] at hrow
    obtain ⟨q, hq, rfl⟩ := List.mem_map.mp hrow
    constructor
    · intro p hp
      have hmem := hp.mem
      rw [withReturns_eq huniq] at hmem
      obtain ⟨s, hs, rfl⟩ := List.mem_map.mp hmem
      have hlast := (getLast?_before_iff huniq).mpr ⟨hs, hp⟩
      show returnOn _ _ = _
      rw [hlast]
      rfl
    · intro hnone
      show returnOn _ _ = _
      cases hlast : ((sortByKey (·.1.key) rows.zipIdx).filter fun s =>
          s.1.raw.symbol = q.1.raw.symbol ∧ s.1.key < q.1.key).getLast? with
      | none => rfl
      | some s => exact absurd ((getLast?_before_iff huniq).mp hlast).2 (hnone _)

end Returns

/-! ## Corresponding actions -/

section Corresponding

variable {spelling : Spelling} {prices : List OhlcvRow} {splits : List ActionRow}
variable {corporateActions : List SipAction}

/-- The same split, with its rates. -/
structure Corresponds (spelling : Spelling) (split : ActionRow) (a : SipAction) : Prop where
  isSplit : a.isSplit spelling = true
  symbol : a.symbol = split.symbol
  date : a.exDate.or a.processDate = some split.date
  rates : ∃ oldRate newRate, a.oldRate = some oldRate ∧ a.newRate = some newRate ∧
    0 < oldRate ∧ 0 < newRate ∧ newRate / oldRate = split.amount

def OhlcvRow.spelled (spelling : Spelling) (r : OhlcvRow) : OhlcvRow :=
  { r with symbol := spelling.symbol r.symbol }

def ActionRow.spelled (spelling : Spelling) (a : ActionRow) : ActionRow :=
  { a with symbol := spelling.symbol a.symbol }

/-- The later ratios of other symbols that are spelled like the row's. -/
def otherSpellingsAfter (spelling : Spelling) (splits : List ActionRow) (r : OhlcvRow) : ℚ :=
  ((splits.filter fun a => (spelling.symbol a.symbol = spelling.symbol r.symbol ∧
    r.date < a.date) ∧ a.symbol ≠ r.symbol).map (·.amount)).prod

/-- Each row at its place, with the later ratios as its factor, and the returns. -/
structure DerivedExactly (spelling : Spelling) (prices : List OhlcvRow)
    (splits : List ActionRow) (frame : List AdjustedRow) : Prop where
  rows : frame.map AdjustedRow.adjusted = prices.map fun r =>
    (r.spelled spelling).adjustBy (splitsAfter splits r.symbol r.date)
  returns : ReturnsExact frame

/-- Spelling brings no two symbols together that have rows of one date, or splits that change
each other's factors. -/
structure SpelledApart (spelling : Spelling) (prices : List OhlcvRow)
    (splits : List ActionRow) : Prop where
  rows : (prices.map fun r => (r.spelled spelling).key).Nodup
  splits : ∀ r ∈ prices, otherSpellingsAfter spelling splits r = 1

theorem Corresponds.toSplit {split : ActionRow} {a : SipAction}
    (h : Corresponds spelling split a) : a.toSplit spelling = some (split.spelled spelling) := by
  obtain ⟨oldRate, newRate, hold, hnew, holdPos, hnewPos, hratio⟩ := h.rates
  rw [SipAction.toSplit, h.date, hold, hnew, h.symbol]
  simp only [holdPos, hnewPos, and_self, if_true, hratio]
  rfl

theorem Corresponds.amount_pos {split : ActionRow} {a : SipAction}
    (h : Corresponds spelling split a) : 0 < split.amount := by
  obtain ⟨oldRate, newRate, -, -, holdPos, hnewPos, hratio⟩ := h.rates
  exact hratio ▸ div_pos hnewPos holdPos

theorem validSplits_eq (h : List.Forall₂ (Corresponds spelling) splits corporateActions) :
    (corporateActions.filter (·.isSplit spelling)).filterMap (·.toSplit spelling) =
      splits.map (·.spelled spelling) := by
  induction h with
  | nil => rfl
  | cons hfirst _ ih =>
      rw [List.filter_cons_of_pos hfirst.isSplit, List.filterMap_cons, hfirst.toSplit,
        List.map_cons, ih]

theorem splits_pos (h : List.Forall₂ (Corresponds spelling) splits corporateActions) :
    ∀ a ∈ splits, 0 < a.amount := by
  induction h with
  | nil => exact fun a ha => absurd ha List.not_mem_nil
  | cons hfirst _ ih => exact List.forall_mem_cons.mpr ⟨hfirst.amount_pos, ih⟩

theorem splitsAfter_spelled (r : OhlcvRow) :
    splitsAfter (splits.map (·.spelled spelling)) (r.spelled spelling).symbol r.date =
      splitsAfter splits r.symbol r.date * otherSpellingsAfter spelling splits r := by
  have hsplit := List.prod_map_filter_mul_prod_map_filter_not
    (fun a : ActionRow => a.symbol = r.symbol) (·.amount)
    (splits.filter fun a => spelling.symbol a.symbol = spelling.symbol r.symbol ∧ r.date < a.date)
  have hsame : ∀ a : ActionRow, a.symbol = r.symbol ∧
      (spelling.symbol a.symbol = spelling.symbol r.symbol ∧ r.date < a.date) ↔
        a.symbol = r.symbol ∧ r.date < a.date := by
    intro a
    constructor
    · exact fun h => ⟨h.1, h.2.2⟩
    · exact fun h => ⟨h.1, congrArg spelling.symbol h.1, h.2⟩
  rw [List.filter_filter, List.filter_filter] at hsplit
  simp only [← Bool.decide_and, hsame] at hsplit
  rw [splitsAfter, List.filter_map, List.map_map, splitsAfter, otherSpellingsAfter]
  simp only [and_comm (b := _ ≠ r.symbol)]
  exact hsplit.symm

theorem adjustBy_inj {r : OhlcvRow} {a b : ℚ} : r.adjustBy a = r.adjustBy b ↔ a = b := by
  constructor
  · exact fun h => congrArg AdjustedRow.splitAdjustmentFactor h
  · exact fun h => h ▸ rfl

theorem adjustedFrame_spec (splits : List ActionRow) {normalized : List OhlcvRow}
    (huniq : (normalized.map OhlcvRow.key).Nodup) :
    (adjustedFrame normalized splits).map AdjustedRow.adjusted =
        normalized.map (fun r => r.adjustBy (splitsAfter splits r.symbol r.date)) ∧
      ReturnsExact (adjustedFrame normalized splits) := by
  have hjoin := join_splitFactorFrame splits normalized.zipIdx
    (fun p hp => (List.mem_zipIdx' hp).2 ▸ List.getElem_mem _)
  have hrows : (normalized.zipIdx.map fun p =>
      ((p.1.adjustBy (splitsAfter splits p.1.symbol p.1.date) : AdjustedRow), p.2)) =
        (normalized.map fun r => r.adjustBy (splitsAfter splits r.symbol r.date)).zipIdx := by
    rw [List.zipIdx_map]
    rfl
  have hkeys : ((normalized.map fun r => r.adjustBy (splitsAfter splits r.symbol r.date)).map
      AdjustedRow.key).Nodup := by
    rw [List.map_map]
    exact huniq
  have hspec := withReturns_spec hkeys
  rw [adjustedFrame, hjoin, List.map_map]
  change (withReturns (normalized.zipIdx.map fun p =>
      (p.1.adjustBy (splitsAfter splits p.1.symbol p.1.date), p.2))).map AdjustedRow.adjusted =
        _ ∧ ReturnsExact (withReturns (normalized.zipIdx.map fun p =>
      (p.1.adjustBy (splitsAfter splits p.1.symbol p.1.date), p.2)))
  rw [hrows]
  refine ⟨hspec.1.trans ?_, hspec.2⟩
  rw [List.map_map]
  rfl

theorem deriveSplitAdjustedPrices_eq
    (hsplits : List.Forall₂ (Corresponds spelling) splits corporateActions)
    (hprices : prices.isEmpty = false)
    (huniq : ((normalizePrices spelling prices).map OhlcvRow.key).Nodup) :
    ∃ result, deriveSplitAdjustedPrices spelling prices corporateActions = .ok result ∧
      result.frame = adjustedFrame (normalizePrices spelling prices)
        (multiplyByDate (splits.map (·.spelled spelling))) := by
  have hnone : ((groupKeys OhlcvRow.key (normalizePrices spelling prices)).find? fun k =>
      1 < (withKey OhlcvRow.key (normalizePrices spelling prices) k).length) = none := by
    rw [List.find?_eq_none]
    intro k _
    simpa using length_withKey_le_one huniq k
  rw [deriveSplitAdjustedPrices, hprices, if_neg Bool.false_ne_true]
  simp only [hnone, splitActions, validSplits_eq hsplits]
  exact ⟨_, rfl, rfl⟩

theorem deriveSplitAdjustedPrices_error (hprices : prices.isEmpty = false)
    (hrepeated : ¬((normalizePrices spelling prices).map OhlcvRow.key).Nodup) :
    ∀ result, deriveSplitAdjustedPrices spelling prices corporateActions ≠ .ok result := by
  intro result h
  rw [deriveSplitAdjustedPrices, hprices, if_neg Bool.false_ne_true] at h
  simp only at h
  split at h
  · cases h
  · rename_i hnone
    rw [List.find?_eq_none] at hnone
    apply hrepeated
    rw [List.nodup_iff_count_le_one]
    intro k
    by_cases hk : k ∈ groupKeys OhlcvRow.key (normalizePrices spelling prices)
    · have hle := hnone k hk
      rw [decide_eq_true_eq, not_lt] at hle
      rw [List.count, List.countP_map, List.countP_eq_length_filter]
      simpa only [withKey, Function.comp_def, beq_eq_decide] using hle
    · rw [List.count_eq_zero_of_not_mem]
      · exact Nat.zero_le 1
      · intro hmem
        obtain ⟨r, hr, hkey⟩ := List.mem_map.mp hmem
        exact hk (mem_groupKeys.mpr ⟨r, hr, hkey⟩)

/-- The read-time adjustment is exact exactly when spelling keeps the symbols apart. -/
theorem derivedExactly_iff
    (hsplits : List.Forall₂ (Corresponds spelling) splits corporateActions) :
    (∃ result, deriveSplitAdjustedPrices spelling prices corporateActions = .ok result ∧
        DerivedExactly spelling prices splits result.frame) ↔
      SpelledApart spelling prices splits := by
  cases hprices : prices.isEmpty with
  | true =>
      rw [List.isEmpty_iff] at hprices
      subst hprices
      apply iff_of_true
      · exact ⟨_, rfl, rfl, fun x hx => absurd hx List.not_mem_nil⟩
      · exact ⟨List.nodup_nil, fun r hr => absurd hr List.not_mem_nil⟩
  | false =>
      have hkeys : (normalizePrices spelling prices).map OhlcvRow.key =
          prices.map fun r => (r.spelled spelling).key := List.map_map ..
      by_cases huniq : ((normalizePrices spelling prices).map OhlcvRow.key).Nodup
      · obtain ⟨result, hok, hframe⟩ := deriveSplitAdjustedPrices_eq hsplits hprices huniq
        have hspec := adjustedFrame_spec (multiplyByDate (splits.map (·.spelled spelling)))
          huniq
        rw [← hframe] at hspec
        have hrows : result.frame.map AdjustedRow.adjusted = prices.map fun r =>
            (r.spelled spelling).adjustBy (splitsAfter splits r.symbol r.date *
              otherSpellingsAfter spelling splits r) := by
          rw [hspec.1, normalizePrices, List.map_map]
          apply List.map_congr_left
          intro r _
          show (r.spelled spelling).adjustBy (splitsAfter _ (r.spelled spelling).symbol r.date) = _
          rw [splitsAfter_multiplyByDate, splitsAfter_spelled]
        have hexact : DerivedExactly spelling prices splits result.frame ↔
            ∀ r ∈ prices, otherSpellingsAfter spelling splits r = 1 := by
          have hfactors : ∀ r : OhlcvRow, (r.spelled spelling).adjustBy
              (splitsAfter splits r.symbol r.date * otherSpellingsAfter spelling splits r) =
                (r.spelled spelling).adjustBy (splitsAfter splits r.symbol r.date) ↔
              otherSpellingsAfter spelling splits r = 1 := by
            intro r
            have hpos : 0 < splitsAfter splits r.symbol r.date :=
              prod_pos_of_pos (splits_pos hsplits) _
            rw [adjustBy_inj, mul_eq_left₀ hpos.ne']
          constructor
          · intro h r hr
            have hsame := List.map_inj_left.mp (hrows.symm.trans h.rows)
            exact (hfactors r).mp (hsame r hr)
          · intro h
            refine ⟨hrows.trans ?_, hspec.2⟩
            apply List.map_congr_left
            exact fun r hr => (hfactors r).mpr (h r hr)
        constructor
        · intro ⟨result', hok', hderived⟩
          obtain rfl : result = result' := Except.ok.inj (hok.symm.trans hok')
          exact ⟨hkeys ▸ huniq, hexact.mp hderived⟩
        · intro h
          exact ⟨result, hok, hexact.mpr h.splits⟩
      · apply iff_of_false
        · intro ⟨result, hok, _⟩
          exact deriveSplitAdjustedPrices_error hprices huniq result hok
        · intro h
          exact huniq (hkeys ▸ h.rows)

/-- Both adjustments divide each row by the later ratios of its symbol exactly when the splits are
on the calendar of the frame and spelling keeps the symbols apart. -/
theorem split_adjustments_agree_iff (huniq : (prices.map OhlcvRow.key).Nodup)
    (hsplits : List.Forall₂ (Corresponds spelling) splits corporateActions) :
    (SplitsExact prices splits ∧
        ∃ result, deriveSplitAdjustedPrices spelling prices corporateActions = .ok result ∧
          DerivedExactly spelling prices splits result.frame) ↔
      SplitsOnCalendar prices splits ∧ SpelledApart spelling prices splits :=
  and_congr (splitsExact_iff huniq (splits_pos hsplits)) (derivedExactly_iff hsplits)

end Corresponding

/-! ## A split of four for one -/

/-- Symbols and types that are spelled as they should be. -/
def asSpelled : Spelling := ⟨fun symbol => symbol, fun caType => caType⟩

/-- A close of 500 on day 1 and of 125 on day 4. -/
def quarteredPrices : List OhlcvRow :=
  [⟨"AAPL", 1, some 500, some 500, some 500, some 500, some 1000⟩,
    ⟨"AAPL", 4, some 125, some 125, some 125, some 125, some 4000⟩]

def fourForOne (date : Int) : List ActionRow := [⟨"AAPL", date, 4⟩]

def fourForOneAction (date : Int) : List SipAction :=
  [⟨"AAPL", "forward_split", some date, none, some 1, some 4⟩]

theorem fourForOne_corresponds (date : Int) :
    List.Forall₂ (Corresponds asSpelled) (fourForOne date) (fourForOneAction date) := by
  have htype : decide ("forward_split" ∈ supportedSplitCaTypes) = true := by decide +kernel
  exact .cons ⟨htype, rfl, rfl, 1, 4, rfl, rfl, by norm_num, by norm_num, by norm_num⟩ .nil

theorem split_adjustments_agree_trading_day :
    SplitsExact quarteredPrices (fourForOne 4) ∧
      ∃ result, deriveSplitAdjustedPrices asSpelled quarteredPrices (fourForOneAction 4) =
        .ok result ∧ DerivedExactly asSpelled quarteredPrices (fourForOne 4) result.frame := by
  apply (split_adjustments_agree_iff (by decide +kernel) (fourForOne_corresponds 4)).mpr
  refine ⟨?_, ⟨by decide +kernel, by decide +kernel⟩⟩
  intro r hr
  rcases List.mem_pair.mp hr with rfl | rfl
  · exact ⟨by decide +kernel, Or.inr (by decide +kernel)⟩
  · exact ⟨by decide +kernel, Or.inr (by decide +kernel)⟩

/-- On a day without a row, only the read-time adjustment sees the split. -/
theorem weekend_split_is_lost :
    splitsAfter (fourForOne 3) "AAPL" 1 = 4 ∧
      adjustForSplits quarteredPrices (fourForOne 3) = quarteredPrices ∧
      ¬SplitsExact quarteredPrices (fourForOne 3) := by
  have hsame : adjustForSplits quarteredPrices (fourForOne 3) = quarteredPrices := by
    decide +kernel
  refine ⟨by decide +kernel, hsame, ?_⟩
  intro h
  rw [SplitsExact, hsame] at h
  have hmem := h.mem_iff.mp (List.mem_cons_self)
  revert hmem
  decide +kernel

end TradingPlatform.Data
