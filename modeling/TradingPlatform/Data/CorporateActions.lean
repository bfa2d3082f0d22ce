import Mathlib.Algebra.Order.Field.Rat
import Mathlib.Data.Prod.Lex
import Mathlib.Data.String.Basic
import TradingPlatform.Base.Frames

/-! # Adjustment for corporate actions

`adjust_for_splits` and `adjust_for_dividends`: the actions are joined to the price
rows of their dates, and a running total from the last row of the symbol backwards
says what each row is adjusted by. The numbers are exact.
-/

namespace TradingPlatform.Data

open Base

abbrev SymbolDate := String ×ₗ Int

instance : LawfulBEq SymbolDate := inferInstance

structure OhlcvRow where
  symbol : String
  date : Int
  openPrice : Option ℚ
  high : Option ℚ
  low : Option ℚ
  close : Option ℚ
  volume : Option ℚ
  deriving DecidableEq

def OhlcvRow.key (r : OhlcvRow) : SymbolDate := toLex (r.symbol, r.date)

/-- A row of `ca_df`; the amount is its `split_ratio` or its `dividend`. -/
structure ActionRow where
  symbol : String
  date : Int
  amount : ℚ
  deriving DecidableEq

def ActionRow.key (a : ActionRow) : SymbolDate := toLex (a.symbol, a.date)

def OhlcvRow.divideBy (split : ℚ) (r : OhlcvRow) : OhlcvRow :=
  { r with
    openPrice := r.openPrice.map (· / split)
    high := r.high.map (· / split)
    low := r.low.map (· / split)
    close := r.close.map (· / split)
    volume := r.volume.map (· * split) }

/-- The actions of the dates, with what comes after each row of its symbol. -/
def withCumulative (op : ℚ → ℚ → ℚ) (fill : ℚ) (df : List OhlcvRow) (ca : List ActionRow) :
    List ((OhlcvRow × ℚ) × Option ℚ) :=
  overKey (fun p => p.1.symbol) (fun group => laterTotals op fill (group.map Prod.snd))
    (sortByKey (fun p => p.1.key)
      (leftJoin OhlcvRow.key ActionRow.key ActionRow.amount fill df ca))

def adjustForSplits (df : List OhlcvRow) (ca : List ActionRow) : List OhlcvRow :=
  if ca.isEmpty then df
  else (withCumulative (· * ·) 1 df ca).map fun p => p.1.1.divideBy (p.2.getD 1)

def adjustForDividends (df : List OhlcvRow) (ca : List ActionRow) : List OhlcvRow :=
  if ca.isEmpty then df
  else (withCumulative (· + ·) 0 df ca).map fun p =>
    { p.1.1 with close := p.1.1.close.map (· - p.2.getD 0) }

/-- Splits first, then dividends. -/
def adjustPrices (df : List OhlcvRow) (splits dividends : Option (List ActionRow)) :
    List OhlcvRow :=
  let result := splits.elim df (adjustForSplits df)
  dividends.elim result (adjustForDividends result)

/-! ## What comes after a row -/

section Later

variable {M : Type*} [CommMonoid M] (value : ActionRow → M)
variable {df : List OhlcvRow} {ca : List ActionRow}

theorem key_lt_iff {symbol symbol' : String} {date date' : Int} :
    (symbol' = symbol ∧ toLex (symbol, date) < toLex (symbol', date')) ↔
      symbol' = symbol ∧ date < date' := by
  apply and_congr_right
  intro hsymbol
  rw [Prod.Lex.toLex_lt_toLex, hsymbol]
  simp

theorem key_le_iff {symbol : String} {date date' : Int} :
    toLex (symbol, date) ≤ toLex (symbol, date') ↔ date ≤ date' := by
  rw [Prod.Lex.toLex_le_toLex]
  simp

/-- What the join puts beside a row. -/
def joined (ca : List ActionRow) (r : OhlcvRow) : M :=
  ((withKey ActionRow.key ca r.key).map value).prod

/-- The later actions of dates that have a row. -/
def laterJoined (df : List OhlcvRow) (ca : List ActionRow) (r : OhlcvRow) : M :=
  ((ca.filter fun a => (a.symbol = r.symbol ∧ r.date < a.date) ∧
    a.key ∈ df.map OhlcvRow.key).map value).prod

theorem leftJoin_eq_joined (hone : ∀ r ∈ df, (withKey ActionRow.key ca r.key).length ≤ 1) :
    leftJoin OhlcvRow.key ActionRow.key value 1 df ca = df.map fun r => (r, joined value ca r) := by
  rw [leftJoin_eq_map hone]
  apply List.map_congr_left
  intro r hr
  rw [head_elim_eq_prod (hone r hr), joined]

/-- What stands beside the later rows are the actions of their dates. -/
theorem prod_joined (huniq : (df.map OhlcvRow.key).Nodup) (r : OhlcvRow) :
    ((df.filter fun s => s.symbol = r.symbol ∧ r.key < s.key).map (joined value ca)).prod =
      laterJoined value df ca r := by
  have hnodup : ((df.filter fun s => s.symbol = r.symbol ∧ r.key < s.key).map
      OhlcvRow.key).Nodup := (List.filter_sublist.map _).nodup huniq
  have hgroups := @prod_groups _ _ _ _ ActionRow.key value ca _ _ hnodup
  rw [List.map_map] at hgroups
  rw [laterJoined, show joined value ca = (fun k => ((withKey ActionRow.key ca k).map
    value).prod) ∘ OhlcvRow.key from rfl, hgroups]
  congr 2
  apply List.filter_congr
  intro a _
  rw [decide_eq_decide, List.mem_map]
  constructor
  · intro ⟨s, hs, hkey⟩
    obtain ⟨hmem, hlater⟩ := List.mem_filter.mp hs
    rw [decide_eq_true_eq] at hlater
    have hpair := Prod.mk.inj (toLex_inj.mp hkey)
    have hdate := (key_lt_iff.mp hlater).2
    rw [hpair.2] at hdate
    exact ⟨⟨hpair.1 ▸ hlater.1, hdate⟩, List.mem_map.mpr ⟨s, hmem, hkey⟩⟩
  · intro ⟨hlater, hrow⟩
    obtain ⟨s, hmem, hkey⟩ := List.mem_map.mp hrow
    refine ⟨s, List.mem_filter.mpr ⟨hmem, ?_⟩, hkey⟩
    have hpair := Prod.mk.inj (toLex_inj.mp hkey)
    rw [decide_eq_true_eq]
    apply key_lt_iff.mpr
    rw [hpair.1, hpair.2]
    exact hlater

/-- The running totals on sorted rows, each with the actions of its date. -/
theorem overKey_joined {rows : List (OhlcvRow × M)} (huniq : (df.map OhlcvRow.key).Nodup)
    (hperm : rows.Perm (df.map fun r => (r, joined value ca r)))
    (hsorted : rows.Pairwise fun p q => p.1.key < q.1.key) :
    (overKey (fun p : OhlcvRow × M => p.1.symbol)
        (fun group => laterTotals (· * ·) 1 (group.map Prod.snd)) rows).Perm
      (df.map fun r => ((r, joined value ca r), some (laterJoined value df ca r))) := by
  rw [overKey_laterTotals hsorted]
  apply (hperm.map _).trans
  rw [List.map_map]
  apply List.Perm.of_eq
  apply List.map_congr_left
  intro r _
  have hlater := ((hperm.filter fun p => p.1.symbol = r.symbol ∧ r.key < p.1.key).map
    Prod.snd).prod_eq
  rw [List.filter_map, List.map_map] at hlater
  simp only [Function.comp_apply]
  rw [hlater, ← prod_joined value huniq r]
  rfl

end Later

end TradingPlatform.Data
