import Mathlib.Data.List.Chain
import Mathlib.Tactic.Linarith
import TradingPlatform.Data.SplitFactors

/-! # Splits and dividends together

`adjust_prices` divides by the later splits and subtracts the later dividends as
they were paid. A dividend is paid on the shares of its day, so it is the right
amount to subtract only where no split comes after it.
-/

namespace TradingPlatform.Data

open Base

def rowsOf (symbol : String) (df : List OhlcvRow) : List OhlcvRow :=
  withKey (·.symbol) df symbol

/-- The ratio of a day. -/
def splitOn (splits : List ActionRow) (symbol : String) (date : Int) : ℚ :=
  ((withKey ActionRow.key splits (toLex (symbol, date))).map (·.amount)).prod

/-- The dividend of a day. -/
def dividendOn (dividends : List ActionRow) (symbol : String) (date : Int) : ℚ :=
  ((withKey ActionRow.key dividends (toLex (symbol, date))).map (·.amount)).sum

def dividendsAfter (dividends : List ActionRow) (symbol : String) (date : Int) : ℚ :=
  ((dividends.filter fun a => a.symbol = symbol ∧ date < a.date).map (·.amount)).sum

/-- The actions of the symbol are on its trading days. -/
def OnTradingDays (df : List OhlcvRow) (ca : List ActionRow) (symbol : String) : Prop :=
  ∀ a ∈ ca, a.symbol = symbol → a.key ∈ (rowsOf symbol df).map OhlcvRow.key

/-- From day to day the close only changes by the actions. -/
def MovesByActions (df : List OhlcvRow) (splits dividends : List ActionRow) (symbol : String) :
    Prop :=
  (sortByKey OhlcvRow.key (rowsOf symbol df)).IsChain fun p r => ∃ previous,
    p.close = some previous ∧
      r.close = some (previous / splitOn splits symbol r.date - dividendOn dividends symbol r.date)

/-- One row for each day, with the same close. -/
def ConstantClose (df adjusted : List OhlcvRow) (symbol : String) : Prop :=
  ∃ close : Option ℚ, ((rowsOf symbol adjusted).map fun r => (r.date, r.close)).Perm
    ((rowsOf symbol df).map fun r => (r.date, close))

/-- One split and one dividend a day at most, and a dividend that an earlier day is adjusted by
comes after all splits that count. -/
structure DividendsAfterSplits (df : List OhlcvRow) (splits dividends : List ActionRow)
    (symbol : String) : Prop where
  oneSplit : ∀ r ∈ rowsOf symbol df, (withKey ActionRow.key splits r.key).length ≤ 1
  oneDividend : ∀ r ∈ rowsOf symbol df, (withKey ActionRow.key dividends r.key).length ≤ 1
  inOrder : ∀ r ∈ rowsOf symbol df, (∃ p ∈ rowsOf symbol df, p.date < r.date) →
    dividendOn dividends symbol r.date = 0 ∨ splitsAfter splits symbol r.date = 1

/-! ## The rows of one symbol -/

section OneSymbol

variable {M : Type*} [CommMonoid M] (value : ActionRow → M)
variable {df : List OhlcvRow} {ca : List ActionRow} {symbol : String}

theorem mem_rowsOf {r : OhlcvRow} : r ∈ rowsOf symbol df ↔ r ∈ df ∧ r.symbol = symbol := by
  rw [rowsOf, withKey, List.mem_filter, decide_eq_true_eq]

/-- The running totals of the rows of a symbol. -/
def totalsOf (df : List OhlcvRow) (ca : List ActionRow) (symbol : String) :
    List ((OhlcvRow × M) × Option M) :=
  (overKey (fun p : OhlcvRow × M => p.1.symbol)
    (fun group => laterTotals (· * ·) 1 (group.map Prod.snd))
      (sortByKey (fun p => p.1.key)
        (leftJoin OhlcvRow.key ActionRow.key value 1 df ca))).filter
          fun p => p.1.1.symbol = symbol

theorem perm_joined_ofSymbol (df : List OhlcvRow) (ca : List ActionRow) (symbol : String) :
    (withKey (fun p : OhlcvRow × M => p.1.symbol) (sortByKey (fun p => p.1.key)
      (leftJoin OhlcvRow.key ActionRow.key value 1 df ca)) symbol).Perm
        (leftJoin OhlcvRow.key ActionRow.key value 1 (rowsOf symbol df) ca) := by
  have hfilter := @leftJoin_filter _ _ _ _ _ OhlcvRow.key ActionRow.key value 1 ca
    (fun r => r.symbol = symbol) df
  rw [rowsOf, withKey, withKey, ← hfilter]
  exact (perm_sortByKey _).filter _

theorem totalsOf_eq :
    totalsOf value df ca symbol = overKey (fun p : OhlcvRow × M => p.1.symbol)
      (fun group => laterTotals (· * ·) 1 (group.map Prod.snd))
        (withKey (fun p => p.1.symbol) (sortByKey (fun p => p.1.key)
          (leftJoin OhlcvRow.key ActionRow.key value 1 df ca)) symbol) :=
  @overKey_filter _ _ _ _ (fun p : OhlcvRow × M => p.1.symbol) _ symbol _

theorem length_totalsOf :
    (totalsOf value df ca symbol).length =
      (leftJoin OhlcvRow.key ActionRow.key value 1 (rowsOf symbol df) ca).length := by
  rw [totalsOf_eq, length_overKey]
  exact (perm_joined_ofSymbol value df ca symbol).length_eq

theorem totalsOf_perm (huniq : ((rowsOf symbol df).map OhlcvRow.key).Nodup)
    (hone : ∀ r ∈ rowsOf symbol df, (withKey ActionRow.key ca r.key).length ≤ 1) :
    (totalsOf value df ca symbol).Perm ((rowsOf symbol df).map fun r =>
      ((r, joined value ca r), some (laterJoined value (rowsOf symbol df) ca r))) := by
  have hperm := perm_joined_ofSymbol value df ca symbol
  rw [leftJoin_eq_joined value hone] at hperm
  have hsorted : (withKey (fun p : OhlcvRow × M => p.1.symbol) (sortByKey (fun p => p.1.key)
      (leftJoin OhlcvRow.key ActionRow.key value 1 df ca)) symbol).Pairwise
        fun p q => p.1.key < q.1.key := by
    have hle := (@pairwise_sortByKey _ _ _ (fun p : OhlcvRow × M => p.1.key)
      (leftJoin OhlcvRow.key ActionRow.key value 1 df ca)).filter
        fun p => p.1.symbol = symbol
    have hkeys := (hperm.map fun p => p.1.key).nodup_iff.mpr (by
      rw [List.map_map]
      exact huniq)
    rw [List.Nodup, List.pairwise_map] at hkeys
    exact hle.imp₂ (fun _ _ hle hne => lt_of_le_of_ne hle hne) hkeys
  rw [totalsOf_eq]
  exact overKey_joined value huniq hperm hsorted

/-- Both steps adjust the rows by what comes after them. -/
def adjustedBy (adjust : M → OhlcvRow → OhlcvRow) (df : List OhlcvRow) (ca : List ActionRow) :
    List OhlcvRow :=
  if ca.isEmpty then df
  else (overKey (fun p : OhlcvRow × M => p.1.symbol)
    (fun group => laterTotals (· * ·) 1 (group.map Prod.snd))
      (sortByKey (fun p => p.1.key)
        (leftJoin OhlcvRow.key ActionRow.key value 1 df ca))).map fun p =>
          adjust (p.2.getD 1) p.1.1

variable (adjust : M → OhlcvRow → OhlcvRow)

theorem rowsOf_adjustedBy (hsymbol : ∀ total r, (adjust total r).symbol = r.symbol)
    (hca : ca.isEmpty = false) :
    rowsOf symbol (adjustedBy value adjust df ca) =
      (totalsOf value df ca symbol).map fun p => adjust (p.2.getD 1) p.1.1 := by
  rw [adjustedBy, hca, if_neg Bool.false_ne_true, rowsOf, withKey, List.filter_map, totalsOf]
  simp only [Function.comp_def, hsymbol]

/-- A step gives one row for each day only when each day has one action at most. -/
theorem length_adjustedBy (hsymbol : ∀ total r, (adjust total r).symbol = r.symbol) :
    (rowsOf symbol df).length ≤ (rowsOf symbol (adjustedBy value adjust df ca)).length ∧
      ((rowsOf symbol (adjustedBy value adjust df ca)).length = (rowsOf symbol df).length ↔
        ∀ r ∈ rowsOf symbol df, (withKey ActionRow.key ca r.key).length ≤ 1) := by
  cases hca : ca.isEmpty with
  | true =>
      rw [List.isEmpty_iff] at hca
      subst hca
      rw [show adjustedBy value adjust df [] = df from rfl]
      exact ⟨le_refl _, fun _ r _ => Nat.zero_le 1, fun _ => rfl⟩
  | false =>
      rw [rowsOf_adjustedBy value adjust hsymbol hca, List.length_map, length_totalsOf]
      exact length_leftJoin (rowsOf symbol df)

theorem adjustedBy_perm (hsymbol : ∀ total r, (adjust total r).symbol = r.symbol)
    (hunit : ∀ r, adjust 1 r = r) (huniq : ((rowsOf symbol df).map OhlcvRow.key).Nodup)
    (hone : ∀ r ∈ rowsOf symbol df, (withKey ActionRow.key ca r.key).length ≤ 1) :
    (rowsOf symbol (adjustedBy value adjust df ca)).Perm ((rowsOf symbol df).map fun r =>
      adjust (laterJoined value (rowsOf symbol df) ca r) r) := by
  cases hca : ca.isEmpty with
  | true =>
      rw [List.isEmpty_iff] at hca
      subst hca
      have hsame : ∀ r : OhlcvRow, adjust (laterJoined value (rowsOf symbol df) [] r) r = r := hunit
      rw [List.map_congr_left fun r _ => hsame r, List.map_id']
      exact List.Perm.refl _
  | false =>
      rw [rowsOf_adjustedBy value adjust hsymbol hca]
      apply ((totalsOf_perm value huniq hone).map _).trans
      rw [List.map_map]
      rfl

/-- On trading days all later actions are joined. -/
theorem laterJoined_eq {rows : List OhlcvRow} {r : OhlcvRow}
    (hon : ∀ a ∈ ca, a.symbol = symbol → a.key ∈ rows.map OhlcvRow.key) (hr : r.symbol = symbol) :
    laterJoined value rows ca r =
      ((ca.filter fun a => a.symbol = symbol ∧ r.date < a.date).map value).prod := by
  rw [laterJoined, hr]
  congr 2
  apply List.filter_congr
  intro a ha
  rw [decide_eq_decide]
  exact ⟨fun h => h.1, fun h => ⟨h, hon a ha h.1⟩⟩

theorem dates_sorted (huniq : ((rowsOf symbol df).map OhlcvRow.key).Nodup) :
    (sortByKey OhlcvRow.key (rowsOf symbol df)).Pairwise fun p r => p.date < r.date := by
  have hsorted := strictly_sortByKey huniq
  apply hsorted.imp_of_mem
  intro p r hp hr hlt
  rw [mem_sortByKey, mem_rowsOf] at hp hr
  exact (key_lt_iff.mp ⟨hr.2.trans hp.2.symm, hlt⟩).2

/-- No trading day is between two that follow each other. -/
theorem date_after_iff (huniq : ((rowsOf symbol df).map OhlcvRow.key).Nodup)
    {before after : List OhlcvRow} {p r s : OhlcvRow}
    (hdays : sortByKey OhlcvRow.key (rowsOf symbol df) = before ++ p :: r :: after)
    (hs : s ∈ rowsOf symbol df) : p.date < s.date ↔ r.date ≤ s.date := by
  have hsorted := dates_sorted huniq
  rw [← @mem_sortByKey _ _ _ OhlcvRow.key, hdays] at hs
  rw [hdays, List.pairwise_append, List.pairwise_cons, List.pairwise_cons] at hsorted
  obtain ⟨-, ⟨hp, hr, -⟩, hbefore⟩ := hsorted
  have hpr := hp r List.mem_cons_self
  simp only [List.mem_append, List.mem_cons] at hs
  rcases hs with hs | rfl | rfl | hs
  · have hsp := hbefore s hs p List.mem_cons_self
    omega
  · omega
  · omega
  · have hrs := hr s hs
    omega

/-- From one day to the next, the actions of the next day are those that come in between. -/
theorem prod_after_step (huniq : ((rowsOf symbol df).map OhlcvRow.key).Nodup)
    (hon : OnTradingDays df ca symbol) {before after : List OhlcvRow} {p r : OhlcvRow}
    (hdays : sortByKey OhlcvRow.key (rowsOf symbol df) = before ++ p :: r :: after) :
    ((ca.filter fun a => a.symbol = symbol ∧ p.date < a.date).map value).prod =
      ((withKey ActionRow.key ca (toLex (symbol, r.date))).map value).prod *
        ((ca.filter fun a => a.symbol = symbol ∧ r.date < a.date).map value).prod := by
  have hsplit := List.prod_map_filter_mul_prod_map_filter_not
    (fun a : ActionRow => a.date = r.date) value
    (ca.filter fun a => a.symbol = symbol ∧ p.date < a.date)
  have hlater : ∀ a ∈ ca, a.symbol = symbol → (p.date < a.date ↔ r.date ≤ a.date) := by
    intro a ha hsymbol
    obtain ⟨s, hs, hkey⟩ := List.mem_map.mp (hon a ha hsymbol)
    have hdate : s.date = a.date := (Prod.mk.inj (toLex_inj.mp hkey)).2
    rw [← hdate]
    exact date_after_iff huniq hdays hs
  rw [← hsplit, List.filter_filter, List.filter_filter]
  congr 3
  · apply List.filter_congr
    intro a ha
    rw [← Bool.decide_and, decide_eq_decide]
    constructor
    · intro ⟨hdate, hsymbol, _⟩
      rw [ActionRow.key, hsymbol, hdate]
    · intro hkey
      obtain ⟨hsymbol, hdate⟩ := Prod.mk.inj (toLex_inj.mp hkey)
      exact ⟨hdate, hsymbol, (hlater a ha hsymbol).mpr hdate.ge⟩
  · apply List.filter_congr
    intro a ha
    rw [← Bool.decide_and, decide_eq_decide]
    constructor
    · intro ⟨hdate, hsymbol, hafter⟩
      have hle := (hlater a ha hsymbol).mp hafter
      exact ⟨hsymbol, lt_of_le_of_ne hle (Ne.symm hdate)⟩
    · intro ⟨hsymbol, hafter⟩
      exact ⟨hafter.ne', hsymbol, (hlater a ha hsymbol).mpr hafter.le⟩

end OneSymbol

/-! ## The two steps -/

section Steps

variable {df : List OhlcvRow} {splits dividends : List ActionRow} {symbol : String}

/-- A dividend as an amount that running totals add. -/
def ActionRow.paid (a : ActionRow) : Multiplicative ℚ := Multiplicative.ofAdd a.amount

def OhlcvRow.lessPaid (paid : Multiplicative ℚ) (r : OhlcvRow) : OhlcvRow :=
  { r with close := r.close.map (· - paid.toAdd) }

theorem adjustForSplits_eq :
    adjustForSplits df splits = adjustedBy ActionRow.amount OhlcvRow.divideBy df splits := rfl

theorem adjustForDividends_eq :
    adjustForDividends df dividends = adjustedBy ActionRow.paid OhlcvRow.lessPaid df dividends :=
  rfl

/-- The close after both steps. -/
def adjustedClose (splits dividends : List ActionRow) (r : OhlcvRow) : Option ℚ :=
  r.close.map fun close =>
    close / splitsAfter splits r.symbol r.date - dividendsAfter dividends r.symbol r.date

theorem adjustPrices_eq :
    adjustPrices df (some splits) (some dividends) =
      adjustForDividends (adjustForSplits df splits) dividends := rfl

theorem lessPaid_one (r : OhlcvRow) : r.lessPaid 1 = r := by
  simp [OhlcvRow.lessPaid]

/-- The days of a symbol after the splits. -/
theorem splitDays_perm (huniq : ((rowsOf symbol df).map OhlcvRow.key).Nodup)
    (hone : ∀ r ∈ rowsOf symbol df, (withKey ActionRow.key splits r.key).length ≤ 1) :
    (rowsOf symbol (adjustForSplits df splits)).Perm ((rowsOf symbol df).map fun r =>
        r.divideBy (laterJoined ActionRow.amount (rowsOf symbol df) splits r)) ∧
      ((rowsOf symbol (adjustForSplits df splits)).map OhlcvRow.key).Perm
        ((rowsOf symbol df).map OhlcvRow.key) := by
  have hperm := adjustedBy_perm ActionRow.amount OhlcvRow.divideBy (fun _ _ => rfl) divideBy_one
    huniq hone
  refine ⟨hperm, ?_⟩
  have hkeys := hperm.map OhlcvRow.key
  rw [List.map_map] at hkeys
  exact hkeys

/-- The actions of the days are those of the rows that the first step gives. -/
theorem one_dividend_iff
    (hkeys : ((rowsOf symbol (adjustForSplits df splits)).map OhlcvRow.key).Perm
      ((rowsOf symbol df).map OhlcvRow.key)) :
    (∀ r ∈ rowsOf symbol (adjustForSplits df splits),
        (withKey ActionRow.key dividends r.key).length ≤ 1) ↔
      ∀ r ∈ rowsOf symbol df, (withKey ActionRow.key dividends r.key).length ≤ 1 := by
  have hmap : ∀ rows : List OhlcvRow,
      (∀ r ∈ rows, (withKey ActionRow.key dividends r.key).length ≤ 1) ↔
        ∀ k ∈ rows.map OhlcvRow.key, (withKey ActionRow.key dividends k).length ≤ 1 := by
    intro rows
    rw [List.forall_mem_map]
  rw [hmap, hmap]
  exact forall_congr' fun k => by rw [hkeys.mem_iff]

/-- With one split and one dividend a day at most, each day is adjusted by all that come later. -/
theorem adjustPrices_perm (huniq : ((rowsOf symbol df).map OhlcvRow.key).Nodup)
    (hsplits : OnTradingDays df splits symbol) (hdividends : OnTradingDays df dividends symbol)
    (honeSplit : ∀ r ∈ rowsOf symbol df, (withKey ActionRow.key splits r.key).length ≤ 1)
    (honeDividend : ∀ r ∈ rowsOf symbol df, (withKey ActionRow.key dividends r.key).length ≤ 1) :
    ((rowsOf symbol (adjustPrices df (some splits) (some dividends))).map
        fun r => (r.date, r.close)).Perm
      ((rowsOf symbol df).map fun r => (r.date, adjustedClose splits dividends r)) := by
  obtain ⟨hfirst, hkeys⟩ := splitDays_perm huniq honeSplit
  have hsecond := adjustedBy_perm ActionRow.paid OhlcvRow.lessPaid (fun _ _ => rfl) lessPaid_one
    (hkeys.nodup_iff.mpr huniq) ((one_dividend_iff hkeys).mpr honeDividend)
  have hon : ∀ a ∈ dividends, a.symbol = symbol →
      a.key ∈ (rowsOf symbol (adjustForSplits df splits)).map OhlcvRow.key :=
    fun a ha hsymbol => hkeys.mem_iff.mpr (hdividends a ha hsymbol)
  have hboth := (hsecond.map fun r => (r.date, r.close)).trans (List.Perm.of_eq (List.map_map ..))
  refine hboth.trans ((hfirst.map _).trans (List.Perm.of_eq ?_))
  rw [List.map_map]
  apply List.map_congr_left
  intro r hr
  have hsymbol := (mem_rowsOf.mp hr).2
  have hdivided : ∀ split : ℚ, (r.divideBy split).symbol = symbol := fun _ => hsymbol
  simp only [Function.comp_apply]
  rw [laterJoined_eq ActionRow.amount hsplits hsymbol, laterJoined_eq ActionRow.paid hon
    (hdivided _), adjustedClose, hsymbol]
  simp only [OhlcvRow.lessPaid, OhlcvRow.divideBy, Option.map_map]
  rfl

/-- More than one split or dividend on a day repeats the day. -/
theorem one_action_of_length
    (h : (rowsOf symbol (adjustPrices df (some splits) (some dividends))).length =
      (rowsOf symbol df).length) (huniq : ((rowsOf symbol df).map OhlcvRow.key).Nodup) :
    (∀ r ∈ rowsOf symbol df, (withKey ActionRow.key splits r.key).length ≤ 1) ∧
      ∀ r ∈ rowsOf symbol df, (withKey ActionRow.key dividends r.key).length ≤ 1 := by
  obtain ⟨hle, hsplit⟩ := @length_adjustedBy _ _ ActionRow.amount df splits symbol
    OhlcvRow.divideBy fun _ _ => rfl
  obtain ⟨hle', hdividend⟩ := @length_adjustedBy _ _ ActionRow.paid (adjustForSplits df splits)
    dividends symbol OhlcvRow.lessPaid fun _ _ => rfl
  rw [← adjustForSplits_eq] at hle hsplit
  rw [← adjustForDividends_eq] at hle' hdividend
  rw [adjustPrices_eq] at h
  have honeSplit := hsplit.mp (by omega)
  have honeDividend := hdividend.mp (by omega)
  exact ⟨honeSplit, (one_dividend_iff (splitDays_perm huniq honeSplit).2).mp honeDividend⟩

/-! ## The close is constant -/

/-- Neighbours agree exactly when all agree. -/
theorem isChain_eq_iff {α β : Type*} {f : α → β} {xs : List α} [Inhabited β] :
    (xs.IsChain fun x y => f x = f y) ↔ ∃ c, ∀ x ∈ xs, f x = c := by
  have : IsTrans α fun x y => f x = f y := ⟨fun _ _ _ h h' => h.trans h'⟩
  rw [List.isChain_iff_pairwise]
  constructor
  · intro h
    cases xs with
    | nil => exact ⟨default, fun x hx => absurd hx List.not_mem_nil⟩
    | cons x xs =>
        refine ⟨f x, List.forall_mem_cons.mpr ⟨rfl, ?_⟩⟩
        exact fun y hy => ((List.pairwise_cons.mp h).1 y hy).symm
  · intro ⟨c, h⟩
    exact List.pairwise_of_forall_mem_list fun x hx y hy => (h x hx).trans (h y hy).symm

/-- A day's close agrees with that of the day before when the dividend is not to be split. -/
theorem adjustedClose_step_iff (huniq : ((rowsOf symbol df).map OhlcvRow.key).Nodup)
    (hsplits : OnTradingDays df splits symbol) (hdividends : OnTradingDays df dividends symbol)
    (hpos : ∀ a ∈ splits, 0 < a.amount) {before after : List OhlcvRow} {p r : OhlcvRow}
    (hdays : sortByKey OhlcvRow.key (rowsOf symbol df) = before ++ p :: r :: after)
    {previous : ℚ} (hp : p.close = some previous)
    (hr : r.close =
      some (previous / splitOn splits symbol r.date - dividendOn dividends symbol r.date)) :
    adjustedClose splits dividends p = adjustedClose splits dividends r ↔
      dividendOn dividends symbol r.date = 0 ∨ splitsAfter splits symbol r.date = 1 := by
  have hmem : ∀ s ∈ before ++ p :: r :: after, s.symbol = symbol := by
    intro s hs
    rw [← hdays, mem_sortByKey, mem_rowsOf] at hs
    exact hs.2
  have hsplit : splitsAfter splits symbol p.date =
      splitOn splits symbol r.date * splitsAfter splits symbol r.date :=
    prod_after_step ActionRow.amount huniq hsplits hdays
  have hdividend : dividendsAfter dividends symbol p.date =
      dividendOn dividends symbol r.date + dividendsAfter dividends symbol r.date :=
    prod_after_step ActionRow.paid huniq hdividends hdays
  have hlater : 0 < splitsAfter splits symbol r.date := prod_pos_of_pos hpos _
  have hratio : 0 < splitOn splits symbol r.date := prod_pos_of_pos hpos _
  rw [adjustedClose, adjustedClose, hp, hr, hmem p (by simp), hmem r (by simp), hsplit, hdividend,
    Option.map_some, Option.map_some, Option.some_inj]
  have hclose : previous / splitOn splits symbol r.date / splitsAfter splits symbol r.date =
      previous / (splitOn splits symbol r.date * splitsAfter splits symbol r.date) := div_div ..
  have hequal : dividendOn dividends symbol r.date =
        dividendOn dividends symbol r.date / splitsAfter splits symbol r.date ↔
      dividendOn dividends symbol r.date = 0 ∨ splitsAfter splits symbol r.date = 1 := by
    rw [eq_div_iff hlater.ne', mul_right_eq_self₀, or_comm]
  rw [sub_div, hclose, ← hequal]
  constructor
  · intro h
    linarith
  · intro h
    linarith

/-- A day that follows another one is the second of two neighbours. -/
theorem exists_day_before (huniq : ((rowsOf symbol df).map OhlcvRow.key).Nodup) {r : OhlcvRow}
    (hr : r ∈ rowsOf symbol df) (hearlier : ∃ p ∈ rowsOf symbol df, p.date < r.date) :
    ∃ before p after,
      sortByKey OhlcvRow.key (rowsOf symbol df) = before ++ p :: r :: after := by
  obtain ⟨q, hq, hlt⟩ := hearlier
  obtain ⟨before, after, hsplit⟩ := List.append_of_mem
    ((@mem_sortByKey _ _ _ OhlcvRow.key _ _).mpr hr)
  have hsorted := dates_sorted huniq
  rw [← @mem_sortByKey _ _ _ OhlcvRow.key, hsplit] at hq
  rw [hsplit, List.pairwise_append, List.pairwise_cons] at hsorted
  rcases List.eq_nil_or_concat before with hnil | ⟨front, p, hconcat⟩
  · -- the first day has none before it
    rw [hnil, List.nil_append, List.mem_cons] at hq
    rcases hq with rfl | hq
    · omega
    · have hafter := hsorted.2.1.1 q hq
      omega
  · refine ⟨front, p, after, ?_⟩
    rw [hsplit, hconcat, List.concat_eq_append, List.append_assoc, List.singleton_append]

/-- `adjust_prices` gives one row for each day, with a constant close, exactly when a day has one
split and one dividend at most and a dividend that counts comes after the splits. -/
theorem combined_adjustment_is_constant_iff (symbol : String)
    (huniq : ((rowsOf symbol df).map OhlcvRow.key).Nodup)
    (hsplits : OnTradingDays df splits symbol) (hdividends : OnTradingDays df dividends symbol)
    (hpos : ∀ a ∈ splits, 0 < a.amount) (hmoves : MovesByActions df splits dividends symbol) :
    ConstantClose df (adjustPrices df (some splits) (some dividends)) symbol ↔
      DividendsAfterSplits df splits dividends symbol := by
  have hneighbours := List.isChain_iff_forall_rel_of_append_cons_cons.mp hmoves
  have hconstant : (∃ c, ∀ r ∈ rowsOf symbol df, adjustedClose splits dividends r = c) ↔
      ∀ r ∈ rowsOf symbol df, (∃ p ∈ rowsOf symbol df, p.date < r.date) →
        dividendOn dividends symbol r.date = 0 ∨ splitsAfter splits symbol r.date = 1 := by
    have hchain := @isChain_eq_iff _ _ (adjustedClose splits dividends)
      (sortByKey OhlcvRow.key (rowsOf symbol df)) _
    simp only [mem_sortByKey] at hchain
    rw [← hchain, List.isChain_iff_forall_rel_of_append_cons_cons]
    constructor
    · intro h r hr hearlier
      obtain ⟨before, p, after, hdays⟩ := exists_day_before huniq hr hearlier
      obtain ⟨previous, hp, hclose⟩ := hneighbours hdays
      exact (adjustedClose_step_iff huniq hsplits hdividends hpos hdays hp hclose).mp (h hdays)
    · intro h p r before after hdays
      obtain ⟨previous, hp, hclose⟩ := hneighbours hdays
      apply (adjustedClose_step_iff huniq hsplits hdividends hpos hdays hp hclose).mpr
      have hmem : ∀ s ∈ before ++ p :: r :: after, s ∈ rowsOf symbol df := by
        intro s hs
        rwa [← hdays, mem_sortByKey] at hs
      have hlt := dates_sorted huniq
      rw [hdays, List.pairwise_append, List.pairwise_cons] at hlt
      exact h r (hmem r (by simp)) ⟨p, hmem p (by simp), hlt.2.1.1 r List.mem_cons_self⟩
  constructor
  · rintro ⟨c, hperm⟩
    have hlength := hperm.length_eq
    rw [List.length_map, List.length_map] at hlength
    obtain ⟨honeSplit, honeDividend⟩ := one_action_of_length hlength huniq
    refine ⟨honeSplit, honeDividend, hconstant.mp ⟨c, ?_⟩⟩
    have hadjusted := (adjustPrices_perm huniq hsplits hdividends honeSplit honeDividend).symm.trans
      hperm
    intro r hr
    have hmem := hadjusted.mem_iff.mp (List.mem_map_of_mem hr)
    obtain ⟨s, -, hs⟩ := List.mem_map.mp hmem
    exact (Prod.mk.inj hs).2.symm
  · intro h
    obtain ⟨c, hc⟩ := hconstant.mpr h.inOrder
    refine ⟨c, ?_⟩
    have hadjusted := adjustPrices_perm huniq hsplits hdividends h.oneSplit h.oneDividend
    have hsame : (rowsOf symbol df).map (fun r => (r.date, adjustedClose splits dividends r)) =
        (rowsOf symbol df).map fun r => (r.date, c) := by
      apply List.map_congr_left
      intro r hr
      rw [hc r hr]
    rwa [hsame] at hadjusted

end Steps

/-! ## A split of two for one and a dividend -/

def closeOn (date : Int) (close : ℚ) : OhlcvRow :=
  ⟨"AAPL", date, some close, some close, some close, some close, some 1000⟩

/-- First the split, then a dividend of 5. -/
def splitThenDividend : List OhlcvRow := [closeOn 1 100, closeOn 2 50, closeOn 3 45]

theorem combined_adjustment_split_first :
    ConstantClose splitThenDividend (adjustPrices splitThenDividend (some [⟨"AAPL", 2, 2⟩])
      (some [⟨"AAPL", 3, 5⟩])) "AAPL" := by
  apply (combined_adjustment_is_constant_iff "AAPL" (by decide +kernel)
    (by unfold OnTradingDays; decide +kernel) (by unfold OnTradingDays; decide +kernel)
    (by decide +kernel) ?_).mpr
  · exact ⟨by decide +kernel, by decide +kernel, by decide +kernel⟩
  · have hsorted : sortByKey OhlcvRow.key (rowsOf "AAPL" splitThenDividend) =
        splitThenDividend := by decide +kernel
    rw [MovesByActions, hsorted]
    refine .cons_cons ⟨100, rfl, ?_⟩ (.cons_cons ⟨50, rfl, ?_⟩ (.singleton _))
    · decide +kernel
    · decide +kernel

/-- First a dividend of 10, then the split: the dividend is subtracted as it was paid, although
each share of its day is two of today's. -/
def dividendThenSplit : List OhlcvRow := [closeOn 1 100, closeOn 2 90, closeOn 3 45]

theorem early_dividend_is_subtracted_whole :
    MovesByActions dividendThenSplit [⟨"AAPL", 3, 2⟩] [⟨"AAPL", 2, 10⟩] "AAPL" ∧
      (adjustPrices dividendThenSplit (some [⟨"AAPL", 3, 2⟩]) (some [⟨"AAPL", 2, 10⟩])).map
        (·.close) = [some 40, some 45, some 45] ∧
      ¬ConstantClose dividendThenSplit (adjustPrices dividendThenSplit
        (some [⟨"AAPL", 3, 2⟩]) (some [⟨"AAPL", 2, 10⟩])) "AAPL" := by
  have hcloses : (rowsOf "AAPL" (adjustPrices dividendThenSplit (some [⟨"AAPL", 3, 2⟩])
      (some [⟨"AAPL", 2, 10⟩]))).map (fun r => (r.date, r.close)) =
        [(1, some 40), (2, some 45), (3, some 45)] := by decide +kernel
  refine ⟨?_, by decide +kernel, ?_⟩
  · have hsorted : sortByKey OhlcvRow.key (rowsOf "AAPL" dividendThenSplit) =
        dividendThenSplit := by decide +kernel
    rw [MovesByActions, hsorted]
    refine .cons_cons ⟨100, rfl, ?_⟩ (.cons_cons ⟨90, rfl, ?_⟩ (.singleton _))
    · decide +kernel
    · decide +kernel
  · intro ⟨c, hperm⟩
    rw [hcloses] at hperm
    have hclose : ∀ q : Int × Option ℚ, q ∈ [(1, some 40), (2, some 45), (3, some 45)] →
        q.2 = c := by
      intro q hq
      obtain ⟨r, -, rfl⟩ := List.mem_map.mp (hperm.mem_iff.mp hq)
      rfl
    have hfirst := hclose (1, some 40) (by decide +kernel)
    have hsecond := hclose (2, some 45) (by decide +kernel)
    rw [← hfirst] at hsecond
    revert hsecond
    decide +kernel

end TradingPlatform.Data
