import TradingPlatform.Base.DecimalPlaces
import TradingPlatform.Tax.WashSales
import Mathlib.Order.Bounds.Basic

/-! # Harvesting advice

The open lots with a loss are listed for sale, each with the risk of a wash sale as the recent
purchases show it. The detection looks at another window, from another moment, and not at the
lots that are closed: what a listed lot may count on is stated between the two.
-/

namespace TradingPlatform.Tax

open Base

/-! ## The scan -/

/-- The `date()` of a timestamp in UTC, by days on the time line. -/
def dateOf (t : Timestamp) : Int := t / secondsPerDay

inductive HoldingPeriod where
  | shortTerm | longTerm
  deriving DecidableEq, Repr

structure HarvestingOpportunity where
  lotId : ℕ
  symbol : String
  shares : ℚ
  costBasis : ℚ
  currentPrice : ℚ
  unrealizedLoss : ℚ
  holdingPeriod : HoldingPeriod
  washSaleRisk : Bool
  washSaleClearDate : Option Int
  repurchaseRestrictedUntil : Int

structure HarvestingRecommendation where
  opportunities : List HarvestingOpportunity
  totalHarvestableLoss : ℚ
  estimatedTaxSavings : ℚ
  warnings : List String

inductive HarvestError where
  /-- `decimal.InvalidOperation`: the quantized number has too many digits -/
  | invalidOperation
  deriving DecidableEq, Repr

/-- Purchases of the symbol in the thirty days up to now, without the lot to be sold. -/
def recentPurchases (books : TaxBooks) (userId symbol : String) (lotId : ℕ) (now : Timestamp) :
    List TaxLot :=
  books.lots.select fun l =>
    l.userId = userId && l.symbol = symbol && l.id ≠ lotId &&
      now - 30 * secondsPerDay ≤ l.acquiredAt && l.acquiredAt ≤ now

def checkWashSaleRisk (books : TaxBooks) (userId symbol : String) (lotId : ℕ) (now : Timestamp) :
    Bool × Option Int :=
  let recent := recentPurchases books userId symbol lotId now
  if 0 < recent.length then
    match (recent.map TaxLot.acquiredAt).max? with
    | some latest => (true, some (dateOf (latest + 31 * secondsPerDay)))
    | none => (false, none)
  else (false, none)

/-- `remaining_qty * current_price - remaining_qty * cost_per_share` in the context's digits. -/
def unrealizedPnl (lot : TaxLot) (currentPrice : ℚ) : ℚ :=
  toPrecision contextDigits
    (toPrecision contextDigits (lot.remainingQuantity * currentPrice) -
      toPrecision contextDigits (lot.remainingQuantity * lot.costPerShare))

def opportunityOf (books : TaxBooks) (userId : String) (now : Timestamp) (lot : TaxLot)
    (currentPrice : ℚ) : HarvestingOpportunity :=
  let risk := checkWashSaleRisk books userId lot.symbol lot.id now
  { lotId := lot.id
    symbol := lot.symbol
    shares := lot.remainingQuantity
    costBasis := toPrecision contextDigits (lot.remainingQuantity * lot.costPerShare)
    currentPrice
    unrealizedLoss := unrealizedPnl lot currentPrice
    holdingPeriod := if (now - lot.acquiredAt) / secondsPerDay > 365 then .longTerm else .shortTerm
    washSaleRisk := risk.1
    washSaleClearDate := risk.2
    repurchaseRestrictedUntil := dateOf (now + 31 * secondsPerDay) }

structure HarvestScan where
  opportunities : List HarvestingOpportunity
  warnings : List String
  totalLoss : ℚ

/-- A round of the loop over the open lots. -/
def scanLot (books : TaxBooks) (userId : String) (currentPrices : String → Option ℚ)
    (minLossThreshold : ℚ) (now : Timestamp) (s : HarvestScan) (lot : TaxLot) : HarvestScan :=
  match currentPrices lot.symbol with
  | none => { s with warnings := s.warnings ++ ["No price available for " ++ lot.symbol] }
  | some currentPrice =>
      let pnl := unrealizedPnl lot currentPrice
      if 0 ≤ pnl then s
      else if |pnl| < minLossThreshold then s
      else
        let o := opportunityOf books userId now lot currentPrice
        { s with
          opportunities := s.opportunities ++ [o]
          totalLoss :=
            if o.washSaleRisk then s.totalLoss
            else toPrecision contextDigits (s.totalLoss + |pnl|) }

def shortTermTaxRate : ℚ := 35 / 100

def longTermTaxRate : ℚ := 15 / 100

/-- `savings.quantize(Decimal("0.01"))` -/
def quantizeCents (q : ℚ) : Except HarvestError ℚ :=
  let cents := roundHalfEven (q * 100)
  if |cents| < 10 ^ contextDigits then .ok (cents / 100) else .error .invalidOperation

def savingsOf (opportunities : List HarvestingOpportunity) : ℚ :=
  opportunities.foldl (fun savings o =>
    if o.washSaleRisk then savings
    else
      let rate := if o.holdingPeriod = .shortTerm then shortTermTaxRate else longTermTaxRate
      toPrecision contextDigits
        (savings + toPrecision contextDigits (|o.unrealizedLoss| * rate))) 0

def estimateTaxSavings (opportunities : List HarvestingOpportunity) : Except HarvestError ℚ :=
  quantizeCents (savingsOf opportunities)

/-- Most negative first. -/
def sortedByLoss (opportunities : List HarvestingOpportunity) : List HarvestingOpportunity :=
  opportunities.insertionSort fun o o' => o.unrealizedLoss ≤ o'.unrealizedLoss

section

-- the order of symbols is the collation of the database
variable (collation : String → String → Prop) [DecidableRel collation]

/-- Open lots by symbol and time of purchase. -/
def openLots (books : TaxBooks) (userId : String) : List TaxLot :=
  (books.lots.select fun l => l.userId = userId && 0 < l.remainingQuantity).insertionSort
    fun l m => if l.symbol = m.symbol then l.acquiredAt ≤ m.acquiredAt
      else collation l.symbol m.symbol

def scanLots (books : TaxBooks) (userId : String) (currentPrices : String → Option ℚ)
    (minLossThreshold : ℚ) (now : Timestamp) : HarvestScan :=
  (openLots collation books userId).foldl
    (scanLot books userId currentPrices minLossThreshold now) ⟨[], [], 0⟩

def findOpportunities (books : TaxBooks) (userId : String) (currentPrices : String → Option ℚ)
    (minLossThreshold : ℚ) (now : Timestamp) : Except HarvestError HarvestingRecommendation :=
  let scan := scanLots collation books userId currentPrices minLossThreshold now
  let sortedOpportunities := sortedByLoss scan.opportunities
  match estimateTaxSavings sortedOpportunities with
  | .error e => .error e
  | .ok estimatedSavings =>
      .ok ⟨sortedOpportunities, scan.totalLoss, estimatedSavings, scan.warnings⟩

end

/-! ## What is listed -/

/-- The price at which a lot has a loss of at least the threshold. -/
def harvestPrice (currentPrices : String → Option ℚ) (minLossThreshold : ℚ) (lot : TaxLot) :
    Option ℚ :=
  match currentPrices lot.symbol with
  | none => none
  | some p =>
      if unrealizedPnl lot p < 0 ∧ minLossThreshold ≤ |unrealizedPnl lot p| then some p else none

def harvested (books : TaxBooks) (userId : String) (currentPrices : String → Option ℚ)
    (minLossThreshold : ℚ) (now : Timestamp) (lot : TaxLot) : Option HarvestingOpportunity :=
  (harvestPrice currentPrices minLossThreshold lot).map (opportunityOf books userId now lot)

/-- The losses that are safe to harvest. -/
def safeLosses (opportunities : List HarvestingOpportunity) : List ℚ :=
  (opportunities.filter fun o => !o.washSaleRisk).map fun o => |o.unrealizedLoss|

section

variable {books : TaxBooks} {userId : String} {currentPrices : String → Option ℚ}
  {minLossThreshold : ℚ} {now : Timestamp}

theorem harvestPrice_eq_some {lot : TaxLot} {p : ℚ} :
    harvestPrice currentPrices minLossThreshold lot = some p ↔
      currentPrices lot.symbol = some p ∧ unrealizedPnl lot p < 0 ∧
        minLossThreshold ≤ |unrealizedPnl lot p| := by
  unfold harvestPrice
  cases hprice : currentPrices lot.symbol with
  | none => simp
  | some q =>
      rw [Option.ite_none_right_eq_some, Option.some.injEq]
      constructor
      · intro ⟨hloss, hq⟩
        rw [hq] at hloss
        exact ⟨hq, hloss⟩
      · intro ⟨hq, hloss⟩
        rw [hq]
        exact ⟨hloss, rfl⟩

/-- A round lists the lot or leaves both sums as they are. -/
theorem scanLot_spec (s : HarvestScan) (lot : TaxLot) :
    (scanLot books userId currentPrices minLossThreshold now s lot).opportunities =
        s.opportunities ++
          (harvested books userId currentPrices minLossThreshold now lot).toList ∧
      (scanLot books userId currentPrices minLossThreshold now s lot).totalLoss =
        contextSum contextDigits s.totalLoss
          (safeLosses (harvested books userId currentPrices minLossThreshold now lot).toList) := by
  unfold scanLot harvested harvestPrice safeLosses
  cases hprice : currentPrices lot.symbol with
  | none => simp [contextSum]
  | some p =>
      by_cases hgain : 0 ≤ unrealizedPnl lot p
      · have hloss := not_lt.mpr hgain
        simp [contextSum, hgain, hloss]
      · have hloss := not_le.mp hgain
        by_cases hsmall : |unrealizedPnl lot p| < minLossThreshold
        · have hlarge := not_le.mpr hsmall
          simp [contextSum, hgain, hsmall, hlarge]
        · have hlarge := not_lt.mp hsmall
          have hpnl : (opportunityOf books userId now lot p).unrealizedLoss =
            unrealizedPnl lot p := rfl
          cases hrisk : (opportunityOf books userId now lot p).washSaleRisk <;>
            simp [contextSum, hgain, hsmall, hloss, hlarge, hrisk, hpnl]

/-- What the loop has listed and added up behind a list of lots. -/
theorem foldl_scanLot (lots : List TaxLot) (s : HarvestScan) :
    (lots.foldl (scanLot books userId currentPrices minLossThreshold now) s).opportunities =
        s.opportunities ++
          lots.filterMap (harvested books userId currentPrices minLossThreshold now) ∧
      (lots.foldl (scanLot books userId currentPrices minLossThreshold now) s).totalLoss =
        contextSum contextDigits s.totalLoss
          (safeLosses (lots.filterMap
            (harvested books userId currentPrices minLossThreshold now))) := by
  induction lots generalizing s with
  | nil => simp [safeLosses, contextSum]
  | cons lot lots ih =>
      obtain ⟨hlisted, htotal⟩ :=
        ih (scanLot books userId currentPrices minLossThreshold now s lot)
      obtain ⟨hfirst, hfirstTotal⟩ := @scanLot_spec books userId currentPrices
        minLossThreshold now s lot
      have hcons : (lot :: lots).filterMap
          (harvested books userId currentPrices minLossThreshold now) =
            (harvested books userId currentPrices minLossThreshold now lot).toList ++
              lots.filterMap (harvested books userId currentPrices minLossThreshold now) := by
        rw [List.filterMap_cons]
        cases harvested books userId currentPrices minLossThreshold now lot <;> rfl
      rw [List.foldl_cons, hlisted, htotal, hfirst, hfirstTotal, hcons]
      constructor
      · rw [List.append_assoc]
      · simp [safeLosses, contextSum]

end

/-- What is known of a lot that is listed. -/
structure Harvestable (books : TaxBooks) (userId : String) (currentPrices : String → Option ℚ)
    (minLossThreshold : ℚ) (lot : TaxLot) (currentPrice : ℚ) : Prop where
  booked : lot ∈ books.lots.rows
  owner : lot.userId = userId
  openShares : 0 < lot.remainingQuantity
  priced : currentPrices lot.symbol = some currentPrice
  loss : unrealizedPnl lot currentPrice < 0
  large : minLossThreshold ≤ |unrealizedPnl lot currentPrice|

section

variable {collation : String → String → Prop} [DecidableRel collation] {books : TaxBooks}
  {userId : String} {currentPrices : String → Option ℚ} {minLossThreshold : ℚ} {now : Timestamp}
  {r : HarvestingRecommendation}

theorem mem_openLots {lot : TaxLot} :
    lot ∈ openLots collation books userId ↔
      lot ∈ books.lots.rows ∧ lot.userId = userId ∧ 0 < lot.remainingQuantity := by
  unfold openLots
  rw [List.mem_insertionSort, Table.select, List.mem_filter]
  simp

theorem nodup_openLots : ((openLots collation books userId).map TaxLot.id).Nodup := by
  have hperm : (openLots collation books userId).Perm
      (books.lots.select fun l => l.userId = userId && 0 < l.remainingQuantity) :=
    List.perm_insertionSort _ _
  rw [(hperm.map TaxLot.id).nodup_iff]
  exact books.lots.keys_nodup.sublist (List.filter_sublist.map TaxLot.id)

/-- The scan in the order of the query. -/
def scanned (collation : String → String → Prop) [DecidableRel collation] (books : TaxBooks)
    (userId : String) (currentPrices : String → Option ℚ) (minLossThreshold : ℚ)
    (now : Timestamp) : List HarvestingOpportunity :=
  (openLots collation books userId).filterMap
    (harvested books userId currentPrices minLossThreshold now)

theorem findOpportunities_spec
    (h : findOpportunities collation books userId currentPrices minLossThreshold now = .ok r) :
    r.opportunities.Perm
        (scanned collation books userId currentPrices minLossThreshold now) ∧
      r.totalHarvestableLoss = contextSum contextDigits 0
        (safeLosses (scanned collation books userId currentPrices minLossThreshold now)) := by
  obtain ⟨hlisted, htotal⟩ := @foldl_scanLot books userId currentPrices minLossThreshold now
    (openLots collation books userId) ⟨[], [], 0⟩
  unfold findOpportunities at h
  dsimp only at h
  split at h
  · exact absurd h (by simp)
  · rw [← Except.ok.inj h]
    constructor
    · show (sortedByLoss (scanLots collation books userId currentPrices minLossThreshold
        now).opportunities).Perm _
      unfold scanLots
      rw [hlisted]
      exact List.perm_insertionSort _ _
    · exact htotal

/-- The scan fails only if the estimated savings have too many digits. -/
theorem findOpportunities_returns_iff :
    (∃ r, findOpportunities collation books userId currentPrices minLossThreshold now = .ok r) ↔
      |roundHalfEven (savingsOf (sortedByLoss
        (scanned collation books userId currentPrices minLossThreshold now)) * 100)| <
          10 ^ contextDigits := by
  obtain ⟨hlisted, _⟩ := @foldl_scanLot books userId currentPrices minLossThreshold now
    (openLots collation books userId) ⟨[], [], 0⟩
  have hscan : (scanLots collation books userId currentPrices minLossThreshold
      now).opportunities = scanned collation books userId currentPrices minLossThreshold now :=
    hlisted
  unfold findOpportunities estimateTaxSavings quantizeCents
  dsimp only
  rw [hscan]
  by_cases hfits : |roundHalfEven (savingsOf (sortedByLoss
      (scanned collation books userId currentPrices minLossThreshold now)) * 100)| <
        10 ^ contextDigits
  · simp [hfits]
  · simp [hfits]

theorem mem_scanned {o : HarvestingOpportunity} :
    o ∈ scanned collation books userId currentPrices minLossThreshold now ↔
      ∃ lot p, Harvestable books userId currentPrices minLossThreshold lot p ∧
        opportunityOf books userId now lot p = o := by
  unfold scanned harvested
  rw [List.mem_filterMap]
  constructor
  · intro ⟨lot, hlot, ho⟩
    obtain ⟨hbooked, howner, hopen⟩ := mem_openLots.mp hlot
    obtain ⟨p, hp, ho⟩ := Option.map_eq_some_iff.mp ho
    obtain ⟨hpriced, hloss, hlarge⟩ := harvestPrice_eq_some.mp hp
    exact ⟨lot, p, ⟨hbooked, howner, hopen, hpriced, hloss, hlarge⟩, ho⟩
  · intro ⟨lot, p, h, ho⟩
    have hp := harvestPrice_eq_some.mpr ⟨h.priced, h.loss, h.large⟩
    exact ⟨lot, mem_openLots.mpr ⟨h.booked, h.owner, h.openShares⟩,
      Option.map_eq_some_iff.mpr ⟨p, hp, ho⟩⟩

theorem sublist_harvested (lots : List TaxLot) :
    ((lots.filterMap (harvested books userId currentPrices minLossThreshold now)).map
      HarvestingOpportunity.lotId).Sublist (lots.map TaxLot.id) := by
  induction lots with
  | nil => exact List.nil_sublist []
  | cons lot lots ih =>
      rw [List.filterMap_cons, List.map_cons]
      cases hlot : harvested books userId currentPrices minLossThreshold now lot with
      | none => exact ih.cons lot.id
      | some o =>
          obtain ⟨p, _, ho⟩ := Option.map_eq_some_iff.mp hlot
          have hid : o.lotId = lot.id := by rw [← ho]; rfl
          rw [List.map_cons, hid]
          exact ih.cons_cons lot.id

/-- No lot is listed twice. -/
theorem nodup_scanned :
    ((scanned collation books userId currentPrices minLossThreshold now).map
      HarvestingOpportunity.lotId).Nodup := by
  have hopen : ((openLots collation books userId).map TaxLot.id).Nodup := nodup_openLots
  exact hopen.sublist (sublist_harvested _)

end

/-! ## The sale of a listed lot -/

/-- The books when the listed lot has been sold at a time: it has no shares left, what was
bought up to the scan was known to the scan, and nothing was bought between the scan and the
end of the thirty days after the sale. -/
structure SoldWithout (books later : TaxBooks) (userId : String) (o : HarvestingOpportunity)
    (now saleDate : Timestamp) : Prop where
  sold : ∀ l ∈ later.lots.rows, l.id = o.lotId → l.remainingQuantity = 0
  known : ∀ l ∈ later.lots.rows, l.userId = userId → l.symbol = o.symbol → l.acquiredAt ≤ now →
    ∃ l' ∈ books.lots.rows, l'.id = l.id ∧ l'.userId = userId ∧ l'.symbol = o.symbol ∧
      l'.acquiredAt = l.acquiredAt
  bought : ∀ l ∈ later.lots.rows, l.userId = userId → l.symbol = o.symbol → now < l.acquiredAt →
    saleDate + 30 * secondsPerDay < l.acquiredAt

section

variable {books later : TaxBooks} {userId symbol : String} {lotId : ℕ}
  {now saleDate : Timestamp} {o : HarvestingOpportunity}

theorem recentPurchases_eq_nil
    (h : (checkWashSaleRisk books userId symbol lotId now).1 = false) :
    recentPurchases books userId symbol lotId now = [] := by
  cases hrecent : recentPurchases books userId symbol lotId now with
  | nil => rfl
  | cons l rest =>
      have hsome : ((l :: rest).map TaxLot.acquiredAt).max?.isSome :=
        List.isSome_max?_of_ne_nil (by simp)
      simp [checkWashSaleRisk, hrecent] at h

/-- The clear date is no earlier than that of any recent purchase. -/
theorem le_clearDate {d : Int}
    (h : (checkWashSaleRisk books userId symbol lotId now).2 = some d) {l : TaxLot}
    (hl : l ∈ recentPurchases books userId symbol lotId now) :
    dateOf (l.acquiredAt + 31 * secondsPerDay) ≤ d := by
  unfold checkWashSaleRisk at h
  dsimp only at h
  split at h
  · split at h
    · rename_i latest hlatest
      have hle : l.acquiredAt ≤ latest :=
        (List.max?_eq_some_iff.mp hlatest).2 _ (List.mem_map_of_mem hl)
      have hd : dateOf (latest + 31 * secondsPerDay) = d := Option.some.inj h
      rw [← hd]
      exact Int.ediv_le_ediv (by decide) (Int.add_le_add_right hle _)
    · exact absurd h (by simp)
  · exact absurd h (by simp)

/-- A sale on the thirty-first day after a purchase or later is more than thirty days after it. -/
theorem lt_of_dateOf_le {acquiredAt saleDate : Int}
    (h : dateOf (acquiredAt + 31 * secondsPerDay) ≤ dateOf saleDate) :
    acquiredAt < saleDate - washSaleWindowDays * secondsPerDay := by
  unfold dateOf secondsPerDay at h
  unfold washSaleWindowDays secondsPerDay
  omega

/-- No lot is left for the detection to match. -/
theorem replacementLots_eq_nil (hsold : SoldWithout books later userId o now saleDate)
    (hnow : now ≤ saleDate)
    (hrecent : ∀ l ∈ recentPurchases books userId o.symbol o.lotId now,
      l.acquiredAt < saleDate - washSaleWindowDays * secondsPerDay) :
    replacementLots later userId o.symbol saleDate = [] := by
  have hselect : (later.lots.select fun l =>
      l.userId = userId && l.symbol = o.symbol &&
        saleDate - washSaleWindowDays * secondsPerDay ≤ l.acquiredAt &&
        l.acquiredAt ≤ saleDate + washSaleWindowDays * secondsPerDay &&
        0 < l.remainingQuantity) = [] := by
    apply List.filter_eq_nil_iff.mpr
    intro l hl hmatch
    simp only [Bool.and_eq_true, decide_eq_true_eq] at hmatch
    obtain ⟨⟨⟨⟨huser, hsymbol⟩, hfrom⟩, hto⟩, hshares⟩ := hmatch
    rcases le_or_gt l.acquiredAt now with hpast | hfuture
    · by_cases hid : l.id = o.lotId
      · rw [hsold.sold l hl hid] at hshares
        exact absurd hshares (lt_irrefl 0)
      · obtain ⟨l', hl', hid', huser', hsymbol', hacquired⟩ :=
          hsold.known l hl huser hsymbol hpast
        have hmem : l' ∈ recentPurchases books userId o.symbol o.lotId now := by
          apply List.mem_filter.mpr
          refine ⟨hl', ?_⟩
          rw [← hid'] at hid
          have hlookback : now - 30 * secondsPerDay ≤ l.acquiredAt :=
            (sub_le_sub_right hnow _).trans hfrom
          simpa [huser', hsymbol', hid, hacquired, hpast] using hlookback
        have hlt := hrecent l' hmem
        rw [hacquired] at hlt
        exact absurd hfrom (not_le.mpr hlt)
    · have hlate := hsold.bought l hl huser hsymbol hfuture
      exact absurd hto (not_le.mpr hlate)
  unfold replacementLots
  rw [hselect]
  rfl

theorem detectWashSales_eq_nil {lossAmount sharesSold : ℚ} (hshares : 0 < sharesSold)
    (h : replacementLots later userId symbol saleDate = []) :
    detectWashSales later userId symbol saleDate lossAmount sharesSold =
      .ok [] := by
  unfold detectWashSales
  rw [if_neg (not_le.mpr hshares), h]
  split <;> rfl

end

/-! ## The advice -/

/-- What a recommendation promises: a listed lot that is sold when its risk is over has no wash
sale, every lot with a large enough loss is listed once and no other, and the total is that of
the losses without risk, as the context adds them up in the order of the query. -/
structure SoundAdvice (collation : String → String → Prop) [DecidableRel collation]
    (books : TaxBooks) (userId : String) (currentPrices : String → Option ℚ)
    (minLossThreshold : ℚ) (now : Timestamp) (r : HarvestingRecommendation) : Prop where
  noWashSale : ∀ o ∈ r.opportunities, ∀ later saleDate lossAmount, now ≤ saleDate →
    (o.washSaleRisk = false ∨
      ∃ d, o.washSaleRisk = true ∧ o.washSaleClearDate = some d ∧ d ≤ dateOf saleDate) →
    SoldWithout books later userId o now saleDate →
    detectWashSales later userId o.symbol saleDate lossAmount o.shares = .ok []
  listedOnce : (r.opportunities.map HarvestingOpportunity.lotId).Nodup
  isListed : ∀ o, o ∈ r.opportunities ↔
    ∃ lot p, Harvestable books userId currentPrices minLossThreshold lot p ∧
      opportunityOf books userId now lot p = o
  total : ∃ inOrder, inOrder.Perm r.opportunities ∧
    (inOrder.map HarvestingOpportunity.lotId).Sublist
      ((openLots collation books userId).map TaxLot.id) ∧
    r.totalHarvestableLoss = contextSum contextDigits 0 (safeLosses inOrder) ∧
    ((∀ n, FitsDigits contextDigits ((safeLosses inOrder).take n).sum) →
      r.totalHarvestableLoss = (safeLosses r.opportunities).sum)

theorem soundAdvice_of_ok {collation : String → String → Prop} [DecidableRel collation]
    {books : TaxBooks} {userId : String} {currentPrices : String → Option ℚ}
    {minLossThreshold : ℚ} {now : Timestamp} {r : HarvestingRecommendation}
    (h : findOpportunities collation books userId currentPrices minLossThreshold now = .ok r) :
    SoundAdvice collation books userId currentPrices minLossThreshold now r := by
  obtain ⟨hperm, htotal⟩ := findOpportunities_spec h
  constructor
  case noWashSale =>
    intro o ho later saleDate lossAmount hnow hclear hsold
    obtain ⟨lot, p, hlot, rfl⟩ := mem_scanned.mp (hperm.mem_iff.mp ho)
    apply detectWashSales_eq_nil hlot.openShares
    apply replacementLots_eq_nil hsold hnow
    intro l hl
    rcases hclear with hsafe | ⟨d, _, hd, hle⟩
    · have hnil : recentPurchases books userId lot.symbol lot.id now = [] :=
        recentPurchases_eq_nil hsafe
      have hmem : l ∈ recentPurchases books userId lot.symbol lot.id now := hl
      rw [hnil] at hmem
      exact absurd hmem List.not_mem_nil
    · exact lt_of_dateOf_le ((le_clearDate hd hl).trans hle)
  case listedOnce =>
    rw [(hperm.map HarvestingOpportunity.lotId).nodup_iff]
    exact nodup_scanned
  case isListed =>
    intro o
    rw [hperm.mem_iff]
    exact mem_scanned
  case total =>
    refine ⟨_, hperm.symm, sublist_harvested _, htotal, ?_⟩
    intro hfits
    have hlosses : (safeLosses r.opportunities).Perm (safeLosses
        (scanned collation books userId currentPrices minLossThreshold now)) :=
      (hperm.filter _).map _
    rw [htotal, contextSum_eq_sum (by simpa [zero_add] using hfits), zero_add]
    exact hlosses.sum_eq.symm

def oldLot (remaining : ℚ) : TaxLot where
  id := 1
  userId := "trader"
  symbol := "ACME"
  quantity := 12
  remainingQuantity := remaining
  costPerShare := 200
  totalCost := 200 * remaining
  acquiredAt := 0
  quantity_pos := by norm_num

/-- Twelve shares bought long ago and five bought ten days before the scan. -/
def recentBooks (remaining : ℚ) : TaxBooks where
  lots := ⟨[oldLot remaining,
    { id := 2, userId := "trader", symbol := "ACME", quantity := 5, remainingQuantity := 5
      costPerShare := 150, totalCost := 750, acquiredAt := 990 * secondsPerDay
      quantity_pos := by norm_num }],
    by simp [oldLot]⟩
  dispositions := .empty
  adjustments := .empty

/-- A lot of a billion shares and one of a share and a bit, both bought long ago. -/
def wideBooks : TaxBooks where
  lots := ⟨[
    { id := 1, userId := "trader", symbol := "BULK", quantity := 1000000000
      remainingQuantity := 1000000000, costPerShare := 1000000000
      totalCost := 1000000000000000000, acquiredAt := 0, quantity_pos := by norm_num },
    { id := 2, userId := "trader", symbol := "ODD", quantity := 100000001 / 100000000
      remainingQuantity := 100000001 / 100000000, costPerShare := 20000000001 / 100000000
      totalCost := 200, acquiredAt := 0, quantity_pos := by norm_num }],
    by decide⟩
  dispositions := .empty
  adjustments := .empty

def widePrices (symbol : String) : Option ℚ :=
  if symbol = "BULK" then some (1 / 2) else if symbol = "ODD" then some 1 else none

end TradingPlatform.Tax
