import TradingPlatform.Base.RunLength
import Mathlib.Data.Rat.Cast.Order
import Mathlib.Algebra.Order.Field.Basic
import Mathlib.Tactic.FieldSimp
import Mathlib.Tactic.Linarith

/-! # VPIN buckets

The trades of a day fill buckets of one volume, a trade that does not fit being split in
proportion. Over all the volume in a row, bucket `k` holds the stretch from `k` to `k + 1` bucket
volumes, whatever trades it was cut from. Sizes are whole numbers; the buy and sell volumes, which
the code keeps in doubles, are taken without rounding.
-/

namespace TradingPlatform.Analytics

open Base

/-! ## Buckets -/

/-- A trade after the lookback, by its place in the arrays that the loop reads. -/
structure VpinTrade where
  size : ℕ
  vBuy : ℚ
  vSell : ℚ
  sigmaZero : Bool
  cumulativeVolume : ℕ
  timestamp : ℤ
  deriving Repr

structure VpinBucket where
  bucketId : ℕ
  /-- `none` is not a number. -/
  vpin : Option ℚ
  cumulativeVolume : ℕ
  imbalance : ℚ
  timestamp : Option ℤ
  isPartial : Bool
  isWarmup : Bool
  deriving DecidableEq, Repr

/-- The variables of the loop. -/
structure BucketLoop where
  volume : ℕ
  vBuy : ℚ
  vSell : ℚ
  timestamp : Option ℤ
  sigmaZeroContaminated : Bool
  vBuyHistory : List ℚ
  vSellHistory : List ℚ
  buckets : List VpinBucket
  deriving Repr

/-- What is left of a trade. -/
structure RemainingVolume where
  volume : ℕ
  vBuy : ℚ
  vSell : ℚ
  deriving Repr

def VpinTrade.remaining (trade : VpinTrade) : RemainingVolume :=
  ⟨trade.size, trade.vBuy, trade.vSell⟩

def emptyLoop : BucketLoop := ⟨0, 0, 0, none, false, [], [], []⟩

/-- The slice `history[-window:]`, which for a window of 0 is the whole history. -/
def lastBuckets (history : List ℚ) (windowBuckets : ℕ) : List ℚ :=
  if windowBuckets = 0 then history else history.drop (history.length - windowBuckets)

def computeVpinValue (vBuyHistory vSellHistory : List ℚ) (windowBuckets : ℕ)
    (sigmaZeroContaminated : Bool) : Option ℚ :=
  if sigmaZeroContaminated then none
  else if vBuyHistory.length < windowBuckets then none
  else
    let windowVBuy := (lastBuckets vBuyHistory windowBuckets).sum
    let windowVSell := (lastBuckets vSellHistory windowBuckets).sum
    let totalVolume := windowVBuy + windowVSell
    if totalVolume ≤ 0 then none else some (|windowVBuy - windowVSell| / totalVolume)

/-- The volume goes into the open bucket. -/
def BucketLoop.add (s : BucketLoop) (part : RemainingVolume) (timestamp : ℤ) : BucketLoop :=
  { s with
    volume := s.volume + part.volume
    vBuy := s.vBuy + part.vBuy
    vSell := s.vSell + part.vSell
    timestamp := some timestamp }

/-- The open bucket is appended to the histories and to the buckets. -/
def BucketLoop.append (s : BucketLoop) (windowBuckets cumulativeVolume : ℕ) (isPartial : Bool) :
    BucketLoop :=
  let vBuyHistory := s.vBuyHistory ++ [s.vBuy]
  let vSellHistory := s.vSellHistory ++ [s.vSell]
  { s with
    vBuyHistory
    vSellHistory
    buckets := s.buckets ++ [{
      bucketId := s.buckets.length
      vpin :=
        computeVpinValue vBuyHistory vSellHistory windowBuckets s.sigmaZeroContaminated
      cumulativeVolume
      imbalance := |s.vBuy - s.vSell|
      timestamp := s.timestamp
      isPartial
      isWarmup := s.buckets.length + 1 < windowBuckets }] }

def BucketLoop.reset (s : BucketLoop) : BucketLoop :=
  { s with volume := 0, vBuy := 0, vSell := 0, sigmaZeroContaminated := false }

/-- The part of what remains that a capacity takes, and what it leaves. -/
def RemainingVolume.split (r : RemainingVolume) (capacity : ℕ) :
    RemainingVolume × RemainingVolume :=
  let splitRatio : ℚ := capacity / r.volume
  (⟨capacity, r.vBuy * splitRatio, r.vSell * splitRatio⟩,
    ⟨r.volume - capacity, r.vBuy * (1 - splitRatio), r.vSell * (1 - splitRatio)⟩)

/-- The `while` loop over one trade, for so many rounds at most. -/
def fillTrade (volumePerBucket windowBuckets : ℕ) (trade : VpinTrade) :
    ℕ → BucketLoop → RemainingVolume → Option BucketLoop
  | fuel, s, r =>
      if r.volume = 0 then some s
      else
        match fuel with
        | 0 => none
        | fuel + 1 =>
            let capacity := volumePerBucket - s.volume
            if r.volume ≤ capacity then
              fillTrade volumePerBucket windowBuckets trade fuel (s.add r trade.timestamp) ⟨0, 0, 0⟩
            else
              let (part, rest) := if 0 < capacity then r.split capacity else (⟨0, 0, 0⟩, r)
              let s := if 0 < capacity then s.add part trade.timestamp else s
              fillTrade volumePerBucket windowBuckets trade fuel
                (s.append windowBuckets trade.cumulativeVolume false).reset rest

/-- One turn of the `for` loop. -/
def bucketTrade (volumePerBucket windowBuckets fuel : ℕ) (s : BucketLoop) (trade : VpinTrade) :
    Option BucketLoop :=
  fillTrade volumePerBucket windowBuckets trade fuel
    { s with sigmaZeroContaminated := s.sigmaZeroContaminated || trade.sigmaZero } trade.remaining

/-- The cumulative volume of the last trade. -/
def lastCumulativeVolume (trades : List VpinTrade) : ℕ :=
  (trades.getLast?.map VpinTrade.cumulativeVolume).getD 0

/-- `none` if a loop takes more rounds than that. -/
def computeVpinBucketsPython (volumePerBucket windowBuckets fuel : ℕ) (trades : List VpinTrade) :
    Option (List VpinBucket × Bool) := do
  let s ← trades.foldlM (bucketTrade volumePerBucket windowBuckets fuel) emptyLoop
  if 0 < s.volume then
    pure ((s.append windowBuckets (lastCumulativeVolume trades) true).buckets, true)
  else pure (s.buckets, false)

/-! ## The compiled loop -/

/-- The variables of the compiled loop, whose buckets are arrays. -/
structure NumbaLoop where
  volume : ℕ
  vBuy : ℚ
  vSell : ℚ
  sigmaZeroContaminated : Bool
  vBuyHistory : List ℚ
  vSellHistory : List ℚ
  buckets : List VpinBucket
  deriving Repr

def emptyNumbaLoop : NumbaLoop := ⟨0, 0, 0, false, [], [], []⟩

/-- The window is summed from the index `len(v_buy_history) - window_buckets` on. -/
def numbaVpinValue (vBuyHistory vSellHistory : List ℚ) (windowBuckets : ℕ)
    (sigmaZeroContaminated : Bool) : Option ℚ :=
  if sigmaZeroContaminated || vBuyHistory.length < windowBuckets then none
  else
    let first := vBuyHistory.length - windowBuckets
    let windowVBuy := (vBuyHistory.drop first).sum
    let windowVSell := (vSellHistory.drop first).sum
    let totalVolume := windowVBuy + windowVSell
    if totalVolume ≤ 0 then none else some (|windowVBuy - windowVSell| / totalVolume)

def NumbaLoop.add (s : NumbaLoop) (part : RemainingVolume) : NumbaLoop :=
  { s with
    volume := s.volume + part.volume
    vBuy := s.vBuy + part.vBuy
    vSell := s.vSell + part.vSell }

/-- The number of the bucket is appended first: the warm-up flag counts it. -/
def NumbaLoop.append (s : NumbaLoop) (windowBuckets cumulativeVolume : ℕ) (timestamp : Option ℤ)
    (isPartial : Bool) : NumbaLoop :=
  let vBuyHistory := s.vBuyHistory ++ [s.vBuy]
  let vSellHistory := s.vSellHistory ++ [s.vSell]
  { s with
    vBuyHistory
    vSellHistory
    buckets := s.buckets ++ [{
      bucketId := s.buckets.length
      vpin := numbaVpinValue vBuyHistory vSellHistory windowBuckets s.sigmaZeroContaminated
      cumulativeVolume
      imbalance := |s.vBuy - s.vSell|
      timestamp
      isPartial
      isWarmup := (s.buckets.length + 1) + 1 < windowBuckets }] }

def NumbaLoop.reset (s : NumbaLoop) : NumbaLoop :=
  { s with volume := 0, vBuy := 0, vSell := 0, sigmaZeroContaminated := false }

/-- The compiled `while` loop. A bucket has the time of the trade that ends it. -/
def fillTradeNumba (volumePerBucket windowBuckets : ℕ) (trade : VpinTrade) :
    ℕ → NumbaLoop → RemainingVolume → Option NumbaLoop
  | fuel, s, r =>
      if r.volume = 0 then some s
      else
        match fuel with
        | 0 => none
        | fuel + 1 =>
            let capacity := volumePerBucket - s.volume
            if r.volume ≤ capacity then
              fillTradeNumba volumePerBucket windowBuckets trade fuel (s.add r) ⟨0, 0, 0⟩
            else
              let (part, rest) := if 0 < capacity then r.split capacity else (⟨0, 0, 0⟩, r)
              let s := if 0 < capacity then s.add part else s
              fillTradeNumba volumePerBucket windowBuckets trade fuel
                (s.append windowBuckets trade.cumulativeVolume (some trade.timestamp) false).reset
                rest

def bucketTradeNumba (volumePerBucket windowBuckets fuel : ℕ) (s : NumbaLoop) (trade : VpinTrade) :
    Option NumbaLoop :=
  fillTradeNumba volumePerBucket windowBuckets trade fuel
    { s with sigmaZeroContaminated := s.sigmaZeroContaminated || trade.sigmaZero } trade.remaining

def lastTimestamp (trades : List VpinTrade) : Option ℤ :=
  trades.getLast?.map VpinTrade.timestamp

def computeVpinBucketsNumba (volumePerBucket windowBuckets fuel : ℕ) (trades : List VpinTrade) :
    Option (List VpinBucket × Bool) := do
  let s ← trades.foldlM (bucketTradeNumba volumePerBucket windowBuckets fuel) emptyNumbaLoop
  if 0 < s.volume then
    let s := s.append windowBuckets (lastCumulativeVolume trades) (lastTimestamp trades) true
    pure (s.buckets, true)
  else pure (s.buckets, false)

/-! ## The volume in a row -/

def tradeAt (trades : List VpinTrade) (i : ℕ) : Option VpinTrade :=
  runAt VpinTrade.size trades i

def totalVolume (trades : List VpinTrade) : ℕ := extent VpinTrade.size trades

/-- The buy volume in the unit of volume at a position. -/
def buyRate (trades : List VpinTrade) (i : ℕ) : ℚ :=
  ((tradeAt trades i).map fun trade => trade.vBuy / (trade.size : ℚ)).getD 0

def sellRate (trades : List VpinTrade) (i : ℕ) : ℚ :=
  ((tradeAt trades i).map fun trade => trade.vSell / (trade.size : ℚ)).getD 0

/-- A trade with a sigma of zero came in while the bucket was the open one. A bucket that is full
stays open until the next trade. -/
def contaminated (trades : List VpinTrade) (volumePerBucket k : ℕ) : Bool :=
  (starts VpinTrade.size 0 trades).any fun x =>
    x.2.sigmaZero && (x.1 - 1) / volumePerBucket = k

/-- VPIN of a stretch of volume. -/
def stretchVpin (trades : List VpinTrade) (a b : ℕ) : Option ℚ :=
  let buy := flow (buyRate trades) a b
  let sell := flow (sellRate trades) a b
  if buy + sell ≤ 0 then none else some (|buy - sell| / (buy + sell))

/-- Bucket `k`, up to a last position. -/
def bucketAt (trades : List VpinTrade) (volumePerBucket windowBuckets k stop cumulativeVolume : ℕ)
    (isPartial : Bool) : VpinBucket where
  bucketId := k
  vpin :=
    if contaminated trades volumePerBucket k || k + 1 < windowBuckets then none
    else stretchVpin trades ((k + 1 - windowBuckets) * volumePerBucket) stop
  cumulativeVolume
  imbalance :=
    |flow (buyRate trades) (k * volumePerBucket) stop -
      flow (sellRate trades) (k * volumePerBucket) stop|
  timestamp := (tradeAt trades (stop - 1)).map VpinTrade.timestamp
  isPartial
  isWarmup := k + 1 < windowBuckets

/-- A full bucket is written down when the trade comes in that has volume beyond it. -/
def fullBucket (trades : List VpinTrade) (volumePerBucket windowBuckets k : ℕ) : VpinBucket :=
  bucketAt trades volumePerBucket windowBuckets k ((k + 1) * volumePerBucket)
    (((tradeAt trades ((k + 1) * volumePerBucket)).map VpinTrade.cumulativeVolume).getD 0) false

/-- All buckets: the volume beyond the full ones is the partial bucket, also when it would fill
one. -/
def expectedBuckets (trades : List VpinTrade) (volumePerBucket windowBuckets : ℕ) :
    List VpinBucket :=
  let total := totalVolume trades
  let full := (total - 1) / volumePerBucket
  (List.range full).map (fullBucket trades volumePerBucket windowBuckets) ++
    if 0 < total then
      [bucketAt trades volumePerBucket windowBuckets full total (lastCumulativeVolume trades) true]
    else []

/-- Bucket `k` as the compiled loop writes it down. -/
def VpinBucket.compiled (trades : List VpinTrade) (volumePerBucket windowBuckets : ℕ)
    (bucket : VpinBucket) : VpinBucket :=
  { bucket with
    timestamp :=
      (tradeAt trades ((bucket.bucketId + 1) * volumePerBucket)).map VpinTrade.timestamp
    isWarmup := bucket.bucketId + 2 < windowBuckets }

def BucketLoop.compiled (trades : List VpinTrade) (volumePerBucket windowBuckets : ℕ)
    (s : BucketLoop) : NumbaLoop :=
  ⟨s.volume, s.vBuy, s.vSell, s.sigmaZeroContaminated, s.vBuyHistory, s.vSellHistory,
    s.buckets.map (VpinBucket.compiled trades volumePerBucket windowBuckets)⟩

/-! ## Marks -/

section Marks

variable {before after arrived : List VpinTrade} {trade : VpinTrade} {V k : ℕ}

theorem contaminated_append (before after : List VpinTrade) (V k : ℕ) :
    contaminated (before ++ after) V k = (contaminated before V k ||
      (starts VpinTrade.size (totalVolume before) after).any fun x =>
        x.2.sigmaZero && (x.1 - 1) / V = k) := by
  simp [contaminated, starts_append, totalVolume]

/-- A trade marks the bucket that is open when it comes in. -/
theorem contaminated_snoc (before : List VpinTrade) (trade : VpinTrade) (V : ℕ) :
    contaminated (before ++ [trade]) V ((totalVolume before - 1) / V) =
      (contaminated before V ((totalVolume before - 1) / V) || trade.sigmaZero) := by
  rw [contaminated_append]
  simp [starts]

/-- Nothing has marked a bucket that is not open yet. -/
theorem contaminated_later (hV : 0 < V) (hk : totalVolume before ≤ (k + 1) * V) :
    contaminated (before ++ [trade]) V (k + 1) = false := by
  have hindex : ∀ start ≤ totalVolume before, (start - 1) / V ≠ k + 1 := by
    intro start hle
    have hpos : 0 < (k + 1) * V := Nat.mul_pos (Nat.succ_pos k) hV
    have hlt : (start - 1) / V < k + 1 := (Nat.div_lt_iff_lt_mul hV).2 (by omega)
    omega
  rw [contaminated, starts_append, List.any_append, Bool.or_eq_false_iff]
  refine ⟨List.any_eq_false.2 fun x hx => ?_, ?_⟩
  · have hle : x.1 ≤ totalVolume before := by simpa [totalVolume] using mem_starts_le hx
    simp [hindex x.1 hle]
  · have hself : (extent VpinTrade.size before - 1) / V ≠ k + 1 :=
      hindex (totalVolume before) (Nat.le_refl _)
    simp [starts, hself]

/-- Nothing marks a bucket any more after the volume beyond it has begun to come in. -/
theorem contaminated_settled (hV : 0 < V) (after : List VpinTrade)
    (hk : (k + 1) * V < totalVolume arrived) :
    contaminated (arrived ++ after) V k = contaminated arrived V k := by
  rw [contaminated_append]
  have hnone : ((starts VpinTrade.size (totalVolume arrived) after).any fun x =>
      x.2.sigmaZero && (x.1 - 1) / V = k) = false := by
    refine List.any_eq_false.2 fun x hx => ?_
    have hle : totalVolume arrived ≤ x.1 := le_of_mem_starts hx
    have hlt : k + 1 ≤ (x.1 - 1) / V := (Nat.le_div_iff_mul_le hV).2 (by omega)
    have hne : (x.1 - 1) / V ≠ k := by omega
    simp [hne]
  rw [hnone, Bool.or_false]

end Marks

/-! ## Values -/

theorem lastBuckets_sum (f : ℕ → ℚ) {V W c : ℕ} (x : ℚ) (hW : 0 < W) (hle : W ≤ c + 1) :
    (lastBuckets (((List.range c).map fun k => flow f (k * V) ((k + 1) * V)) ++ [x]) W).sum =
      flow f ((c + 1 - W) * V) (c * V) + x := by
  have hdrop : (List.range c).drop (c + 1 - W) =
      (List.range (W - 1)).map fun k => c + 1 - W + k := by
    have hcount : c = (c + 1 - W) + (W - 1) := by omega
    conv_lhs => rw [hcount, List.range_add]
    rw [List.drop_left' (by simp; omega)]
  have hsum := sum_flow f V (c + 1 - W) (W - 1)
  have hend : c + 1 - W + (W - 1) = c := by omega
  rw [hend] at hsum
  rw [lastBuckets, if_neg (by omega), List.length_append, List.length_map, List.length_range,
    List.length_singleton, List.drop_append_of_le_length (by simp; omega), List.sum_append,
    ← List.map_drop, hdrop, List.map_map]
  simp only [Function.comp_def, List.sum_singleton]
  rw [hsum]

/-- The value of a bucket that is open up to a position, with all buckets before it. -/
theorem computeVpinValue_eq (trades : List VpinTrade) {V W c stop : ℕ} (hW : 0 < W)
    (hstop : c * V ≤ stop) (mark : Bool) :
    computeVpinValue
        (((List.range c).map fun k => flow (buyRate trades) (k * V) ((k + 1) * V)) ++
          [flow (buyRate trades) (c * V) stop])
        (((List.range c).map fun k => flow (sellRate trades) (k * V) ((k + 1) * V)) ++
          [flow (sellRate trades) (c * V) stop]) W mark =
      if mark || c + 1 < W then none else stretchVpin trades ((c + 1 - W) * V) stop := by
  cases mark with
  | true => rfl
  | false =>
      by_cases hshort : c + 1 < W
      · simp [computeVpinValue, hshort]
      · have hle : W ≤ c + 1 := by omega
        have hstart : (c + 1 - W) * V ≤ c * V := Nat.mul_le_mul_right _ (by omega)
        simp only [computeVpinValue, Bool.false_eq_true, if_false, Bool.false_or, hshort,
          decide_false, lastBuckets_sum _ _ hW hle, flow_add _ hstart hstop, stretchVpin]
        simp [hshort]

theorem numbaVpinValue_eq {vBuyHistory vSellHistory : List ℚ} {W : ℕ} (hW : 0 < W)
    (hlength : vSellHistory.length = vBuyHistory.length) (mark : Bool) :
    numbaVpinValue vBuyHistory vSellHistory W mark =
      computeVpinValue vBuyHistory vSellHistory W mark := by
  cases mark with
  | true => rfl
  | false =>
      by_cases hshort : vBuyHistory.length < W
      · simp [numbaVpinValue, computeVpinValue, hshort]
      · simp [numbaVpinValue, computeVpinValue, lastBuckets, hW.ne', hlength]

/-! ## The loop -/

/-- The first `n` units of volume are in: `c` buckets are written down, the rest is in the open
one. -/
structure Filled (trades arrived : List VpinTrade) (V W n c : ℕ) (s : BucketLoop) : Prop where
  upper : n ≤ (c + 1) * V
  volume : c * V + s.volume = n
  vBuy : s.vBuy = flow (buyRate trades) (c * V) n
  vSell : s.vSell = flow (sellRate trades) (c * V) n
  timestamp : c * V < n → s.timestamp = (tradeAt trades (n - 1)).map VpinTrade.timestamp
  mark : s.sigmaZeroContaminated = contaminated arrived V c
  vBuyHistory : s.vBuyHistory =
    (List.range c).map fun k => flow (buyRate trades) (k * V) ((k + 1) * V)
  vSellHistory : s.vSellHistory =
    (List.range c).map fun k => flow (sellRate trades) (k * V) ((k + 1) * V)
  buckets : s.buckets = (List.range c).map (fullBucket trades V W)

theorem RemainingVolume.split_rest_vBuy (r : RemainingVolume) {capacity : ℕ} {rate : ℚ}
    (hle : capacity < r.volume) (hbuy : r.vBuy = r.volume * rate) :
    (r.split capacity).2.vBuy = (r.split capacity).2.volume * rate := by
  have hne : (r.volume : ℚ) ≠ 0 := Nat.cast_ne_zero.2 (Nat.ne_of_gt (Nat.zero_lt_of_lt hle))
  simp only [RemainingVolume.split, hbuy, Nat.cast_sub hle.le]
  field_simp

theorem RemainingVolume.split_rest_vSell (r : RemainingVolume) {capacity : ℕ} {rate : ℚ}
    (hle : capacity < r.volume) (hsell : r.vSell = r.volume * rate) :
    (r.split capacity).2.vSell = (r.split capacity).2.volume * rate := by
  have hne : (r.volume : ℚ) ≠ 0 := Nat.cast_ne_zero.2 (Nat.ne_of_gt (Nat.zero_lt_of_lt hle))
  simp only [RemainingVolume.split, hsell, Nat.cast_sub hle.le]
  field_simp

theorem filled_empty (trades : List VpinTrade) (V W : ℕ) :
    Filled trades [] V W 0 0 emptyLoop := by
  constructor <;> simp [emptyLoop, flow_self, contaminated, starts]

section Loop

variable {trades arrived : List VpinTrade} {trade : VpinTrade} {V W n c m : ℕ} {s : BucketLoop}

theorem Filled.lower (h : Filled trades arrived V W n c s) : c * V ≤ n := by
  have hvolume := h.volume
  omega

/-- Volume of one trade goes into the open bucket. -/
theorem Filled.add (h : Filled trades arrived V W n c s) {part : RemainingVolume}
    (hat : ∀ i, n ≤ i → i < n + part.volume → tradeAt trades i = some trade)
    (hpos : 0 < part.volume) (hroom : n + part.volume ≤ (c + 1) * V)
    (hbuy : part.vBuy = part.volume * (trade.vBuy / trade.size))
    (hsell : part.vSell = part.volume * (trade.vSell / trade.size)) :
    Filled trades arrived V W (n + part.volume) c (s.add part trade.timestamp) where
  upper := hroom
  volume := by
    have hvolume := h.volume
    simp only [BucketLoop.add]
    omega
  vBuy := by
    have hrate : flow (buyRate trades) n (n + part.volume) = part.vBuy := by
      rw [hbuy]
      refine flow_const fun i hlower hupper => ?_
      simp [buyRate, hat i hlower hupper]
    rw [← flow_add _ h.lower (Nat.le_add_right ..), hrate, ← h.vBuy]
    rfl
  vSell := by
    have hrate : flow (sellRate trades) n (n + part.volume) = part.vSell := by
      rw [hsell]
      refine flow_const fun i hlower hupper => ?_
      simp [sellRate, hat i hlower hupper]
    rw [← flow_add _ h.lower (Nat.le_add_right ..), hrate, ← h.vSell]
    rfl
  timestamp _ := by
    rw [hat _ (by omega) (by omega)]
    rfl
  mark := h.mark
  vBuyHistory := h.vBuyHistory
  vSellHistory := h.vSellHistory
  buckets := h.buckets

/-- A part of a trade fills the open bucket up. -/
theorem Filled.addSplit (h : Filled trades arrived V W n c s) {r : RemainingVolume}
    (hne : r.volume ≠ 0) {capacity : ℕ}
    (hat : ∀ i, n ≤ i → i < n + capacity → tradeAt trades i = some trade) (hpos : 0 < capacity)
    (hfull : n + capacity = (c + 1) * V) (hbuy : r.vBuy = r.volume * (trade.vBuy / trade.size))
    (hsell : r.vSell = r.volume * (trade.vSell / trade.size)) :
    Filled trades arrived V W ((c + 1) * V) c (s.add (r.split capacity).1 trade.timestamp) := by
  have hcast : (r.volume : ℚ) ≠ 0 := Nat.cast_ne_zero.2 hne
  have hvBuy : (r.split capacity).1.vBuy = capacity * (trade.vBuy / trade.size) := by
    simp only [RemainingVolume.split, hbuy]
    field_simp
  have hvSell : (r.split capacity).1.vSell = capacity * (trade.vSell / trade.size) := by
    simp only [RemainingVolume.split, hsell]
    field_simp
  rw [← hfull]
  exact h.add hat hpos (Nat.le_of_eq hfull) hvBuy hvSell

/-- What is appended when the open bucket ends. -/
theorem Filled.append_buckets (h : Filled trades arrived V W n c s) (hW : 0 < W) (hpos : c * V < n)
    (hmark : contaminated arrived V c = contaminated trades V c) (cumulativeVolume : ℕ)
    (isPartial : Bool) :
    (s.append W cumulativeVolume isPartial).buckets = (List.range c).map (fullBucket trades V W) ++
      [bucketAt trades V W c n cumulativeVolume isPartial] := by
  have hvalue := computeVpinValue_eq trades hW h.lower (contaminated trades V c)
  have hlength : s.buckets.length = c := by simp [h.buckets]
  simp only [BucketLoop.append, h.vBuyHistory, h.vSellHistory, h.vBuy, h.vSell, h.mark, hmark,
    hvalue, hlength, h.timestamp hpos, bucketAt]
  rw [h.buckets]

theorem Filled.histories_length (h : Filled trades arrived V W n c s) :
    s.vSellHistory.length = s.vBuyHistory.length := by
  simp [h.vSellHistory, h.vBuyHistory]

theorem Filled.compiled_append_buckets (h : Filled trades arrived V W n c s) (hW : 0 < W)
    (hmark : contaminated arrived V c = contaminated trades V c) (cumulativeVolume : ℕ)
    (timestamp : Option ℤ) (isPartial : Bool) :
    ((s.compiled trades V W).append W cumulativeVolume timestamp isPartial).buckets =
      (s.compiled trades V W).buckets ++
        [{ bucketAt trades V W c n cumulativeVolume isPartial with
          timestamp
          isWarmup := c + 2 < W }] := by
  have hlengths : (s.vSellHistory ++ [s.vSell]).length = (s.vBuyHistory ++ [s.vBuy]).length := by
    simp [h.histories_length]
  have hvalue := computeVpinValue_eq trades hW h.lower (contaminated trades V c)
  have hcount : (s.compiled trades V W).buckets.length = c := by
    simp [BucketLoop.compiled, h.buckets]
  simp only [NumbaLoop.append, hcount]
  simp only [BucketLoop.compiled, numbaVpinValue_eq hW hlengths]
  simp only [h.vBuyHistory, h.vSellHistory, h.vBuy, h.vSell, h.mark, hmark, hvalue, bucketAt]

/-- The compiled loop writes the same bucket down, but for its time and its flag. -/
theorem Filled.compiled_append (h : Filled trades arrived V W n c s) (hW : 0 < W)
    (hnext : tradeAt trades ((c + 1) * V) = some trade) :
    (s.append W trade.cumulativeVolume false).reset.compiled trades V W =
      ((s.compiled trades V W).append W trade.cumulativeVolume (some trade.timestamp)
        false).reset := by
  have hlengths : (s.vSellHistory ++ [s.vSell]).length = (s.vBuyHistory ++ [s.vBuy]).length := by
    simp [h.histories_length]
  have hcount : s.buckets.length = c := by simp [h.buckets]
  simp [BucketLoop.compiled, BucketLoop.append, BucketLoop.reset, NumbaLoop.append,
    NumbaLoop.reset, VpinBucket.compiled, numbaVpinValue_eq hW hlengths, hcount, hnext]

/-- A full bucket is written down when there is volume beyond it. -/
theorem Filled.close (h : Filled trades arrived V W ((c + 1) * V) c s) (hV : 0 < V) (hW : 0 < W)
    (hnext : tradeAt trades ((c + 1) * V) = some trade)
    (hmark : contaminated arrived V c = contaminated trades V c)
    (hlater : contaminated arrived V (c + 1) = false) :
    Filled trades arrived V W ((c + 1) * V) (c + 1)
      (s.append W trade.cumulativeVolume false).reset where
  upper := Nat.mul_le_mul_right _ (Nat.le_succ _)
  volume := rfl
  vBuy := (flow_self _ _).symm
  vSell := (flow_self _ _).symm
  timestamp hlt := absurd hlt (Nat.lt_irrefl _)
  mark := hlater.symm
  vBuyHistory := by
    rw [List.range_succ, List.map_append]
    simp only [BucketLoop.reset, BucketLoop.append, h.vBuyHistory, h.vBuy]
    rfl
  vSellHistory := by
    rw [List.range_succ, List.map_append]
    simp only [BucketLoop.reset, BucketLoop.append, h.vSellHistory, h.vSell]
    rfl
  buckets := by
    have hpos : c * V < (c + 1) * V := Nat.mul_lt_mul_of_pos_right (Nat.lt_succ_self c) hV
    have happend := h.append_buckets hW hpos hmark trade.cumulativeVolume false
    have hfull : fullBucket trades V W c = bucketAt trades V W c ((c + 1) * V)
        trade.cumulativeVolume false := by
      simp [fullBucket, hnext]
    rw [List.range_succ, List.map_append, List.map_singleton, hfull]
    exact happend

end Loop

/-! ## A trade -/

/-- The open bucket ends within a trade. -/
theorem Filled.closeWithin {done rest trades : List VpinTrade} {trade : VpinTrade} {V W c : ℕ}
    {s : BucketLoop} (hV : 0 < V) (hW : 0 < W) (htrades : trades = done ++ trade :: rest)
    (h : Filled trades (done ++ [trade]) V W ((c + 1) * V) c s)
    (hstart : totalVolume done ≤ (c + 1) * V)
    (hmore : (c + 1) * V < totalVolume done + trade.size) :
    Filled trades (done ++ [trade]) V W ((c + 1) * V) (c + 1)
        (s.append W trade.cumulativeVolume false).reset ∧
      (s.append W trade.cumulativeVolume false).reset.compiled trades V W =
        ((s.compiled trades V W).append W trade.cumulativeVolume (some trade.timestamp)
          false).reset := by
  have hnext : tradeAt trades ((c + 1) * V) = some trade := by
    rw [htrades]
    exact runAt_append done trade rest hstart hmore
  have hmark : contaminated (done ++ [trade]) V c = contaminated trades V c := by
    have hbeyond : (c + 1) * V < totalVolume (done ++ [trade]) := by simpa [totalVolume] using hmore
    rw [htrades, ← contaminated_settled hV rest hbeyond, List.append_assoc, List.singleton_append]
  exact ⟨h.close hV hW hnext hmark (contaminated_later hV hstart), h.compiled_append hW hnext⟩

/-- Some rounds fill in one trade, the same in both loops. A round ends it, or takes volume from
it, or follows one that left a full bucket open. -/
theorem fillTrade_filled {done rest trades : List VpinTrade} {trade : VpinTrade} {V W : ℕ}
    (hV : 0 < V) (hW : 0 < W) (htrades : trades = done ++ trade :: rest) (fuel : ℕ)
    {s : BucketLoop} {r : RemainingVolume} {n c : ℕ}
    (hfilled : Filled trades (done ++ [trade]) V W n c s) (hstart : totalVolume done ≤ n)
    (hend : n + r.volume = totalVolume done + trade.size)
    (hbuy : r.vBuy = r.volume * (trade.vBuy / trade.size))
    (hsell : r.vSell = r.volume * (trade.vSell / trade.size))
    (hindex : r.volume = 0 → (n - 1) / V = c)
    (hfuel : 0 < r.volume → r.volume ≤ fuel ∧ (s.volume = V → r.volume < fuel)) :
    ∃ s', fillTrade V W trade fuel s r = some s' ∧
      fillTradeNumba V W trade fuel (s.compiled trades V W) r = some (s'.compiled trades V W) ∧
      Filled trades (done ++ [trade]) V W (n + r.volume) ((n + r.volume - 1) / V) s' := by
  have hat : ∀ i, n ≤ i → i < n + r.volume → tradeAt trades i = some trade := by
    intro i hlower hupper
    rw [htrades]
    rw [hend] at hupper
    exact runAt_append done trade rest (Nat.le_trans hstart hlower) hupper
  induction fuel generalizing s r n c with
  | zero =>
      have hzero : r.volume = 0 := by
        by_contra hne
        have hle := hfuel (Nat.pos_of_ne_zero hne)
        omega
      refine ⟨s, by simp [fillTrade, hzero], by simp [fillTradeNumba, hzero], ?_⟩
      rw [hzero, Nat.add_zero, hindex hzero]
      exact hfilled
  | succ fuel ih =>
      by_cases hzero : r.volume = 0
      · refine ⟨s, by simp [fillTrade, hzero], by simp [fillTradeNumba, hzero], ?_⟩
        rw [hzero, Nat.add_zero, hindex hzero]
        exact hfilled
      have hpos : 0 < r.volume := Nat.pos_of_ne_zero hzero
      have hvolume := hfilled.volume
      have hupper := hfilled.upper
      have hwidth : (c + 1) * V = c * V + V := by ring
      have hle := hfuel hpos
      by_cases hfits : r.volume ≤ V - s.volume
      · have hroom : n + r.volume ≤ (c + 1) * V := by omega
        have hadd := hfilled.add hat hpos hroom hbuy hsell
        have hc : (n + r.volume - 1) / V = c := by
          refine Nat.div_eq_of_lt_le ?_ ?_
          · omega
          · omega
        obtain ⟨s', hrun, hnumba, hs'⟩ := ih (r := ⟨0, 0, 0⟩) hadd (by omega) (by simpa using hend)
          (by simp) (by simp) (fun _ => hc) (fun h => absurd h (Nat.lt_irrefl 0))
          (fun i hlower hupper => absurd hupper (by simp; omega))
        refine ⟨s', ?_, ?_, by simpa using hs'⟩
        · rw [fillTrade, if_neg hzero]
          simp only [hfits, if_true]
          exact hrun
        · rw [fillTradeNumba, if_neg hzero]
          simp only [BucketLoop.compiled, hfits, if_true]
          exact hnumba
      · rw [fillTrade, if_neg hzero, fillTradeNumba, if_neg hzero]
        simp only [BucketLoop.compiled, hfits, if_false]
        by_cases hcapacity : 0 < V - s.volume
        · -- the trade is split at the end of the open bucket
          have hfull : n + (V - s.volume) = (c + 1) * V := by omega
          have hadd := hfilled.addSplit hzero
            (fun i hlower hupper => hat i hlower (by omega)) hcapacity hfull hbuy hsell
          obtain ⟨hclosed, hcompiled⟩ := hadd.closeWithin hV hW htrades (by omega) (by omega)
          obtain ⟨s', hrun, hnumba, hs'⟩ := ih (r := (r.split (V - s.volume)).2) hclosed (by omega)
            (by simp only [RemainingVolume.split]; omega)
            (r.split_rest_vBuy (by omega) hbuy) (r.split_rest_vSell (by omega) hsell)
            (by simp only [RemainingVolume.split]; omega)
            (fun _ => ⟨by simp only [RemainingVolume.split]; omega,
              fun hzeroV => absurd hzeroV hV.ne⟩)
            (fun i hlower hupper => hat i (by omega) (by
              simp only [RemainingVolume.split] at hupper
              omega))
          have hposition : (c + 1) * V + (r.split (V - s.volume)).2.volume = n + r.volume := by
            simp only [RemainingVolume.split]
            omega
          rw [hposition] at hs'
          rw [hcompiled] at hnumba
          refine ⟨s', ?_, ?_, hs'⟩
          · simp only [hcapacity, if_true]
            exact hrun
          · simp only [hcapacity, if_true]
            exact hnumba
        · -- the open bucket is full already
          have hfull : n = (c + 1) * V := by omega
          rw [hfull] at hfilled
          obtain ⟨hclosed, hcompiled⟩ := hfilled.closeWithin hV hW htrades (by omega) (by omega)
          obtain ⟨s', hrun, hnumba, hs'⟩ := ih (r := r) hclosed (by omega) (by omega) hbuy hsell
            (fun h => absurd h hzero)
            (fun _ => ⟨by omega, fun hzeroV => absurd hzeroV hV.ne⟩)
            (fun i hlower hupper => hat i (by omega) (by omega))
          rw [← hfull] at hs'
          rw [hcompiled] at hnumba
          refine ⟨s', ?_, ?_, hs'⟩
          · simp only [hcapacity, if_false]
            exact hrun
          · simp only [hcapacity, if_false]
            exact hnumba

/-- One turn of the loop over the trades. -/
theorem bucketTrade_filled {done rest trades : List VpinTrade} {trade : VpinTrade} {V W fuel : ℕ}
    (hV : 0 < V) (hW : 0 < W) (htrades : trades = done ++ trade :: rest) (hfuel : trade.size < fuel)
    {s : BucketLoop}
    (h : Filled trades done V W (totalVolume done) ((totalVolume done - 1) / V) s) :
    ∃ s', bucketTrade V W fuel s trade = some s' ∧
      bucketTradeNumba V W fuel (s.compiled trades V W) trade = some (s'.compiled trades V W) ∧
      Filled trades (done ++ [trade]) V W (totalVolume (done ++ [trade]))
        ((totalVolume (done ++ [trade]) - 1) / V) s' := by
  have hmarked : Filled trades (done ++ [trade]) V W (totalVolume done)
      ((totalVolume done - 1) / V)
      { s with sigmaZeroContaminated := s.sigmaZeroContaminated || trade.sigmaZero } :=
    { h with
      mark := by rw [contaminated_snoc, ← h.mark]
      upper := h.upper
      volume := h.volume }
  have htotal : totalVolume (done ++ [trade]) = totalVolume done + trade.size := by
    simp [totalVolume]
  rw [htotal]
  by_cases hzero : trade.size = 0
  · rw [hzero, Nat.add_zero]
    refine ⟨{ s with sigmaZeroContaminated := s.sigmaZeroContaminated || trade.sigmaZero },
      ?_, ?_, hmarked⟩
    · cases fuel <;> simp [bucketTrade, fillTrade, VpinTrade.remaining, hzero]
    · cases fuel <;> simp [bucketTradeNumba, fillTradeNumba, VpinTrade.remaining, hzero,
        BucketLoop.compiled]
  · have hne : (trade.size : ℚ) ≠ 0 := Nat.cast_ne_zero.2 hzero
    have hrate : ∀ x : ℚ, x = trade.size * (x / trade.size) := fun x => by field_simp
    exact fillTrade_filled hV hW htrades fuel hmarked (Nat.le_refl _) rfl (hrate trade.vBuy)
      (hrate trade.vSell) (fun h => absurd h hzero) (fun _ => ⟨hfuel.le, fun _ => hfuel⟩)

/-! ## All trades -/

theorem bucketTrades_filled {done rest trades : List VpinTrade} {V W fuel : ℕ} (hV : 0 < V)
    (hW : 0 < W) (htrades : trades = done ++ rest) (hfuel : ∀ trade ∈ rest, trade.size < fuel)
    {s : BucketLoop}
    (h : Filled trades done V W (totalVolume done) ((totalVolume done - 1) / V) s) :
    ∃ s', rest.foldlM (bucketTrade V W fuel) s = some s' ∧
      rest.foldlM (bucketTradeNumba V W fuel) (s.compiled trades V W) =
        some (s'.compiled trades V W) ∧
      Filled trades trades V W (totalVolume trades) ((totalVolume trades - 1) / V) s' := by
  induction rest generalizing done s with
  | nil =>
      rw [List.append_nil] at htrades
      rw [htrades]
      rw [htrades] at h
      exact ⟨s, rfl, rfl, h⟩
  | cons trade rest ih =>
      obtain ⟨s', hrun, hnumba, hs'⟩ := bucketTrade_filled hV hW htrades (hfuel trade (by simp)) h
      rw [List.append_cons] at htrades
      obtain ⟨s'', hrest, hnumba', hs''⟩ := ih htrades (fun t ht => hfuel t (by simp [ht])) hs'
      refine ⟨s'', ?_, ?_, hs''⟩
      · rw [List.foldlM_cons, hrun]
        exact hrest
      · rw [List.foldlM_cons, hnumba]
        exact hnumba'

/-- Both loops over all trades. -/
theorem loops_filled (trades : List VpinTrade) {V W fuel : ℕ} (hV : 0 < V) (hW : 0 < W)
    (hfuel : ∀ trade ∈ trades, trade.size < fuel) :
    ∃ s, trades.foldlM (bucketTrade V W fuel) emptyLoop = some s ∧
      trades.foldlM (bucketTradeNumba V W fuel) emptyNumbaLoop = some (s.compiled trades V W) ∧
      Filled trades trades V W (totalVolume trades) ((totalVolume trades - 1) / V) s := by
  have hempty : Filled trades [] V W (totalVolume []) ((totalVolume [] - 1) / V) emptyLoop := by
    simpa [totalVolume] using filled_empty trades V W
  exact bucketTrades_filled hV hW (List.nil_append trades).symm hfuel hempty

theorem Filled.partial_iff {trades : List VpinTrade} {V W : ℕ} {s : BucketLoop}
    (h : Filled trades trades V W (totalVolume trades) ((totalVolume trades - 1) / V) s) :
    0 < s.volume ↔ 0 < totalVolume trades := by
  have hsum := h.volume
  have hle := Nat.div_mul_le_self (totalVolume trades - 1) V
  omega

theorem computeVpinBucketsPython_eq (trades : List VpinTrade) {V W : ℕ} (hV : 0 < V) (hW : 0 < W)
    {fuel : ℕ} (hfuel : ∀ trade ∈ trades, trade.size < fuel) :
    computeVpinBucketsPython V W fuel trades =
      some (expectedBuckets trades V W, decide (0 < totalVolume trades)) := by
  obtain ⟨s, hrun, -, hs⟩ := loops_filled trades hV hW hfuel
  rw [computeVpinBucketsPython, hrun]
  by_cases htotal : 0 < totalVolume trades
  · have hlower : (totalVolume trades - 1) / V * V < totalVolume trades := by
      have hle := Nat.div_mul_le_self (totalVolume trades - 1) V
      omega
    have happend := hs.append_buckets hW hlower rfl (lastCumulativeVolume trades) true
    simp only [Option.bind_eq_bind, Option.bind_some, if_pos (hs.partial_iff.2 htotal),
      expectedBuckets, happend, htotal, decide_true, if_true, Option.pure_def]
  · simp only [Option.bind_eq_bind, Option.bind_some, if_neg (mt hs.partial_iff.1 htotal),
      expectedBuckets, hs.buckets, htotal, decide_false, if_false, Option.pure_def,
      List.append_nil]

/-- The share of the imbalance in a volume. -/
theorem stretchVpin_mem_unit {trades : List VpinTrade}
    (hflows : ∀ trade ∈ trades, 0 ≤ trade.vBuy ∧ 0 ≤ trade.vSell) {a b : ℕ} {v : ℚ}
    (hv : stretchVpin trades a b = some v) : 0 ≤ v ∧ v ≤ 1 := by
  have hrate : ∀ i, 0 ≤ buyRate trades i ∧ 0 ≤ sellRate trades i := by
    intro i
    cases hat : tradeAt trades i with
    | none => simp [buyRate, sellRate, hat]
    | some trade =>
        have hnonneg := hflows trade (mem_of_runAt hat)
        simp only [buyRate, sellRate, hat, Option.map_some, Option.getD_some]
        exact ⟨div_nonneg hnonneg.1 (Nat.cast_nonneg _), div_nonneg hnonneg.2 (Nat.cast_nonneg _)⟩
  have hbuy := flow_nonneg (fun i => (hrate i).1) a b
  have hsell := flow_nonneg (fun i => (hrate i).2) a b
  simp only [stretchVpin] at hv
  split at hv
  · cases hv
  · rename_i hpos
    have htotal : 0 < flow (buyRate trades) a b + flow (sellRate trades) a b := not_le.1 hpos
    rw [← Option.some.inj hv]
    refine ⟨div_nonneg (abs_nonneg _) htotal.le, (div_le_one htotal).2 (abs_le.2 ⟨?_, ?_⟩)⟩
    · linarith
    · linarith

theorem bucket_vpin_mem_unit {trades : List VpinTrade}
    (hflows : ∀ trade ∈ trades, 0 ≤ trade.vBuy ∧ 0 ≤ trade.vSell) {V W : ℕ} {bucket : VpinBucket}
    (hmem : bucket ∈ expectedBuckets trades V W) {v : ℚ} (hv : bucket.vpin = some v) :
    0 ≤ v ∧ v ≤ 1 := by
  have hat : ∀ {k stop cumulativeVolume : ℕ} {isPartial : Bool},
      (bucketAt trades V W k stop cumulativeVolume isPartial).vpin = some v → 0 ≤ v ∧ v ≤ 1 := by
    intro k stop cumulativeVolume isPartial hvpin
    simp only [bucketAt] at hvpin
    split at hvpin
    · cases hvpin
    · exact stretchVpin_mem_unit hflows hvpin
  rcases List.mem_append.1 hmem with hfull | hlast
  · obtain ⟨k, _, heq⟩ := List.mem_map.1 hfull
    rw [← heq] at hv
    exact hat hv
  · split at hlast
    · rw [List.mem_singleton.1 hlast] at hv
      exact hat hv
    · cases hlast

/-- The loops end, the buckets are the stretches of the volume in a row, and every value is a
share. -/
theorem vpin_buckets_are_stretches (trades : List VpinTrade)
    (hflows : ∀ trade ∈ trades, 0 ≤ trade.vBuy ∧ 0 ≤ trade.vSell)
    {volumePerBucket windowBuckets : ℕ} (hvolume : 0 < volumePerBucket)
    (hwindow : 0 < windowBuckets) {fuel : ℕ} (hfuel : ∀ trade ∈ trades, trade.size < fuel) :
    computeVpinBucketsPython volumePerBucket windowBuckets fuel trades =
        some (expectedBuckets trades volumePerBucket windowBuckets,
          decide (0 < totalVolume trades)) ∧
      ∀ bucket ∈ expectedBuckets trades volumePerBucket windowBuckets, ∀ v,
        bucket.vpin = some v → 0 ≤ v ∧ v ≤ 1 :=
  ⟨computeVpinBucketsPython_eq trades hvolume hwindow hfuel,
    fun _ hmem _ hv => bucket_vpin_mem_unit hflows hmem hv⟩

/-- Three trades, of which the second spills over and the third would fill its bucket. -/
theorem three_trades_in_buckets :
    computeVpinBucketsPython 10 2 21
        [⟨6, 2, 4, false, 6, 1⟩, ⟨20, 15, 5, false, 26, 2⟩, ⟨4, 4, 0, true, 30, 3⟩] =
      some ([⟨0, none, 26, 0, some 2, false, true⟩, ⟨1, some (1 / 4), 26, 5, some 2, false, false⟩,
        ⟨2, none, 30, 7, some 3, true, false⟩], true) := by
  have hrun : computeVpinBucketsPython 10 2 21
        [⟨6, 2, 4, false, 6, 1⟩, ⟨20, 15, 5, false, 26, 2⟩, ⟨4, 4, 0, true, 30, 3⟩] = _ :=
    (vpin_buckets_are_stretches _ (by decide +kernel) (by decide) (by decide) (by decide)).1
  rw [hrun]
  decide +kernel

/-- The buckets of the compiled loop. -/
def compiledBuckets (trades : List VpinTrade) (volumePerBucket windowBuckets : ℕ) :
    List VpinBucket :=
  let total := totalVolume trades
  let full := (total - 1) / volumePerBucket
  (List.range full).map (fun k =>
      (fullBucket trades volumePerBucket windowBuckets k).compiled trades volumePerBucket
        windowBuckets) ++
    if 0 < total then
      [{ bucketAt trades volumePerBucket windowBuckets full total (lastCumulativeVolume trades) true
         with
         timestamp := lastTimestamp trades
         isWarmup := full + 2 < windowBuckets }]
    else []

theorem computeVpinBucketsNumba_eq (trades : List VpinTrade) {V W : ℕ} (hV : 0 < V) (hW : 0 < W)
    {fuel : ℕ} (hfuel : ∀ trade ∈ trades, trade.size < fuel) :
    computeVpinBucketsNumba V W fuel trades =
      some (compiledBuckets trades V W, decide (0 < totalVolume trades)) := by
  obtain ⟨s, -, hrun, hs⟩ := loops_filled trades hV hW hfuel
  have hfull : (s.compiled trades V W).buckets =
      (List.range ((totalVolume trades - 1) / V)).map fun k =>
        (fullBucket trades V W k).compiled trades V W := by
    simp [BucketLoop.compiled, hs.buckets]
  have hvolume : (s.compiled trades V W).volume = s.volume := rfl
  rw [computeVpinBucketsNumba, hrun]
  by_cases htotal : 0 < totalVolume trades
  · have hlower : (totalVolume trades - 1) / V * V < totalVolume trades := by
      have hle := Nat.div_mul_le_self (totalVolume trades - 1) V
      omega
    have happend := hs.compiled_append_buckets hW rfl (lastCumulativeVolume trades)
      (lastTimestamp trades) true
    simp only [Option.bind_eq_bind, Option.bind_some, hvolume, if_pos (hs.partial_iff.2 htotal),
      compiledBuckets, htotal, decide_true, if_true, Option.pure_def, happend, hfull]
  · simp only [Option.bind_eq_bind, Option.bind_some, hvolume, if_neg (mt hs.partial_iff.1 htotal),
      compiledBuckets, hfull, htotal, decide_false, if_false, Option.pure_def, List.append_nil]

theorem getElem?_append_singleton {α : Type} {f : ℕ → α} {n k : ℕ} {p : Prop} [Decidable p]
    {last x : α}
    (hx : ((List.range n).map f ++ if p then [last] else [])[k]? = some x) :
    k < n ∧ x = f k ∨ k = n ∧ p ∧ x = last := by
  by_cases hk : k < n
  · rw [List.getElem?_append_left (by simpa using hk)] at hx
    simp only [List.getElem?_map, List.getElem?_range hk, Option.map_some, Option.some.injEq] at hx
    exact .inl ⟨hk, hx.symm⟩
  · rw [List.getElem?_append_right (by simpa using hk)] at hx
    split at hx
    · rename_i hp
      have hlt := (List.getElem?_eq_some_iff.1 hx).1
      have hzero : k - n = 0 := by simpa using hlt
      simp [hzero] at hx
      exact .inr ⟨by omega, hp, hx.symm⟩
    · simp at hx

/-- The two loops write the same bucket down, with these differences: the flags of bucket
`window - 2`, and the times of a bucket that one trade fills up exactly. -/
structure AgreeBut (trades : List VpinTrade) (volumePerBucket windowBuckets k : ℕ)
    (python numba : VpinBucket) : Prop where
  same : numba = { python with timestamp := numba.timestamp, isWarmup := numba.isWarmup }
  isWarmup : numba.isWarmup = python.isWarmup ↔ k + 2 ≠ windowBuckets
  timestamp : numba.timestamp = python.timestamp ∨
    python.isPartial = false ∧ ∃ before trade next after,
      trades = before ++ trade :: next :: after ∧
      totalVolume (before ++ [trade]) = (k + 1) * volumePerBucket ∧
      python.timestamp = some trade.timestamp ∧ numba.timestamp = some next.timestamp

theorem warmup_agree_iff (k W : ℕ) :
    decide (k + 2 < W) = decide (k + 1 < W) ↔ k + 2 ≠ W := by
  rw [decide_eq_decide]
  omega

theorem compiled_agreeBut {trades : List VpinTrade} (hsize : ∀ trade ∈ trades, 0 < trade.size)
    {V k : ℕ} (W : ℕ) (hV : 0 < V) (hk : (k + 1) * V < totalVolume trades) :
    AgreeBut trades V W k (fullBucket trades V W k) ((fullBucket trades V W k).compiled trades V W)
    where
  same := rfl
  isWarmup := warmup_agree_iff k W
  timestamp := by
    have hprev : (k + 1) * V - 1 + 1 = (k + 1) * V :=
      Nat.sub_add_cancel (Nat.mul_pos (Nat.succ_pos k) hV)
    have hnext := runAt_succ hsize (i := (k + 1) * V - 1) (by rw [hprev]; exact hk)
    rw [hprev] at hnext
    rcases hnext with hsame | ⟨before, trade, next, after, htrades, hend, hat, hat'⟩
    · exact .inl (congrArg (Option.map VpinTrade.timestamp) hsame)
    · exact .inr ⟨rfl, before, trade, next, after, htrades, hend,
        congrArg (Option.map VpinTrade.timestamp) hat,
        congrArg (Option.map VpinTrade.timestamp) hat'⟩

/-- The first trade fills the first bucket up: its time is one trade's or the other's. -/
example :
    (computeVpinBucketsPython 10 1 11 [⟨10, 2, 8, false, 10, 1⟩, ⟨5, 1, 4, false, 15, 2⟩]).map
        (fun x => x.1.map VpinBucket.timestamp) = some [some 1, some 2] ∧
      (computeVpinBucketsNumba 10 1 11 [⟨10, 2, 8, false, 10, 1⟩, ⟨5, 1, 4, false, 15, 2⟩]).map
        (fun x => x.1.map VpinBucket.timestamp) = some [some 2, some 2] := by
  decide +kernel

end TradingPlatform.Analytics
