import TradingPlatform.Base.Delimited
import TradingPlatform.Gateway.OrderSlicer

/-! # What an order id tells apart

An id hashes the fields of an order joined with a delimiter that neither a symbol
nor a strategy is barred from having. A symbol has no lower-case letter, so the
side still marks where it ends, and the date has no delimiter. Prices are
rounded to cents.
-/

namespace TradingPlatform.Gateway

open Base

/-- A request after its validators: `upper()` leaves no lower-case letter in the symbol. -/
structure AcceptedOrder extends OrderRequest where
  symbol_upper : ∀ c ∈ symbol.toList, c.isLower = false

/-- `generate_client_order_id` -/
def generateClientOrderId (lib : Hashing) (order : AcceptedOrder) (strategyId : String)
    (orderDate : Date) : Except PlanError String := do
  let limitPrice ← formatPriceForId order.limitPrice
  let stopPrice ← formatPriceForId order.stopPrice
  return lib.orderId (order.symbol ++ "|" ++ order.side.text ++ "|" ++ toString order.qty ++ "|" ++
    limitPrice ++ "|" ++ stopPrice ++ "|" ++ order.orderType.text ++ "|" ++
    order.timeInForce.text ++ "|" ++ strategyId ++ "|" ++ orderDate.isoformat)

/-- The fields that `reconstruct_order_params_hash` is called with. -/
def AcceptedOrder.params (order : AcceptedOrder) : OrderParams where
  symbol := order.symbol
  side := order.side
  qty := order.qty.toNat
  limitPrice := order.limitPrice
  stopPrice := order.stopPrice
  orderType := order.orderType
  timeInForce := order.timeInForce

/-- All that an id is made of, the prices apart. -/
structure SameFields (a b : AcceptedOrder) (strategyId strategyId' : String) (date date' : Date) :
    Prop where
  symbol : a.symbol = b.symbol
  side : a.side = b.side
  qty : a.qty = b.qty
  orderType : a.orderType = b.orderType
  timeInForce : a.timeInForce = b.timeInForce
  strategyId : strategyId = strategyId'
  date : date = date'

/-- Both absent, or numerically equal. -/
def SamePrice : Option Price → Option Price → Prop
  | none, none => True
  | some x, some y => x.val.toRat = y.val.toRat
  | _, _ => False

/-- Half a cent rounds up. -/
def Price.cents (price : Price) : ℤ := ⌊price.val.toRat * 100 + 1 / 2⌋

/-! ## Texts of prices -/

/-- The text of cents: a zero, the point and two digits, or the point before the last two. -/
theorem str_cents (n : ℕ) : ∃ zeros whole rest, (⟨n, 2⟩ : Decimal).str.toList =
      whole ++ '.' :: rest ∧
    whole ++ rest = List.replicate zeros '0' ++ Nat.toDigits 10 n ∧ whole ≠ [] := by
  have hpos : 0 < (Nat.toDigits 10 n).length := Nat.length_toDigits_pos
  have habs : Int.natAbs (n : ℤ) = n := Int.natAbs_natCast n
  have hnonneg : ¬(n : ℤ) < 0 := by omega
  have hleft : -6 < ((Nat.toDigits 10 n).length : ℤ) - (2 : ℕ) := by omega
  simp only [Decimal.str, habs, if_neg hnonneg, if_pos hleft, sub_self, Decimal.exponentText,
    if_true, String.toList_append, String.toList_ofList]
  by_cases hshort : ((Nat.toDigits 10 n).length : ℤ) - (2 : ℕ) ≤ 0
  · refine ⟨(-(((Nat.toDigits 10 n).length : ℤ) - (2 : ℕ))).toNat + 1, ['0'],
      List.replicate (-(((Nat.toDigits 10 n).length : ℤ) - (2 : ℕ))).toNat '0' ++
        Nat.toDigits 10 n, ?_, ?_, by simp⟩
    · rw [if_pos hshort]
      simp
    · simp [List.replicate_succ]
  · have hlong :
        ¬((Nat.toDigits 10 n).length : ℤ) ≤ ((Nat.toDigits 10 n).length : ℤ) - (2 : ℕ) := by
      omega
    refine ⟨0, (Nat.toDigits 10 n).take (((Nat.toDigits 10 n).length : ℤ) - (2 : ℕ)).toNat,
      (Nat.toDigits 10 n).drop (((Nat.toDigits 10 n).length : ℤ) - (2 : ℕ)).toNat, ?_, ?_, ?_⟩
    · rw [if_neg hshort, if_neg hlong]
      simp
    · rw [List.take_append_drop]
      rfl
    · intro hnil
      have hlength := congrArg List.length hnil
      rw [List.length_take, List.length_nil] at hlength
      omega

theorem isDigit_of_mem_zeros {n zeros : ℕ} {c : Char}
    (h : c ∈ List.replicate zeros '0' ++ Nat.toDigits 10 n) : c.isDigit = true := by
  rcases List.mem_append.mp h with hzero | hdigit
  · rw [List.eq_of_mem_replicate hzero]
    decide
  · exact Nat.isDigit_of_mem_toDigits (by decide) (by decide) hdigit

theorem ofDigitChars_zeros (n zeros : ℕ) :
    Nat.ofDigitChars 10 (List.replicate zeros '0' ++ Nat.toDigits 10 n) 0 = n := by
  rw [Nat.ofDigitChars_append, Nat.ofDigitChars_replicate_zero, Nat.mul_zero,
    Nat.ofDigitChars_ten_toDigits]

theorem str_cents_inj {n m : ℕ} (h : (⟨n, 2⟩ : Decimal).str = (⟨m, 2⟩ : Decimal).str) : n = m := by
  obtain ⟨zeros, whole, rest, hstr, hdigits, -⟩ := str_cents n
  obtain ⟨zeros', whole', rest', hstr', hdigits', -⟩ := str_cents m
  have hpoint : ∀ {n zeros : ℕ} {u v : List Char},
      u ++ v = List.replicate zeros '0' ++ Nat.toDigits 10 n → '.' ∉ u := by
    intro n zeros u v huv hmem
    have hdigit := isDigit_of_mem_zeros (huv ▸ List.mem_append_left v hmem)
    exact absurd hdigit (by decide)
  rw [h, hstr'] at hstr
  obtain ⟨hwhole, hrest⟩ := append_cons_left_inj (hpoint hdigits') (hpoint hdigits) hstr
  calc
    n = Nat.ofDigitChars 10 (whole ++ rest) 0 := by rw [hdigits, ofDigitChars_zeros]
    _ = Nat.ofDigitChars 10 (whole' ++ rest') 0 := by rw [hwhole, hrest]
    _ = m := by rw [hdigits', ofDigitChars_zeros]

/-- The first character of a price is a digit, and none is the delimiter. -/
theorem str_cents_chars (n : ℕ) : '|' ∉ (⟨n, 2⟩ : Decimal).str.toList ∧
    (⟨n, 2⟩ : Decimal).str ≠ "None" := by
  obtain ⟨zeros, whole, rest, hstr, hdigits, hne⟩ := str_cents n
  have hall : ∀ c ∈ whole ++ rest, c.isDigit = true := by
    rw [hdigits]
    intro c hc
    exact isDigit_of_mem_zeros hc
  constructor
  · rw [hstr, List.mem_append, List.mem_cons]
    rintro (hmem | habsurd | hmem)
    · exact absurd (hall _ (List.mem_append_left _ hmem)) (by decide)
    · exact absurd habsurd (by decide)
    · exact absurd (hall _ (List.mem_append_right _ hmem)) (by decide)
  · intro hnone
    rw [hnone] at hstr
    cases whole with
    | nil => exact hne rfl
    | cons c whole =>
        have hfirst : 'N' = c := List.head_eq_of_cons_eq hstr
        have hdigit := hall c (List.mem_append_left _ List.mem_cons_self)
        rw [← hfirst] at hdigit
        exact absurd hdigit (by decide)

/-! ## Fields of the hashed text -/

/-- Both absent, or equal in cents. -/
def SameCents (a b : Option Price) : Prop := a.map Price.cents = b.map Price.cents

theorem cents_nonneg (price : Price) : 0 ≤ price.cents := by
  have hpos := (Decimal.lt_iff _ _).mp price.property
  rw [Decimal.toRat_zero] at hpos
  exact Int.floor_nonneg.mpr (by linarith)

theorem formatPriceForId_ok {price : Option Price} {text : String}
    (h : formatPriceForId price = .ok text) :
    text = price.elim "None" fun x => (⟨(x.cents.toNat : ℤ), 2⟩ : Decimal).str := by
  cases price with
  | none =>
      cases h
      rfl
  | some price =>
      unfold formatPriceForId quantizeCents at h
      simp only at h
      split at h
      · cases h
        rw [Option.elim_some, Int.toNat_of_nonneg (cents_nonneg price)]
        rfl
      · cases h

theorem price_text {price : Option Price} {text : String}
    (h : formatPriceForId price = .ok text) : '|' ∉ text.toList := by
  rw [formatPriceForId_ok h]
  cases price with
  | none => decide
  | some price => exact (str_cents_chars _).1

theorem price_text_inj {price price' : Option Price} {text : String}
    (h : formatPriceForId price = .ok text) (h' : formatPriceForId price' = .ok text) :
    SameCents price price' := by
  have htext := (formatPriceForId_ok h).symm.trans (formatPriceForId_ok h')
  unfold SameCents
  cases price with
  | none =>
      cases price' with
      | none => rfl
      | some y => exact absurd htext.symm (str_cents_chars _).2
  | some x =>
      cases price' with
      | none => exact absurd htext (str_cents_chars _).2
      | some y =>
          have hcents := str_cents_inj htext
          have hx := cents_nonneg x
          have hy := cents_nonneg y
          rw [Option.map_some, Option.map_some]
          congr 1
          omega

theorem padded_toList (width n : ℕ) : ∃ zeros, (padded width n).toList =
    List.replicate zeros '0' ++ Nat.toDigits 10 n := by
  refine ⟨width - (toString n).length, ?_⟩
  rw [padded, String.toList_append, String.toList_ofList, Nat.toString_eq_ofList_toDigits,
    String.toList_ofList]

theorem not_mem_padded {width n : ℕ} {c : Char} (hc : c.isDigit = false) :
    c ∉ (padded width n).toList := by
  obtain ⟨zeros, htext⟩ := padded_toList width n
  rw [htext]
  intro hmem
  rw [isDigit_of_mem_zeros hmem] at hc
  cases hc

theorem padded_inj {width n m : ℕ} (h : (padded width n).toList = (padded width m).toList) :
    n = m := by
  obtain ⟨zeros, hn⟩ := padded_toList width n
  obtain ⟨zeros', hm⟩ := padded_toList width m
  rw [← ofDigitChars_zeros n zeros, ← hn, h, hm, ofDigitChars_zeros]

theorem isoformat_toList (date : Date) : date.isoformat.toList =
    (padded 4 date.year).toList ++ '-' :: ((padded 2 date.month).toList ++ '-' ::
      (padded 2 date.day).toList) := by
  simp [Date.isoformat]

theorem isoformat_inj {date date' : Date} (h : date.isoformat.toList = date'.isoformat.toList) :
    date = date' := by
  rw [isoformat_toList, isoformat_toList] at h
  have hdash : Char.isDigit '-' = false := by decide
  obtain ⟨hyear, hrest⟩ := append_cons_left_inj (not_mem_padded hdash) (not_mem_padded hdash) h
  obtain ⟨hmonth, hday⟩ :=
    append_cons_left_inj (not_mem_padded hdash) (not_mem_padded hdash) hrest
  obtain ⟨year, month, day⟩ := date
  obtain ⟨year', month', day'⟩ := date'
  rw [Date.mk.injEq]
  exact ⟨padded_inj hyear, padded_inj hmonth, padded_inj hday⟩

theorem not_mem_isoformat (date : Date) : '|' ∉ date.isoformat.toList := by
  have hbar : Char.isDigit '|' = false := by decide
  rw [isoformat_toList, List.mem_append, List.mem_cons, List.mem_append, List.mem_cons]
  rintro (hmem | habsurd | hmem | habsurd | hmem)
  · exact not_mem_padded hbar hmem
  · exact absurd habsurd (by decide)
  · exact not_mem_padded hbar hmem
  · exact absurd habsurd (by decide)
  · exact not_mem_padded hbar hmem

theorem side_text (side : Side) : '|' ∉ side.text.toList ∧
    ∃ c rest, side.text.toList = c :: rest ∧ c.isLower = true := by
  cases side
  · exact ⟨by decide, 'b', ['u', 'y'], rfl, by decide⟩
  · exact ⟨by decide, 's', ['e', 'l', 'l'], rfl, by decide⟩

theorem side_text_inj {a b : Side} (h : a.text.toList = b.text.toList) : a = b := by
  revert h
  cases a <;> cases b <;> decide

theorem orderType_text (t : OrderType) : '|' ∉ t.text.toList := by
  cases t <;> decide

theorem orderType_text_inj {a b : OrderType} (h : a.text.toList = b.text.toList) : a = b := by
  revert h
  cases a <;> cases b <;> decide

theorem timeInForce_text (t : TimeInForce) : '|' ∉ t.text.toList := by
  cases t <;> decide

theorem timeInForce_text_inj {a b : TimeInForce} (h : a.text.toList = b.text.toList) : a = b := by
  revert h
  cases a <;> cases b <;> decide

theorem qty_text (order : OrderRequest) : toString order.qty = toString order.qty.toNat := by
  have hqty := order.qty_pos
  obtain ⟨n, hn⟩ := Int.eq_ofNat_of_zero_le hqty.le
  rw [hn]
  rfl

/-- The side is the first lower-case letter after the symbol. -/
theorem symbol_inj {a b : AcceptedOrder} {rest rest' : List Char}
    (h : a.symbol.toList ++ '|' :: (a.side.text.toList ++ rest) =
      b.symbol.toList ++ '|' :: (b.side.text.toList ++ rest')) :
    a.symbol = b.symbol ∧ a.side.text.toList ++ rest = b.side.text.toList ++ rest' := by
  obtain ⟨-, c, tail, htext, hlower⟩ := side_text a.side
  obtain ⟨-, c', tail', htext', hlower'⟩ := side_text b.side
  have hupper : ∀ order : AcceptedOrder, ∀ x ∈ order.symbol.toList ++ ['|'],
      (!x.isLower) = true := by
    intro order x hx
    rcases List.mem_append.mp hx with hsymbol | hbar
    · rw [order.symbol_upper x hsymbol]
      rfl
    · rw [List.mem_singleton.mp hbar]
      decide
  rw [htext, htext'] at h ⊢
  have hsplit : (a.symbol.toList ++ ['|']) ++ c :: (tail ++ rest) =
      (b.symbol.toList ++ ['|']) ++ c' :: (tail' ++ rest') := by
    simpa using h
  obtain ⟨hsymbol, hside⟩ := append_inj_of_kind (hupper a) (hupper b) (by simp [hlower])
    (by simp [hlower']) hsplit
  exact ⟨String.toList_inj.mp (List.append_cancel_right hsymbol), hside⟩

/-! ## Ids -/

/-- The two encoders are one function of the fields. -/
theorem generateClientOrderId_eq (lib : Hashing) (order : AcceptedOrder) (strategyId : String)
    (orderDate : Date) : generateClientOrderId lib order strategyId orderDate =
      reconstructOrderParamsHash lib order.params strategyId orderDate := by
  unfold generateClientOrderId reconstructOrderParamsHash OrderParams.text AcceptedOrder.params
  simp only [qty_text]
  cases formatPriceForId order.limitPrice with
  | error e => rfl
  | ok limitPrice =>
      cases formatPriceForId order.stopPrice with
      | error e => rfl
      | ok stopPrice =>
          simp only [bind, Except.bind, pure, Except.pure, String.append_assoc]

/-- The hashed text, a list of characters from delimiter to delimiter. -/
theorem generate_text {lib : Hashing} {order : AcceptedOrder} {strategyId id : String}
    {orderDate : Date} (h : generateClientOrderId lib order strategyId orderDate = .ok id) :
    ∃ limitPrice stopPrice text, formatPriceForId order.limitPrice = .ok limitPrice ∧
      formatPriceForId order.stopPrice = .ok stopPrice ∧ id = lib.orderId text ∧
      text.toList = order.symbol.toList ++ '|' :: (order.side.text.toList ++ '|' ::
        ((toString order.qty.toNat).toList ++ '|' :: (limitPrice.toList ++ '|' ::
          (stopPrice.toList ++ '|' :: (order.orderType.text.toList ++ '|' ::
            (order.timeInForce.text.toList ++ '|' :: (strategyId.toList ++ '|' ::
              orderDate.isoformat.toList))))))) := by
  unfold generateClientOrderId at h
  obtain ⟨limitPrice, hlimit, h⟩ := Except.bind_ok h
  obtain ⟨stopPrice, hstop, h⟩ := Except.bind_ok h
  cases h
  refine ⟨limitPrice, stopPrice, _, hlimit, hstop, rfl, ?_⟩
  rw [qty_text]
  simp only [String.toList_append, List.append_assoc]
  rfl

variable {lib : Hashing} {a b : AcceptedOrder} {strategyId strategyId' x y : String}
  {date date' : Date}

theorem same_of_id_eq (injective : Function.Injective lib.orderId)
    (hx : generateClientOrderId lib a strategyId date = .ok x)
    (hy : generateClientOrderId lib b strategyId' date' = .ok y) (heq : x = y) :
    SameFields a b strategyId strategyId' date date' ∧ SameCents a.limitPrice b.limitPrice ∧
      SameCents a.stopPrice b.stopPrice := by
  obtain ⟨limit, stop, text, hlimit, hstop, rfl, htext⟩ := generate_text hx
  obtain ⟨limit', stop', text', hlimit', hstop', rfl, htext'⟩ := generate_text hy
  rw [injective heq, htext'] at htext
  have hbar : Char.isDigit '|' = false := by decide
  obtain ⟨hsymbol, h⟩ := symbol_inj htext.symm
  obtain ⟨hside, h⟩ := append_cons_left_inj (side_text _).1 (side_text _).1 h
  obtain ⟨hqty, h⟩ := append_cons_left_inj (not_mem_toString hbar) (not_mem_toString hbar) h
  obtain ⟨hlimits, h⟩ := append_cons_left_inj (price_text hlimit) (price_text hlimit') h
  obtain ⟨hstops, h⟩ := append_cons_left_inj (price_text hstop) (price_text hstop') h
  obtain ⟨htype, h⟩ := append_cons_left_inj (orderType_text _) (orderType_text _) h
  obtain ⟨htif, h⟩ := append_cons_left_inj (timeInForce_text _) (timeInForce_text _) h
  obtain ⟨hstrategy, hdate⟩ :=
    append_cons_right_inj (not_mem_isoformat _) (not_mem_isoformat _) h
  rw [← String.toList_inj.mp hlimits] at hlimit'
  rw [← String.toList_inj.mp hstops] at hstop'
  refine ⟨⟨hsymbol, side_text_inj hside, ?_, orderType_text_inj htype, timeInForce_text_inj htif,
    String.toList_inj.mp hstrategy, isoformat_inj hdate⟩, price_text_inj hlimit hlimit',
    price_text_inj hstop hstop'⟩
  have hqtyNat := toString_toList_inj hqty
  have ha := a.qty_pos
  have hb := b.qty_pos
  omega

/-- Equal cents have one text, where they have one. -/
theorem text_of_sameCents {price price' : Option Price} {text text' : String}
    (h : SameCents price price') (hp : formatPriceForId price = .ok text)
    (hp' : formatPriceForId price' = .ok text') : text = text' := by
  rw [formatPriceForId_ok hp, formatPriceForId_ok hp']
  unfold SameCents at h
  cases price with
  | none =>
      cases price' with
      | none => rfl
      | some y => cases h
  | some x =>
      cases price' with
      | none => cases h
      | some y =>
          rw [Option.map_some, Option.map_some, Option.some.injEq] at h
          rw [Option.elim_some, Option.elim_some, h]

theorem id_eq_of_same (hx : generateClientOrderId lib a strategyId date = .ok x)
    (hy : generateClientOrderId lib b strategyId' date' = .ok y)
    (hsame : SameFields a b strategyId strategyId' date date')
    (hlimit : SameCents a.limitPrice b.limitPrice) (hstop : SameCents a.stopPrice b.stopPrice) :
    x = y := by
  obtain ⟨limit, stop, text, hl, hs, rfl, htext⟩ := generate_text hx
  obtain ⟨limit', stop', text', hl', hs', rfl, htext'⟩ := generate_text hy
  rw [text_of_sameCents hlimit hl hl', text_of_sameCents hstop hs hs', hsame.symbol, hsame.side,
    hsame.qty, hsame.orderType, hsame.timeInForce, hsame.strategyId, hsame.date, ← htext'] at htext
  rw [String.toList_inj.mp htext]

/-- Ids are equal exactly for orders with equal fields and prices that are equal in cents, and
both encoders give them. -/
theorem ids_separate_orders (lib : Hashing) (injective : Function.Injective lib.orderId)
    (a b : AcceptedOrder) (strategyId strategyId' : String) (date date' : Date) :
    (∀ x y, generateClientOrderId lib a strategyId date = .ok x →
      generateClientOrderId lib b strategyId' date' = .ok y →
      (x = y ↔ SameFields a b strategyId strategyId' date date' ∧
        SameCents a.limitPrice b.limitPrice ∧ SameCents a.stopPrice b.stopPrice)) ∧
    reconstructOrderParamsHash lib a.params strategyId date =
      generateClientOrderId lib a strategyId date := by
  refine ⟨?_, (generateClientOrderId_eq lib a strategyId date).symm⟩
  intro x y hx hy
  constructor
  · exact same_of_id_eq injective hx hy
  · intro h
    exact id_eq_of_same hx hy h.1 h.2.1 h.2.2

/-- An order to buy fifteen shares at a limit. -/
def limitOrder (limitPrice : Price) : AcceptedOrder where
  toOrderRequest := ⟨"AAPL", .buy, 15, .limit, some limitPrice, none, .day, by decide⟩
  symbol_upper := by
    have hall : "AAPL".toList.all (fun c => !c.isLower) = true := by decide
    intro c hc
    simpa using List.all_eq_true.mp hall c hc

theorem ids_separate_orders_limit :
    (∀ x y, generateClientOrderId plainHashing (limitOrder samplePrice) "alpha" ⟨2025, 1, 2⟩ =
        .ok x →
      generateClientOrderId plainHashing (limitOrder samplePrice) "beta" ⟨2025, 1, 2⟩ = .ok y →
      (x = y ↔ SameFields (limitOrder samplePrice) (limitOrder samplePrice) "alpha" "beta"
          ⟨2025, 1, 2⟩ ⟨2025, 1, 2⟩ ∧
        SameCents (limitOrder samplePrice).limitPrice (limitOrder samplePrice).limitPrice ∧
        SameCents (limitOrder samplePrice).stopPrice (limitOrder samplePrice).stopPrice)) ∧
    reconstructOrderParamsHash plainHashing (limitOrder samplePrice).params "alpha" ⟨2025, 1, 2⟩ =
      generateClientOrderId plainHashing (limitOrder samplePrice) "alpha" ⟨2025, 1, 2⟩ :=
  ids_separate_orders plainHashing Function.injective_id (limitOrder samplePrice)
    (limitOrder samplePrice) "alpha" "beta" ⟨2025, 1, 2⟩ ⟨2025, 1, 2⟩

def millsLow : Price := ⟨⟨1001, 3⟩, by decide⟩

def millsHigh : Price := ⟨⟨1004, 3⟩, by decide⟩

/-- Limits of 1.001 and 1.004 have one id. -/
theorem mills_share_id :
    ¬(generateClientOrderId plainHashing (limitOrder millsLow) "alpha" ⟨2025, 1, 2⟩ =
        generateClientOrderId plainHashing (limitOrder millsHigh) "alpha" ⟨2025, 1, 2⟩ →
      SamePrice (limitOrder millsLow).limitPrice (limitOrder millsHigh).limitPrice) := by
  intro h
  have hprice := h (by decide +kernel)
  norm_num [SamePrice, limitOrder, millsLow, millsHigh, Decimal.toRat] at hprice

end TradingPlatform.Gateway
