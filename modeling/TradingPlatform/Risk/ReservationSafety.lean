import TradingPlatform.Base.Run
import TradingPlatform.Base.SubsetSums
import TradingPlatform.Risk.PositionReservation

/-! # Reservations against the position limit

Runs of reserve, release and confirm calls on one symbol. A reservation is
checked against the aggregate, in which pending buys and sells cancel out, while
any part of them may come to be the one that executes. The limit is therefore
kept exactly by the runs in which each granted reservation also fits when the
pending ones of the other side are left out.
-/

namespace TradingPlatform.Risk

open Base PositionReservation

/-- The keys of the symbol, with the deltas of the tokens confirmed so far. -/
structure ReservationBook where
  keys : SymbolKeys
  confirmed : List ℤ

def ReservationBook.realised (book : ReservationBook) (p : ℤ) : ℤ := p + book.confirmed.sum

/-- No reservation yet; the aggregate may be missing. -/
def openingBook (aggregate : Option ℤ) : ReservationBook := ⟨⟨aggregate, Table.empty⟩, []⟩

inductive ReservationCall where
  | reserve (side : Side) (qty : ℤ) (token : String)
  | release (token : String)
  | confirm (token : String)
  deriving DecidableEq

def callStep (r : PositionReservation) (maxLimit p : ℤ) (book : ReservationBook) :
    ReservationCall → ReservationBook
  | .reserve side qty token =>
      ⟨(r.reserve book.keys token side qty maxLimit p).2, book.confirmed⟩
  | .release token => ⟨(release book.keys token).2, book.confirmed⟩
  | .confirm token =>
      ⟨(confirm book.keys token).2,
        book.confirmed ++ ((book.keys.tokens.find? token).map TokenKey.delta).toList⟩

/-- Quantities are positive, and a new token is no live one. -/
def FreshCall (book : ReservationBook) : ReservationCall → Prop
  | .reserve _ qty token => 0 < qty ∧ book.keys.tokens.find? token = none
  | .release _ | .confirm _ => True

instance (book : ReservationBook) : DecidablePred (FreshCall book)
  | .reserve _ qty token =>
      inferInstanceAs (Decidable (0 < qty ∧ book.keys.tokens.find? token = none))
  | .release _ | .confirm _ => .isTrue trivial

/-- The realised position is within the limit, and stays there whichever of the outstanding
reservations execute. -/
def WithinLimit (maxLimit p : ℤ) (book : ReservationBook) : Prop :=
  |book.realised p| ≤ maxLimit ∧
    ∀ part : List ℤ, part.Sublist book.keys.outstanding →
      |book.realised p + part.sum| ≤ maxLimit

/-- A reservation that fits the aggregate fits also without the pending ones of the other
side. -/
def FitsUnnetted (maxLimit p : ℤ) (book : ReservationBook) : ReservationCall → Prop
  | .reserve .buy qty _ =>
      |reservedPosition book.keys p + qty| ≤ maxLimit →
        reservedPosition book.keys p - losses book.keys.outstanding + qty ≤ maxLimit
  | .reserve .sell qty _ =>
      |reservedPosition book.keys p - qty| ≤ maxLimit →
        -maxLimit ≤ reservedPosition book.keys p - gains book.keys.outstanding - qty
  | .release _ | .confirm _ => True

/-! ## The books balance -/

/-- The aggregate is the realised position with all outstanding reservations, and only a symbol
without reservations lacks it. -/
structure Balanced (p : ℤ) (book : ReservationBook) : Prop where
  aggregate : reservedPosition book.keys p = book.realised p + book.keys.outstanding.sum
  present : book.keys.position = none → book.keys.outstanding = []

theorem balanced_openingBook {aggregate : Option ℤ} {p : ℤ} (h : aggregate.getD p = p) :
    Balanced p (openingBook aggregate) := by
  refine ⟨?_, fun _ => rfl⟩
  have hsum : p = p + (0 : ℤ) + 0 := by omega
  exact h.trans hsum

/-- A live token comes out of the outstanding ones. -/
theorem outstanding_delete {keys : SymbolKeys} {token : String} {key : TokenKey}
    (h : keys.tokens.find? token = some key) (position : Option ℤ) :
    keys.outstanding.Perm
      (key.delta :: SymbolKeys.outstanding ⟨position, keys.tokens.delete token⟩) :=
  (Table.perm_delete h).map TokenKey.delta

theorem outstanding_upsert {keys : SymbolKeys} (key : TokenKey) (position : Option ℤ)
    (h : keys.tokens.find? key.token = none) :
    SymbolKeys.outstanding ⟨position, keys.tokens.upsert key⟩ =
      keys.outstanding ++ [key.delta] := by
  rw [SymbolKeys.outstanding, Table.upsert_rows_of_fresh h, List.map_append]
  rfl

/-! ## What a call does -/

structure Granted (p : ℤ) (book : ReservationBook) (delta : ℤ) (book' : ReservationBook) :
    Prop where
  position : book'.keys.position = some (reservedPosition book.keys p + delta)
  outstanding : book'.keys.outstanding = book.keys.outstanding ++ [delta]
  confirmed : book'.confirmed = book.confirmed

structure Released (p : ℤ) (book : ReservationBook) (delta : ℤ) (book' : ReservationBook) :
    Prop where
  position : book'.keys.position = some (reservedPosition book.keys p - delta)
  outstanding : book.keys.outstanding.Perm (delta :: book'.keys.outstanding)
  confirmed : book'.confirmed = book.confirmed

structure Confirmed (book : ReservationBook) (delta : ℤ) (book' : ReservationBook) : Prop where
  position : book'.keys.position = book.keys.position
  outstanding : book.keys.outstanding.Perm (delta :: book'.keys.outstanding)
  confirmed : book'.confirmed = book.confirmed ++ [delta]

section Step

variable {r : PositionReservation} {maxLimit p : ℤ} {book : ReservationBook}

/-- While a token is live the aggregate is present, so a release reads what a reservation
would. -/
theorem Balanced.aggregate_of_live (h : Balanced p book) {token : String} {key : TokenKey}
    (hlive : book.keys.tokens.find? token = some key) :
    book.keys.position.getD 0 = reservedPosition book.keys p := by
  cases hposition : book.keys.position with
  | some a => simp [reservedPosition, hposition]
  | none =>
      have hempty := h.present hposition
      have hmem : key.delta ∈ book.keys.outstanding :=
        List.mem_map_of_mem (Table.find?_mem hlive)
      rw [hempty] at hmem
      cases hmem

/-- Everything a call can do: nothing, grant a reservation, or settle an outstanding one. -/
theorem callStep_cases (h : Balanced p book) (call : ReservationCall)
    (hfresh : FreshCall book call) :
    (callStep r maxLimit p book call = book ∧ FitsUnnetted maxLimit p book call) ∨
    (∃ side qty token, call = .reserve side qty token ∧ 0 < qty ∧
      |reservedPosition book.keys p + reservationDelta side qty| ≤ maxLimit ∧
      Granted p book (reservationDelta side qty) (callStep r maxLimit p book call)) ∨
    (FitsUnnetted maxLimit p book call ∧ ∃ delta,
      Released p book delta (callStep r maxLimit p book call) ∨
        Confirmed book delta (callStep r maxLimit p book call)) := by
  cases call with
  | reserve side qty token =>
      rcases reserve_cases r book.keys token side qty maxLimit p with hcase | hcase
      · left
        have hrefused := not_le.mpr hcase.1
        constructor
        · rw [callStep, hcase.2.2]
        · cases side with
          | buy => exact fun hfits => absurd hfits hrefused
          | sell => exact fun hfits => absurd hfits hrefused
      · right
        left
        refine ⟨side, qty, token, rfl, hfresh.1, hcase.1, ?_⟩
        rw [callStep, hcase.2.2]
        exact ⟨rfl, outstanding_upsert ⟨token, reservationDelta side qty, r.ttl⟩ _ hfresh.2, rfl⟩
  | release token =>
      cases hlive : book.keys.tokens.find? token with
      | none =>
          left
          rw [callStep, release_of_gone hlive]
          exact ⟨rfl, trivial⟩
      | some key =>
          right
          right
          refine ⟨trivial, key.delta, Or.inl ?_⟩
          rw [callStep, release_of_live hlive, h.aggregate_of_live hlive]
          exact ⟨rfl, outstanding_delete hlive _, rfl⟩
  | confirm token =>
      cases hlive : book.keys.tokens.find? token with
      | none =>
          left
          rw [callStep, confirm_of_gone hlive, hlive]
          refine ⟨?_, trivial⟩
          rw [Option.map_none, Option.toList_none, List.append_nil]
      | some key =>
          right
          right
          refine ⟨trivial, key.delta, Or.inr ?_⟩
          rw [callStep, confirm_of_live hlive, hlive]
          exact ⟨rfl, outstanding_delete hlive _, rfl⟩

theorem balanced_step (h : Balanced p book) (call : ReservationCall)
    (hfresh : FreshCall book call) : Balanced p (callStep r maxLimit p book call) := by
  have hold := h.aggregate
  rcases callStep_cases (r := r) h call hfresh with ⟨hsame, -⟩ |
    ⟨side, qty, token, -, -, -, hgranted⟩ | ⟨-, delta, hreleased | hconfirmed⟩
  · rw [hsame]
    exact h
  · refine ⟨?_, fun hnone => ?_⟩
    · rw [reservedPosition, hgranted.position, hgranted.outstanding, ReservationBook.realised,
        hgranted.confirmed, List.sum_append, List.sum_singleton, Option.getD_some]
      simp only [ReservationBook.realised] at hold
      omega
    · rw [hgranted.position] at hnone
      cases hnone
  · refine ⟨?_, fun hnone => ?_⟩
    · have hsum := hreleased.outstanding.sum_eq
      rw [List.sum_cons] at hsum
      rw [reservedPosition, hreleased.position, ReservationBook.realised, hreleased.confirmed,
        Option.getD_some]
      simp only [ReservationBook.realised] at hold
      omega
    · rw [hreleased.position] at hnone
      cases hnone
  · have hperm := hconfirmed.outstanding
    refine ⟨?_, fun hnone => ?_⟩
    · have hsum := hperm.sum_eq
      rw [List.sum_cons] at hsum
      rw [reservedPosition, hconfirmed.position, ReservationBook.realised,
        hconfirmed.confirmed, List.sum_append, List.sum_singleton]
      simp only [ReservationBook.realised, reservedPosition] at hold
      omega
    · rw [hconfirmed.position] at hnone
      rw [h.present hnone] at hperm
      cases hperm.symm.eq_nil

/-- The limit is a bound on the two extremes. -/
theorem withinLimit_iff :
    WithinLimit maxLimit p book ↔
      -maxLimit ≤ book.realised p + losses book.keys.outstanding ∧
        book.realised p + gains book.keys.outstanding ≤ maxLimit := by
  have hparts := sublist_sums_within book.keys.outstanding (-maxLimit - book.realised p)
    (maxLimit - book.realised p)
  constructor
  · intro h
    have hbounds := hparts.mp (by
      intro part hpart
      have hin := abs_le.mp (h.2 part hpart)
      omega)
    omega
  · intro h
    have hall := hparts.mpr (by omega)
    constructor
    · have hnone := hall [] (List.nil_sublist _)
      rw [List.sum_nil] at hnone
      rw [abs_le]
      omega
    · intro part hpart
      have hin := hall part hpart
      rw [abs_le]
      omega

/-- What one call makes of the limit. -/
theorem withinLimit_step (h : Balanced p book) (call : ReservationCall)
    (hfresh : FreshCall book call) (hwithin : WithinLimit maxLimit p book) :
    WithinLimit maxLimit p (callStep r maxLimit p book call) ↔
      FitsUnnetted maxLimit p book call := by
  rcases callStep_cases (r := r) h call hfresh with ⟨hsame, hfits⟩ |
    ⟨side, qty, token, rfl, hqty, hlimit, hgranted⟩ | ⟨hfits, delta, hreleased | hconfirmed⟩
  · rw [hsame]
    exact iff_of_true hwithin hfits
  · have hold := h.aggregate
    have hnet := gains_add_losses book.keys.outstanding
    rw [withinLimit_iff] at hwithin ⊢
    rw [hgranted.outstanding, losses_append, gains_append, losses_cons, gains_cons, losses_nil,
      gains_nil, ReservationBook.realised, hgranted.confirmed]
    simp only [ReservationBook.realised] at hold hwithin
    cases side with
    | buy =>
        have hbuy : reservationDelta .buy qty = qty := rfl
        rw [hbuy] at hlimit ⊢
        simp only [FitsUnnetted, hlimit, true_implies]
        omega
    | sell =>
        have hsell : reservationDelta .sell qty = -qty := rfl
        rw [hsell, ← sub_eq_add_neg] at hlimit
        rw [hsell]
        simp only [FitsUnnetted, hlimit, true_implies]
        omega
  · refine iff_of_true ?_ hfits
    rw [withinLimit_iff] at hwithin ⊢
    rw [losses_perm hreleased.outstanding, gains_perm hreleased.outstanding, losses_cons,
      gains_cons] at hwithin
    rw [ReservationBook.realised, hreleased.confirmed]
    simp only [ReservationBook.realised] at hwithin
    omega
  · refine iff_of_true ?_ hfits
    rw [withinLimit_iff] at hwithin ⊢
    rw [losses_perm hconfirmed.outstanding, gains_perm hconfirmed.outstanding, losses_cons,
      gains_cons] at hwithin
    rw [ReservationBook.realised, hconfirmed.confirmed, List.sum_append, List.sum_singleton]
    simp only [ReservationBook.realised] at hwithin
    omega

end Step

/-! ## Runs -/

/-- A buy of 200 is granted against a pending sell of 100, which is then released. -/
def hiddenBuy : List ReservationCall :=
  [.reserve .sell 100 "a", .reserve .buy 200 "b", .release "a", .confirm "b"]

end TradingPlatform.Risk
