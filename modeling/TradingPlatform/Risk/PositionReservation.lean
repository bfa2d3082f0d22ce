import Mathlib.Algebra.Order.Group.Int
import Mathlib.Algebra.Order.Group.Unbundled.Abs
import TradingPlatform.Base.Table
import TradingPlatform.Gateway.Schema

/-! # Position reservations

The Redis keys of one symbol and the scripts that run on them atomically. The
key `position_reservation:{symbol}` holds the aggregate and never expires; each
reservation has a token key with its delta, which expires. A missing aggregate
is read as the caller's position by the reservation and as zero by the release.
-/

namespace TradingPlatform.Risk

open Base

export Gateway (Side Side.buy Side.sell)

structure TokenKey where
  token : String
  delta : ℤ
  ttl : ℕ
  deriving DecidableEq

structure SymbolKeys where
  position : Option ℤ
  tokens : Table String TokenKey TokenKey.token

/-- The deltas of the reservations that are neither released nor confirmed. -/
def SymbolKeys.outstanding (keys : SymbolKeys) : List ℤ := keys.tokens.rows.map TokenKey.delta

/-! ## Scripts -/

inductive ReserveReply where
  | reserved (token : String) (current newPosition : ℤ)
  | limitExceeded (current newPosition : ℤ)
  deriving DecidableEq

inductive ReleaseReply where
  | released (current newPosition : ℤ)
  | tokenNotFound
  deriving DecidableEq

inductive ConfirmReply where
  | confirmed
  | tokenNotFound
  deriving DecidableEq

def reservePositionLua (keys : SymbolKeys) (delta maxLimit : ℤ) (token : String) (ttl : ℕ)
    (fallbackPosition : ℤ) : ReserveReply × SymbolKeys :=
  let current := keys.position.getD fallbackPosition
  let newPosition := current + delta
  if maxLimit < |newPosition| then (.limitExceeded current newPosition, keys)
  else (.reserved token current newPosition,
    ⟨some newPosition, keys.tokens.upsert ⟨token, delta, ttl⟩⟩)

def releaseReservationLua (keys : SymbolKeys) (token : String) : ReleaseReply × SymbolKeys :=
  match keys.tokens.find? token with
  | none => (.tokenNotFound, keys)
  | some key =>
      let current := keys.position.getD 0
      let newPosition := current - key.delta
      (.released current newPosition, ⟨some newPosition, keys.tokens.delete token⟩)

def confirmReservationLua (keys : SymbolKeys) (token : String) : ConfirmReply × SymbolKeys :=
  match keys.tokens.find? token with
  | none => (.tokenNotFound, keys)
  | some _ => (.confirmed, ⟨keys.position, keys.tokens.delete token⟩)

/-- Redis drops the token key. -/
def SymbolKeys.expire (keys : SymbolKeys) (token : String) : SymbolKeys :=
  ⟨keys.position, keys.tokens.delete token⟩

/-! ## The reservation manager -/

/-- In seconds. -/
def defaultReservationTtl : ℕ := 60

structure PositionReservation where
  ttl : ℕ := defaultReservationTtl

structure ReservationResult where
  success : Bool
  token : Option String
  reason : String
  previousPosition : ℤ
  newPosition : ℤ
  deriving DecidableEq

structure ReleaseResult where
  success : Bool
  reason : String
  previousPosition : Option ℤ
  newPosition : Option ℤ
  deriving DecidableEq

def reservationDelta (side : Side) (qty : ℤ) : ℤ := if side = .buy then qty else -qty

namespace PositionReservation

/-- `token` is the value that `secrets.token_hex` returns to this call. -/
def reserve (r : PositionReservation) (keys : SymbolKeys) (token : String) (side : Side)
    (qty maxLimit currentPosition : ℤ) : ReservationResult × SymbolKeys :=
  match reservePositionLua keys (reservationDelta side qty) maxLimit token r.ttl
      currentPosition with
  | (.reserved _ prevPos newPos, keys') => (⟨true, some token, "", prevPos, newPos⟩, keys')
  | (.limitExceeded prevPos newPos, keys') =>
      (⟨false, none, "Position limit exceeded: " ++ toString |newPos| ++ " > " ++
        toString maxLimit, prevPos, newPos⟩, keys')

def release (keys : SymbolKeys) (token : String) : ReleaseResult × SymbolKeys :=
  match releaseReservationLua keys token with
  | (.released prevPos newPos, keys') => (⟨true, "RELEASED", some prevPos, some newPos⟩, keys')
  | (.tokenNotFound, keys') => (⟨false, "TOKEN_NOT_FOUND", none, none⟩, keys')

def confirm (keys : SymbolKeys) (token : String) : ReleaseResult × SymbolKeys :=
  match confirmReservationLua keys token with
  | (.confirmed, keys') => (⟨true, "CONFIRMED", none, none⟩, keys')
  | (.tokenNotFound, keys') => (⟨false, "TOKEN_NOT_FOUND", none, none⟩, keys')

/-- What the next reservation takes for the position: the aggregate, or else the position the
caller passes. -/
def reservedPosition (keys : SymbolKeys) (currentPosition : ℤ) : ℤ :=
  keys.position.getD currentPosition

section Spec

variable {r : PositionReservation} {keys : SymbolKeys} {token : String} {side : Side}
  {qty maxLimit currentPosition : ℤ}

/-- A reservation is refused without effect, or moves the aggregate and leaves a token. -/
theorem reserve_cases (r : PositionReservation) (keys : SymbolKeys) (token : String) (side : Side)
    (qty maxLimit currentPosition : ℤ) :
    (maxLimit < |reservedPosition keys currentPosition + reservationDelta side qty| ∧
      (r.reserve keys token side qty maxLimit currentPosition).1.success = false ∧
      (r.reserve keys token side qty maxLimit currentPosition).2 = keys) ∨
    (|reservedPosition keys currentPosition + reservationDelta side qty| ≤ maxLimit ∧
      (r.reserve keys token side qty maxLimit currentPosition).1.success = true ∧
      (r.reserve keys token side qty maxLimit currentPosition).2 =
        ⟨some (reservedPosition keys currentPosition + reservationDelta side qty),
          keys.tokens.upsert ⟨token, reservationDelta side qty, r.ttl⟩⟩) := by
  unfold reserve reservePositionLua reservedPosition
  by_cases hlimit : maxLimit <
      |keys.position.getD currentPosition + reservationDelta side qty|
  · left
    simp [hlimit]
  · right
    have hle := not_lt.mp hlimit
    simp [hlimit, hle]

theorem reserve_success_iff :
    (r.reserve keys token side qty maxLimit currentPosition).1.success = true ↔
      |reservedPosition keys currentPosition + reservationDelta side qty| ≤ maxLimit := by
  rcases reserve_cases r keys token side qty maxLimit currentPosition with h | h
  · rw [h.2.1]
    simpa using h.1
  · rw [h.2.1]
    simpa using h.1

theorem release_of_live {key : TokenKey} (h : keys.tokens.find? token = some key) :
    release keys token =
      (⟨true, "RELEASED", some (keys.position.getD 0),
        some (keys.position.getD 0 - key.delta)⟩,
        ⟨some (keys.position.getD 0 - key.delta), keys.tokens.delete token⟩) := by
  simp [release, releaseReservationLua, h]

theorem release_of_gone (h : keys.tokens.find? token = none) :
    release keys token = (⟨false, "TOKEN_NOT_FOUND", none, none⟩, keys) := by
  simp [release, releaseReservationLua, h]

theorem confirm_of_live {key : TokenKey} (h : keys.tokens.find? token = some key) :
    confirm keys token =
      (⟨true, "CONFIRMED", none, none⟩, ⟨keys.position, keys.tokens.delete token⟩) := by
  simp [confirm, confirmReservationLua, h]

theorem confirm_of_gone (h : keys.tokens.find? token = none) :
    confirm keys token = (⟨false, "TOKEN_NOT_FOUND", none, none⟩, keys) := by
  simp [confirm, confirmReservationLua, h]

end Spec

end PositionReservation

end TradingPlatform.Risk
