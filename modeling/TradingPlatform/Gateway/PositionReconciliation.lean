import TradingPlatform.Base.Run
import TradingPlatform.Gateway.CostAccounting

/-! # Position snapshots beside fill webhooks

The broker executes fills on a symbol; each is reported by a webhook some time
later, which moves the local position by the fill. Reconciliation runs read the
broker's positions, then the local ones, and then overwrite them symbol by
symbol with what they read. Nothing orders a snapshot and the fills that it
already contains, so the last snapshot written decides whether the local
quantity is the broker's once everything has been delivered.
-/

namespace TradingPlatform.Gateway

open Base

/-! ## Snapshots -/

/-- A position as the broker reports it. -/
structure BrokerPosition where
  symbol : String
  qty : Int
  avgEntryPrice : ℚ
  avg_pos : 0 < avgEntryPrice ∨ qty = 0

def upsertPositionSnapshot (db : Database) (p : BrokerPosition) : Database :=
  { db with
    positions := db.positions.upsert
      { symbol := p.symbol
        qty := p.qty
        avgEntryPrice := p.avgEntryPrice
        realizedPl := (db.positions.find? p.symbol).elim 0 (·.realizedPl)
        avg_pos := p.avg_pos } }

theorem positionQty_upsertPositionSnapshot (db : Database) (p : BrokerPosition)
    (symbol : String) : (upsertPositionSnapshot db p).positionQty symbol =
      if symbol = p.symbol then p.qty else db.positionQty symbol :=
  positionQty_upsert db _ symbol

/-- Open positions only. -/
def getAllPositions (db : Database) : List Position := db.positions.select (·.qty ≠ 0)

def flatSnapshot (symbol : String) : BrokerPosition := ⟨symbol, 0, 0, Or.inr rfl⟩

/-- The snapshots a run writes: the broker's positions, and flat ones for the open local
positions that the broker does not list. -/
def reconcileSnapshots (brokerBySymbol : Table String BrokerPosition (·.symbol))
    (dbPositions : List Position) : List BrokerPosition :=
  brokerBySymbol.rows ++ ((dbPositions.map (·.symbol)).filter fun s =>
    (brokerBySymbol.find? s).isNone).map flatSnapshot

/-! ## The broker's answer -/

def signedTotal (fills : List PricedFill) : Int := (fills.map signedQty).sum

section Sync

variable (symbol : String)

/-- The broker lists the symbol while its position is open; `before` and `after` are what it
lists of other symbols. -/
def brokerAnswer (total : Int) (avg : { q : ℚ // 0 < q }) (before after : List BrokerPosition) :
    List BrokerPosition :=
  before.filter (·.symbol ≠ symbol) ++
    (if total = 0 then [] else [⟨symbol, total, avg, Or.inl avg.2⟩]) ++
      after.filter (·.symbol ≠ symbol)

variable {symbol}

theorem mem_brokerAnswer {total : Int} {avg : { q : ℚ // 0 < q }}
    {before after : List BrokerPosition} {p : BrokerPosition}
    (h : p ∈ brokerAnswer symbol total avg before after) (hp : p.symbol = symbol) :
    p.qty = total := by
  rw [brokerAnswer, List.mem_append, List.mem_append, List.mem_filter, List.mem_filter] at h
  rcases h with (⟨-, hother⟩ | hlisted) | ⟨-, hother⟩
  · simp [hp] at hother
  · split at hlisted
    · cases hlisted
    · rw [List.mem_singleton.mp hlisted]
  · simp [hp] at hother

/-- Whatever a run writes for the symbol is the broker's position when the run read it. -/
theorem reconcileSnapshots_qty {total : Int} {avg : { q : ℚ // 0 < q }}
    {before after : List BrokerPosition} {dbPositions : List Position} {p : BrokerPosition}
    (h : p ∈ reconcileSnapshots (.ofList (brokerAnswer symbol total avg before after))
      dbPositions) (hp : p.symbol = symbol) : p.qty = total := by
  rw [reconcileSnapshots, List.mem_append, List.mem_map] at h
  rcases h with hbroker | ⟨s, hs, rfl⟩
  · exact mem_brokerAnswer (Table.mem_ofList hbroker) hp
  · obtain rfl : s = symbol := hp
    have habsent := (List.mem_filter.mp hs).2
    by_contra hwrong
    have htotal : total ≠ 0 := fun hzero => hwrong hzero.symm
    have hlisted : (⟨s, total, avg, Or.inl avg.2⟩ : BrokerPosition) ∈
        brokerAnswer s total avg before after := by
      rw [brokerAnswer, if_neg htotal]
      simp
    have hfound : ((Table.ofList (brokerAnswer s total avg before after) :
        Table String BrokerPosition (·.symbol)).find? s).isSome :=
      Table.find?_ofList_isSome hlisted
    rw [Option.isNone_iff_eq_none] at habsent
    rw [habsent] at hfound
    cases hfound

/-! ## Interleavings -/

/-- Where a run of `reconcile_positions` is. -/
inductive ReconcileRun where
  | idle
  | answered (brokerBySymbol : Table String BrokerPosition (·.symbol))
  | writing (next : BrokerPosition) (rest : List BrokerPosition)

/-- A run with nothing left to write is over. -/
def ReconcileRun.ofSnapshots : List BrokerPosition → ReconcileRun
  | [] => .idle
  | next :: rest => .writing next rest

/-- The broker has executed `delivered ++ inFlight`; the webhooks of the latter are still out. -/
structure PositionSync where
  db : Database
  delivered : List PricedFill
  inFlight : List PricedFill
  runs : Nat → ReconcileRun

def PositionSync.executed (s : PositionSync) : List PricedFill := s.delivered ++ s.inFlight

def PositionSync.start (db : Database) : PositionSync := ⟨db, [], [], fun _ => .idle⟩

inductive SyncStep where
  | execute (fill : PricedFill)
  | webhook
  | brokerRead (run : Nat) (avg : { q : ℚ // 0 < q }) (before after : List BrokerPosition)
  | dbRead (run : Nat)
  | write (run : Nat)

variable (symbol)

/-- The position move of a webhook; it holds the row from its read to its write. -/
def movePosition (db : Database) (fill : PricedFill) : Database :=
  ((updatePositionOnFillWithConn db symbol fill.fillQty fill.fillPrice fill.side).map
    (·.1)).getD db

/-- A step that the run it names is not ready for does nothing. -/
def syncStep (s : PositionSync) : SyncStep → PositionSync
  | .execute fill => { s with inFlight := s.inFlight ++ [fill] }
  | .webhook =>
      match s.inFlight with
      | [] => s
      | fill :: later =>
          { s with
            db := movePosition symbol s.db fill
            delivered := s.delivered ++ [fill]
            inFlight := later }
  | .brokerRead i avg before after =>
      match s.runs i with
      | .idle =>
          let answer := brokerAnswer symbol (signedTotal s.executed) avg before after
          { s with runs := Function.update s.runs i (.answered (.ofList answer)) }
      | _ => s
  | .dbRead i =>
      match s.runs i with
      | .answered brokerBySymbol =>
          let snapshots := reconcileSnapshots brokerBySymbol (getAllPositions s.db)
          { s with runs := Function.update s.runs i (.ofSnapshots snapshots) }
      | _ => s
  | .write i =>
      match s.runs i with
      | .writing next rest =>
          { s with
            db := upsertPositionSnapshot s.db next
            runs := Function.update s.runs i (.ofSnapshots rest) }
      | _ => s

/-- Every webhook has been delivered and no run is in progress. -/
def AllDelivered (s : PositionSync) : Prop := s.inFlight = [] ∧ ∀ i, s.runs i = .idle

/-- The property: the local quantity is the broker's. -/
def PositionsAgree (s : PositionSync) : Prop :=
  s.db.positionQty symbol = signedTotal s.executed

/-- The step writes a snapshot of the symbol. -/
def WritesSnapshot (s : PositionSync) : SyncStep → Prop
  | .write i => ∃ next rest, s.runs i = .writing next rest ∧ next.symbol = symbol
  | _ => False

/-- The snapshot that the step writes is the sum of the fills delivered so far. -/
def CarriesDelivered (s : PositionSync) : SyncStep → Prop
  | .write i => ∀ next rest, s.runs i = .writing next rest → next.qty = signedTotal s.delivered
  | _ => True

/-! ## The invariant -/

/-- The local quantity is the sum of the delivered fills. -/
def InStep (s : PositionSync) : Prop := s.db.positionQty symbol = signedTotal s.delivered

variable {symbol}

theorem signedTotal_append (fills more : List PricedFill) :
    signedTotal (fills ++ more) = signedTotal fills + signedTotal more := by
  simp [signedTotal]

theorem movePosition_positionQty (db : Database) (fill : PricedFill) :
    (movePosition symbol db fill).positionQty symbol =
      db.positionQty symbol + signedQty fill := by
  have hsome := positionAfterFill_isSome db symbol fill.fillQty fill.side fill.price_pos
  obtain ⟨p, hp⟩ := Option.isSome_iff_exists.mp hsome
  have hmove : updatePositionOnFillWithConn db symbol fill.fillQty fill.fillPrice fill.side =
      some ({ db with positions := db.positions.upsert p }, p) := by
    rw [updatePositionOnFillWithConn, hp, Option.map_some]
  have hqty := (updatePositionOnFillWithConn_spec hmove).2.2.1
  rw [movePosition, hmove]
  exact hqty

/-- Everything but a snapshot of the symbol leaves the books in step, or out of it. -/
theorem inStep_of_not_writes (s : PositionSync) (a : SyncStep)
    (h : ¬WritesSnapshot symbol s a) : InStep symbol (syncStep symbol s a) ↔ InStep symbol s := by
  cases a with
  | execute fill => exact Iff.rfl
  | webhook =>
      simp only [syncStep]
      split
      · exact Iff.rfl
      · simp only [InStep, movePosition_positionQty, signedTotal_append]
        simp only [signedTotal, List.map_singleton, List.sum_singleton]
        omega
  | brokerRead i avg before after =>
      simp only [syncStep]
      split <;> exact Iff.rfl
  | dbRead i =>
      simp only [syncStep]
      split <;> exact Iff.rfl
  | write i =>
      simp only [syncStep]
      split
      · rename_i next rest hwriting
        have hother : symbol ≠ next.symbol := by
          intro hsymbol
          exact h ⟨next, rest, hwriting, hsymbol.symm⟩
        simp only [InStep, positionQty_upsertPositionSnapshot, if_neg hother]
      · exact Iff.rfl

/-- A snapshot of the symbol puts the books in step exactly when it carries the delivered sum. -/
theorem inStep_of_writes (s : PositionSync) (a : SyncStep) (h : WritesSnapshot symbol s a) :
    InStep symbol (syncStep symbol s a) ↔ CarriesDelivered s a := by
  cases a with
  | write i =>
      obtain ⟨next, rest, hwriting, hsymbol⟩ := h
      simp only [syncStep, hwriting, InStep, CarriesDelivered, positionQty_upsertPositionSnapshot,
        if_pos hsymbol.symm]
      constructor
      · intro hqty next' rest' heq
        cases heq
        exact hqty
      · intro hcarries
        exact hcarries next rest rfl
  | execute fill => exact h.elim
  | webhook => exact h.elim
  | brokerRead i avg before after => exact h.elim
  | dbRead i => exact h.elim

/-! ## Runs -/

/-- From a flat symbol, once everything has been delivered and written: the local quantity is
the broker's exactly when the last snapshot of the symbol, if one was written, carried the sum
of the fills delivered before it. -/
theorem positionsAgree_iff {db : Database} (hflat : db.positionQty symbol = 0)
    {steps : List SyncStep} (hdelivered : AllDelivered (run (syncStep symbol) (.start db) steps)) :
    PositionsAgree symbol (run (syncStep symbol) (.start db) steps) ↔
      LastStep (syncStep symbol) (WritesSnapshot symbol) CarriesDelivered (.start db) steps := by
  have hstart : InStep symbol (.start db) := hflat
  have hlast : InStep symbol (run (syncStep symbol) (.start db) steps) ↔ _ :=
    run_iff_lastStep inStep_of_not_writes inStep_of_writes (.start db) steps
  rw [and_iff_right (Or.inr hstart)] at hlast
  rw [← hlast, PositionsAgree, InStep, PositionSync.executed, hdelivered.1, List.append_nil]

end Sync

/-! ## A fill counted twice -/

def tenBought : PricedFill := ⟨10, 100, .buy, tenShares.qty_pos, by norm_num⟩

def samplePositivePrice : { q : ℚ // 0 < q } := ⟨100, by norm_num⟩

/-- One run of the reconciliation, from its read to its only snapshot. -/
def oneRun : List SyncStep := [.brokerRead 0 samplePositivePrice [] [], .dbRead 0, .write 0]

theorem positionsAgree_after_delivery : PositionsAgree "AAPL"
    (run (syncStep "AAPL") (.start .empty) ([.execute tenBought, .webhook] ++ oneRun)) := by
  have hdelivered : AllDelivered
      (run (syncStep "AAPL") (.start .empty) ([.execute tenBought, .webhook] ++ oneRun)) := by
    refine ⟨rfl, ?_⟩
    intro i
    cases i with
    | zero => rfl
    | succ i => rfl
  apply (positionsAgree_iff rfl hdelivered).mpr
  refine ⟨⟨⟨⟨⟨trivial, ?_⟩, False.elim⟩, False.elim⟩, False.elim⟩, False.elim⟩
  intro _
  right
  intro next rest hwriting
  have hnext : ReconcileRun.writing ⟨"AAPL", 10, 100, Or.inl samplePositivePrice.2⟩ [] =
      .writing next rest := hwriting
  cases hnext
  rfl

/-- The snapshot contains the fill already when its webhook arrives. -/
theorem snapshot_counts_fill_twice :
    let last := run (syncStep "AAPL") (.start .empty)
      ([.execute tenBought] ++ oneRun ++ [.webhook])
    AllDelivered last ∧ last.db.positionQty "AAPL" = 20 ∧ signedTotal last.executed = 10 ∧
      ¬PositionsAgree "AAPL" last := by
  have hqty : (run (syncStep "AAPL") (.start .empty)
      ([.execute tenBought] ++ oneRun ++ [.webhook])).db.positionQty "AAPL" = 20 := by
    decide +kernel
  refine ⟨⟨rfl, ?_⟩, hqty, by decide, ?_⟩
  · intro i
    cases i with
    | zero => rfl
    | succ i => rfl
  · rw [PositionsAgree, hqty]
    decide

end TradingPlatform.Gateway
