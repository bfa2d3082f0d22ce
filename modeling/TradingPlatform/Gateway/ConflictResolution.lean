import TradingPlatform.Base.Register
import TradingPlatform.Gateway.OrderWrites
import Mathlib.Data.Finset.Defs
import Mathlib.Data.Prod.Lex

/-! # Conflict resolution on one order

Runs of the conflict-resolving update on a row. The lock section says which runs
keep a terminal order terminal. The convergence section shows that the row is a
last-writer-wins register over the lexicographic order of timestamp, rank,
quantity and inverted priority, so that the delivery order does not matter.
-/

namespace TradingPlatform.Gateway

open Base

/-- One call of the update: its arguments and the server clock. -/
abbrev CasCall := CasUpdate × Timestamp

def casStep (r : OrderRow) (c : CasCall) : OrderRow := casUpdate r c.1 c.2

/-! ## The terminal lock -/

/-- The order is terminal in both columns. -/
def Locked (r : OrderRow) : Prop := r.isTerminal = true ∧ r.status.terminal = true

instance (r : OrderRow) : Decidable (Locked r) :=
  inferInstanceAs (Decidable (r.isTerminal = true ∧ r.status.terminal = true))

/-- A call that the guard lets through carries a terminal status. -/
def WinsTerminal (r : OrderRow) (c : CasCall) : Prop :=
  casAccepts r c.1.key = true → c.1.status.terminal = true

/-- A call that the guard lets through carries the status `filled`. -/
def WinsFilled (r : OrderRow) (c : CasCall) : Prop :=
  casAccepts r c.1.key = true → c.1.status = .filled

/-- A change to a filled row is a correction: the row stays filled and terminal. -/
def FilledOnlyCorrected (r : OrderRow) (c : CasCall) : Prop :=
  r.status = .filled → (casStep r c).status = .filled ∧ Locked (casStep r c)

/-- Only a filled row lets a call through its lock. -/
theorem filled_of_accepts {r : OrderRow} {k : CasKey} (hlock : Locked r)
    (h : casAccepts r k = true) : r.status = .filled := by
  have hunlocked := ((casAccepts_iff r k).mp h).1
  simpa [casUnlocked, hlock.1] using hunlocked

theorem locked_casStep_iff {r : OrderRow} {c : CasCall} (hlock : Locked r) :
    Locked (casStep r c) ↔ WinsTerminal r c := by
  unfold casStep WinsTerminal
  by_cases h : casAccepts r c.1.key = true
  · rw [casUpdate_of_accepts h]
    simp [Locked, casApply, h]
  · rw [casUpdate_of_not_accepts h]
    exact iff_of_true hlock fun hc => absurd hc h

theorem filledOnlyCorrected_iff {r : OrderRow} {c : CasCall} (hlock : Locked r) :
    FilledOnlyCorrected r c ↔ WinsFilled r c := by
  unfold FilledOnlyCorrected WinsFilled
  constructor
  · intro h hc
    have hstatus := (h (filled_of_accepts hlock hc)).1
    rwa [casStep, casUpdate_of_accepts hc] at hstatus
  · intro h hfilled
    by_cases hc : casAccepts r c.1.key = true
    · rw [casStep, casUpdate_of_accepts hc]
      simp [Locked, casApply, h hc, OrderStatus.terminal, terminalStatuses]
    · rw [casStep, casUpdate_of_not_accepts hc]
      exact ⟨hfilled, hlock⟩

theorem WinsFilled.winsTerminal {r : OrderRow} {c : CasCall} (h : WinsFilled r c) :
    WinsTerminal r c := by
  intro hc
  rw [h hc]
  rfl

/-- Which runs keep a terminal order locked: exactly those in which no call that gets past
the guard carries an active status. Filled rows moreover see nothing but corrections exactly
when every such call carries `filled` again. -/
theorem terminal_lock_iff (r : OrderRow) (calls : List CasCall) (hlock : Locked r) :
    (EveryState casStep Locked r calls ↔ EachStep casStep WinsTerminal r calls) ∧
      (EveryState casStep Locked r calls ∧ EachStep casStep FilledOnlyCorrected r calls ↔
        EachStep casStep WinsFilled r calls) := by
  have hlocked : ∀ {s : OrderRow} {cs : List CasCall}, Locked s →
      (EveryState casStep Locked s cs ↔ EachStep casStep WinsTerminal s cs) := fun {s cs} hs =>
    everyState_iff_eachStep' (G := fun _ => True) (fun _ _ _ => trivial)
      (fun _ _ _ hp => locked_casStep_iff hp) cs trivial hs
  refine ⟨hlocked hlock, ?_⟩
  induction calls generalizing r with
  | nil => exact iff_of_true ⟨hlock, trivial⟩ trivial
  | cons c calls ih =>
      simp only [everyState_cons, eachStep_cons, filledOnlyCorrected_iff hlock]
      constructor
      · rintro ⟨⟨-, hlocks⟩, hwins, hcorrections⟩
        exact ⟨hwins, (ih _ hlocks.head).mp ⟨hlocks, hcorrections⟩⟩
      · rintro ⟨hwins, hrest⟩
        have hnext := (locked_casStep_iff hlock).mpr hwins.winsTerminal
        obtain ⟨hlocks, hcorrections⟩ := (ih _ hnext).mpr hrest
        exact ⟨⟨hlock, hlocks⟩, hwins, hcorrections⟩

/-- A filled order, last updated at instant 5. -/
def filledRow : OrderRow :=
  { OrderRow.defaults tenShares "o-1" "alpha" .filled 0 with
    filledQty := 10
    lastUpdatedAt := some 5
    statusRank := some 5
    sourcePriority := 3
    isTerminal := true }

/-- A `new` event of the same order that the broker stamps one instant later. -/
def lateNewEvent : CasCall :=
  (⟨.new, 6, statusRankFor .new, sourcePriorityWebhook, some 10, none, none, none, none, none⟩, 7)

theorem terminal_lock_iff_filledRow :
    EveryState casStep Locked filledRow [lateNewEvent] ↔
      EachStep casStep WinsTerminal filledRow [lateNewEvent] :=
  (terminal_lock_iff filledRow [lateNewEvent] (by decide)).1

/-- A filled order goes back to an active status. -/
theorem filled_order_reopens : Locked filledRow ∧
    (run casStep filledRow [lateNewEvent]).status = .new ∧
    (run casStep filledRow [lateNewEvent]).isTerminal = false ∧
    ¬ EveryState casStep Locked filledRow [lateNewEvent] := by
  decide

/-! ## Convergence -/

/-- The order on updates that the guard compares in: timestamp, rank, quantity, and a lower
source priority last. -/
def CasUpdate.precedence (u : CasUpdate) : Timestamp ×ₗ ℤ ×ₗ ℚ ×ₗ ℤ :=
  toLex (u.brokerUpdatedAt, toLex (u.statusRank, toLex (u.newFilledQty.toRat, -u.sourcePriority)))

/-- The row displays an update in the columns that conflict resolution governs. -/
structure Shows (r : OrderRow) (u : CasUpdate) : Prop where
  status : r.status = u.status
  statusRank : r.statusRank = some u.statusRank
  lastUpdatedAt : r.lastUpdatedAt = some u.brokerUpdatedAt
  sourcePriority : r.sourcePriority = u.sourcePriority
  isTerminal : r.isTerminal = u.status.terminal
  filledQty : r.filledQty.toRat = u.newFilledQty.toRat

theorem precedence_lt_iff (u v : CasUpdate) : u.precedence < v.precedence ↔
    u.brokerUpdatedAt < v.brokerUpdatedAt ∨ u.brokerUpdatedAt = v.brokerUpdatedAt ∧
      (u.statusRank < v.statusRank ∨ u.statusRank = v.statusRank ∧
        (u.newFilledQty.toRat < v.newFilledQty.toRat ∨
          u.newFilledQty.toRat = v.newFilledQty.toRat ∧ v.sourcePriority < u.sourcePriority)) := by
  simp only [CasUpdate.precedence, Prod.Lex.toLex_lt_toLex, neg_lt_neg_iff]

/-- Against a row that shows an update, the five disjuncts are the strict order. -/
theorem casNewer_iff {r : OrderRow} {c u : CasUpdate} (hshows : Shows r c) :
    casNewer r u.key = true ↔ c.precedence < u.precedence := by
  rw [precedence_lt_iff]
  simp only [casNewer, hshows.lastUpdatedAt, hshows.statusRank, Bool.or_eq_true,
    Bool.and_eq_true, decide_eq_true_eq]
  simp only [CasUpdate.key, hshows.sourcePriority, hshows.filledQty, Decimal.lt_iff,
    Decimal.sameValue_iff]

theorem casApply_shows {r : OrderRow} {u : CasUpdate} (hle : r.filledQty ≤ u.newFilledQty)
    (now : Timestamp) : Shows (casApply r u now) u := by
  refine ⟨rfl, rfl, rfl, rfl, rfl, ?_⟩
  rw [casApply, Decimal.toRat_greatest]
  exact max_eq_right ((Decimal.le_iff _ _).mp hle)

section Convergence

variable {fresh : OrderRow} {updates : Finset CasUpdate} {top : CasUpdate}

/-- What the row displays is what a last-writer-wins register holds. -/
def Tracks (fresh : OrderRow) (updates : Finset CasUpdate) (r : OrderRow) :
    Option CasUpdate → Prop
  | none => r = fresh
  | some c => Shows r c ∧ c ∈ updates

theorem tracks_casStep
    (hfresh : fresh.isTerminal = false ∧ fresh.lastUpdatedAt = none)
    (hinitial : ∀ u ∈ updates, fresh.filledQty ≤ u.newFilledQty)
    (hmono : ∀ u ∈ updates, ∀ v ∈ updates, u.precedence ≤ v.precedence →
      u.newFilledQty ≤ v.newFilledQty)
    (htop : ∀ u ∈ updates, u.precedence ≤ top.precedence)
    (hterminal : ∀ u ∈ updates, u.status.terminal = true → u = top)
    {r : OrderRow} {cur : Option CasUpdate} {call : CasCall} (hcall : call.1 ∈ updates)
    (h : Tracks fresh updates r cur) :
    Tracks fresh updates (casStep r call) (keepGreater CasUpdate.precedence cur call.1) := by
  obtain ⟨u, now⟩ := call
  cases cur with
  | none =>
      obtain rfl : r = fresh := h
      have haccepts : casAccepts r u.key = true := by
        simp [casAccepts, casUnlocked, casNewer, hfresh.1, hfresh.2]
      rw [casStep, casUpdate_of_accepts haccepts]
      exact ⟨casApply_shows (hinitial u hcall) now, hcall⟩
  | some c =>
      obtain ⟨hshows, hc⟩ := h
      by_cases hlt : c.precedence < u.precedence
      · have hactive : c.status.terminal = false := by
          by_contra hcontra
          obtain rfl := hterminal c hc (by simpa using hcontra)
          exact absurd hlt (not_lt.mpr (htop u hcall))
        have haccepts : casAccepts r u.key = true := by
          rw [casAccepts_iff, casNewer_iff hshows]
          exact ⟨by simp [casUnlocked, hshows.isTerminal, hactive], hlt⟩
        have hle : r.filledQty ≤ u.newFilledQty := by
          rw [Decimal.le_iff, hshows.filledQty, ← Decimal.le_iff]
          exact hmono c hc u hcall hlt.le
        rw [casStep, casUpdate_of_accepts haccepts, keepGreater, if_pos hlt]
        exact ⟨casApply_shows hle now, hcall⟩
      · have hrejects : ¬ casAccepts r u.key = true := by
          rw [casAccepts_iff, casNewer_iff hshows]
          exact fun hboth => hlt hboth.2
        rw [casStep, casUpdate_of_not_accepts hrejects, keepGreater, if_neg hlt]
        exact ⟨hshows, hc⟩

/-- Convergence. Deliver a finite set of updates with pairwise distinct keys to a fresh
active row, in any order and with any repetition. If the filled quantity grows along the key
order from the row's own and at most the greatest update is terminal, the row ends up showing
the greatest update. -/
theorem cas_converges (fresh : OrderRow) (updates : Finset CasUpdate) (top : CasUpdate)
    (calls : List CasCall)
    (hfresh : fresh.isTerminal = false ∧ fresh.status.terminal = false ∧
      fresh.lastUpdatedAt = none)
    (hdistinct : ∀ u ∈ updates, ∀ v ∈ updates, u.precedence = v.precedence → u = v)
    (hinitial : ∀ u ∈ updates, fresh.filledQty ≤ u.newFilledQty)
    (hmono : ∀ u ∈ updates, ∀ v ∈ updates, u.precedence ≤ v.precedence →
      u.newFilledQty ≤ v.newFilledQty)
    (htop : top ∈ updates ∧ ∀ u ∈ updates, u.precedence ≤ top.precedence)
    (hterminal : ∀ u ∈ updates, u.status.terminal = true → u = top)
    (hdelivered : ∀ u, u ∈ updates ↔ u ∈ calls.map Prod.fst) :
    Shows (run casStep fresh calls) top := by
  have hsim : Tracks fresh updates (run casStep fresh calls)
      (run (fun cur call => keepGreater CasUpdate.precedence cur call.1) none calls) := by
    have hstart : Tracks fresh updates fresh none := rfl
    refine run_simulates ?_ hstart
    intro r cur call hmem h
    have hcall : call.1 ∈ updates := (hdelivered _).mpr (List.mem_map_of_mem hmem)
    exact tracks_casStep ⟨hfresh.1, hfresh.2.2⟩ hinitial hmono htop.2 hterminal hcall h
  have hreg : run (fun cur call => keepGreater CasUpdate.precedence cur call.1) none calls =
      some top := by
    have hmap := run_map (f := (Prod.fst : CasCall → CasUpdate)) (keepGreater CasUpdate.precedence)
      none calls
    rw [← hmap]
    apply run_keepGreater ((hdelivered top).mp htop.1)
    · exact fun u hu => htop.2 u ((hdelivered u).mpr hu)
    · exact fun u hu => hdistinct u ((hdelivered u).mpr hu) top htop.1
  rw [hreg] at hsim
  exact hsim.1

/-- A partial fill reported twice for one instant, and the fill that completes the order. -/
def partialFillEvent (sourcePriority : Int) : CasUpdate :=
  ⟨.partiallyFilled, 5, 3, sourcePriority, some 4, none, none, none, none, none⟩

def fillEvent : CasUpdate :=
  ⟨.filled, 9, 5, sourcePriorityWebhook, some 10, none, none, none, none, none⟩

/-- The webhook and reconciliation race, late partial fills after the terminal one. -/
theorem cas_converges_race :
    Shows (run casStep (OrderRow.defaults tenShares "o-1" "alpha"
      .pendingNew 0) [(partialFillEvent sourcePriorityWebhook, 10), (fillEvent, 11),
        (partialFillEvent sourcePriorityReconciliation, 12), (fillEvent, 13)]) fillEvent :=
  cas_converges _ {partialFillEvent sourcePriorityWebhook,
      partialFillEvent sourcePriorityReconciliation, fillEvent} _ _
    (by decide) (by decide +kernel) (by decide +kernel) (by decide +kernel) (by decide +kernel)
    (by decide +kernel) (by simp; tauto)

end Convergence

end TradingPlatform.Gateway
