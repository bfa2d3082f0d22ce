import TradingPlatform.Risk.Breaker

/-! # Trips and resets are kept

Any interleaving of any number of clients. Transactions cannot overwrite each
other, since what a client read since it watched is what it replaces. A plain
SET can: it is harmless exactly while no transaction has executed, for the
payload it was computed from is then still the one that nobody acted on.
-/

namespace TradingPlatform.Risk

open Base

/-- The trip count that the key starts from. -/
def baseCount (start : Option StateData) : ℕ := start.elim 0 StateData.tripCountToday

/-- The key holds what the last transaction wrote, the count has every trip that executed, and
the breaker is tripped unless a reset was the last. -/
def TransactionsKept (start : Option StateData) (s : BreakerSystem) : Prop :=
  ∀ t, s.last = some t →
    s.key.value = some t.data ∧ t.data.tripCountToday = baseCount start + s.trips ∧
      ∀ data, t = .trip data → isTripped s.key.value = some true

/-- No SET of an initialisation or a migration comes after a transaction. -/
def InTime (s : BreakerSystem) (a : ℕ × BreakerEvent) : Prop :=
  match a.2 with
  | .command _ => ∀ data, s.clients a.1 = .willSet data → s.last = none
  | .call _ | .abandon => True

/-! ## What clients know -/

/-- The state from which alone a plain SET is computed: missing or legacy. -/
def Unset (start : Option StateData) : Prop := ∀ data, start = some data → data.state = .quietPeriod

def ClientSound (start : Option StateData) (key : WatchedCell StateData) : Client → Prop
  | .tripWatched _ _ version | .resetWatched _ version => version ≤ key.version
  | .tripRead _ _ version data => key.ReadSince version data
  | .resetRead _ version data => key.ReadSince version data ∧ data.state = .tripped
  | .willSet data => Unset start ∧ data.tripCountToday = baseCount start ∧ data.state = .openState
  | .idle | .trip _ _ | .reset _ | .initializeState | .migrateState => True

theorem clientSound_set {start : Option StateData} {key : WatchedCell StateData}
    {client : Client} (h : ClientSound start key client) (data : StateData) :
    ClientSound start (key.set data) client := by
  cases client with
  | tripWatched reason details version => exact Nat.le_succ_of_le h
  | resetWatched resetBy version => exact Nat.le_succ_of_le h
  | tripRead reason details version data' => exact h.set data
  | resetRead resetBy version data' => exact ⟨h.1.set data, h.2⟩
  | willSet data' => exact h
  | _ => trivial

structure Sound (start : Option StateData) (s : BreakerSystem) : Prop where
  clients : ∀ i, ClientSound start s.key (s.clients i)
  missing : s.key.value = none → start = none
  legacy : ∀ data, s.key.value = some data → data.state = .quietPeriod → Unset start
  count : s.last = none → ∀ data, s.key.value = some data → data.tripCountToday = baseCount start
  fresh : s.last = none → s.trips = 0
  notTripped : s.last = none → Unset start →
    ∀ data, s.key.value = some data → data.state ≠ .tripped
  counted : Unset start → s.last ≠ none → 0 < s.trips
  written : ∀ t, s.last = some t → t.data.state ≠ .quietPeriod

section Commands

variable {start : Option StateData} {s : BreakerSystem} {i : ℕ}

theorem sound_goto (h : Sound start s) {client : Client}
    (hclient : ClientSound start s.key client) : Sound start (s.goto i client) := by
  refine ⟨?_, h.missing, h.legacy, h.count, h.fresh, h.notTripped, h.counted, h.written⟩
  intro j
  simp only [BreakerSystem.goto]
  by_cases hj : j = i
  · rw [hj, Function.update_self]
    exact hclient
  · rw [Function.update_of_ne hj]
    exact h.clients j

/-- A payload that no transaction wrote has no trip of the run in its count. -/
theorem count_eq (h : Sound start s) (hkept : TransactionsKept start s) {data : StateData}
    (hvalue : s.key.value = some data) :
    data.tripCountToday = baseCount start + s.trips := by
  cases hlast : s.last with
  | none =>
      rw [h.fresh hlast]
      exact h.count hlast data hvalue
  | some t =>
      obtain ⟨hkey, hcount, -⟩ := hkept t hlast
      rw [hkey] at hvalue
      cases hvalue
      exact hcount

/-- A write leaves every client sound, also the ones that have read before it. -/
theorem clientSound_write (h : Sound start s) (data : StateData) (j : ℕ) :
    ClientSound start (s.key.set data) (Function.update s.clients i .idle j) := by
  by_cases hj : j = i
  · rw [hj, Function.update_self]
    trivial
  · rw [Function.update_of_ne hj]
    exact clientSound_set (h.clients j) data

theorem sound_exec (h : Sound start s) {t : Transaction} {trips : ℕ}
    (hstate : t.data.state ≠ .quietPeriod) (hcounted : Unset start → 0 < trips) :
    Sound start (BreakerSystem.goto ⟨s.key.set t.data, s.clients, some t, trips⟩ i .idle) := by
  refine ⟨clientSound_write h t.data, ?_, ?_, ?_, ?_, ?_, fun hunset _ => hcounted hunset, ?_⟩
  · intro hvalue
    cases hvalue
  · intro data hvalue hquiet
    cases hvalue
    exact absurd hquiet hstate
  · intro hlast
    cases hlast
  · intro hlast
    cases hlast
  · intro hlast
    cases hlast
  · intro t' ht
    cases ht
    exact hstate

theorem sound_write (h : Sound start s) {data : StateData}
    (hunset : Unset start) (hcount : data.tripCountToday = baseCount start)
    (hstate : data.state = .openState) : Sound start (s.write i data) := by
  refine ⟨clientSound_write h data, ?_, ?_, ?_, h.fresh, ?_, h.counted, h.written⟩
  · intro hvalue
    cases hvalue
  · exact fun _ _ _ => hunset
  · intro _ data' hvalue
    cases hvalue
    exact hcount
  · intro _ _ data' hvalue
    cases hvalue
    rw [hstate]
    decide

/-! ## Commands -/

theorem tripGet_good (h : Sound start s) (hkept : TransactionsKept start s) {reason : String}
    {details : Option String} {version : ℕ} (hversion : version ≤ s.key.version) :
    Sound start (s.tripGet i reason details version) ∧
      TransactionsKept start (s.tripGet i reason details version) := by
  unfold BreakerSystem.tripGet
  split
  · exact ⟨sound_goto h trivial, hkept⟩
  · rename_i data hvalue
    refine ⟨sound_goto h ?_, hkept⟩
    split
    · trivial
    · exact WatchedCell.readSince_of_value hversion hvalue

theorem tripExec_good (h : Sound start s) (hkept : TransactionsKept start s) {reason : String}
    {details : Option String} {version : ℕ} {data : StateData}
    (hread : s.key.ReadSince version data) (now : Timestamp) :
    Sound start (s.tripExec i reason details version data now) ∧
      TransactionsKept start (s.tripExec i reason details version data now) := by
  unfold BreakerSystem.tripExec
  split
  · rename_i key hexec
    obtain ⟨hvalue, rfl⟩ := WatchedCell.exec_eq_some hexec hread
    constructor
    · refine sound_exec (t := .trip (data.trip reason details now)) h ?_
        (fun _ => Nat.succ_pos _)
      intro hquiet
      cases hquiet
    · intro t ht
      cases ht
      have hcount := count_eq h hkept hvalue
      refine ⟨rfl, ?_, fun _ _ => rfl⟩
      simp only [Transaction.data, StateData.trip, BreakerSystem.goto]
      omega
  · exact ⟨sound_goto h trivial, hkept⟩

theorem resetGet_good (h : Sound start s) (hkept : TransactionsKept start s) {resetBy : String}
    {version : ℕ} (hversion : version ≤ s.key.version) :
    Sound start (s.resetGet i resetBy version) ∧
      TransactionsKept start (s.resetGet i resetBy version) := by
  unfold BreakerSystem.resetGet
  split
  · exact ⟨sound_goto h trivial, hkept⟩
  · rename_i data hvalue
    refine ⟨sound_goto h ?_, hkept⟩
    split
    · rename_i htripped
      exact ⟨WatchedCell.readSince_of_value hversion hvalue, htripped⟩
    · trivial

theorem resetExec_good (h : Sound start s) (hkept : TransactionsKept start s)
    {resetBy : String} {version : ℕ} {data : StateData} (hread : s.key.ReadSince version data)
    (htripped : data.state = .tripped) (now : Timestamp) :
    Sound start (s.resetExec i resetBy version data now) ∧
      TransactionsKept start (s.resetExec i resetBy version data now) := by
  unfold BreakerSystem.resetExec
  split
  · rename_i key hexec
    obtain ⟨hvalue, rfl⟩ := WatchedCell.exec_eq_some hexec hread
    constructor
    · refine sound_exec (t := .reset (data.reset resetBy now)) h ?_ ?_
      · intro hquiet
        cases hquiet
      · intro hunset
        by_cases hlast : s.last = none
        · exact absurd htripped (h.notTripped hlast hunset data hvalue)
        · exact h.counted hunset hlast
    · intro t ht
      cases ht
      have hcount := count_eq h hkept hvalue
      refine ⟨rfl, hcount, ?_⟩
      intro _ hreset
      cases hreset
  · exact ⟨sound_goto h trivial, hkept⟩

theorem initializeGet_good (h : Sound start s) (hkept : TransactionsKept start s) :
    Sound start (s.initializeGet i) ∧ TransactionsKept start (s.initializeGet i) := by
  unfold BreakerSystem.initializeGet
  split
  · rename_i hvalue
    have hstart := h.missing hvalue
    refine ⟨sound_goto h ⟨?_, ?_, rfl⟩, hkept⟩
    · intro data hdata
      rw [hstart] at hdata
      cases hdata
    · rw [hstart]
      rfl
  · exact ⟨sound_goto h trivial, hkept⟩

theorem migrateGet_good (h : Sound start s) (hkept : TransactionsKept start s) :
    Sound start (s.migrateGet i) ∧ TransactionsKept start (s.migrateGet i) := by
  unfold BreakerSystem.migrateGet
  split
  · exact ⟨sound_goto h trivial, hkept⟩
  · rename_i data hvalue
    refine ⟨sound_goto h ?_, hkept⟩
    split
    · rename_i hquiet
      refine ⟨h.legacy data hvalue hquiet, ?_, rfl⟩
      cases hlast : s.last with
      | none => exact h.count hlast data hvalue
      | some t =>
          obtain ⟨hkey, -, -⟩ := hkept t hlast
          rw [hkey] at hvalue
          cases hvalue
          exact absurd hquiet (h.written t hlast)
    · trivial

/-- A SET keeps the transactions exactly while there are none: what it was computed from lacks
the trip that has been counted since. -/
theorem kept_write_iff (h : Sound start s) {data : StateData} (hunset : Unset start)
    (hcount : data.tripCountToday = baseCount start) :
    TransactionsKept start (s.write i data) ↔ s.last = none := by
  constructor
  · intro hkept
    cases hlast : s.last with
    | none => rfl
    | some t =>
        obtain ⟨hkey, htrips, -⟩ := hkept t hlast
        have hpos := h.counted hunset (by simp [hlast])
        have hdata : data = t.data := Option.some.inj hkey
        simp only [BreakerSystem.write, BreakerSystem.goto] at htrips
        rw [← hdata, hcount] at htrips
        omega
  · intro hlast t ht
    simp only [BreakerSystem.write, BreakerSystem.goto] at ht
    rw [hlast] at ht
    cases ht

end Commands

/-! ## Steps and runs -/

/-- Every event other than a SET is sound and keeps the transactions. -/
theorem breakerStep_good {start : Option StateData} {s : BreakerSystem} {a : ℕ × BreakerEvent}
    (h : Sound start s) (hkept : TransactionsKept start s)
    (hset : ∀ now data, a.2 = .command now → s.clients a.1 ≠ .willSet data) :
    Sound start (breakerStep s a) ∧ TransactionsKept start (breakerStep s a) := by
  obtain ⟨i, event⟩ := a
  cases event with
  | call call =>
      have henter : ClientSound start s.key call.enter := by
        cases call <;> trivial
      simp only [breakerStep]
      split
      · exact ⟨sound_goto h henter, hkept⟩
      · exact ⟨h, hkept⟩
  | abandon => exact ⟨sound_goto h trivial, hkept⟩
  | command now =>
      have hclient := h.clients i
      simp only [breakerStep, BreakerSystem.command]
      cases hc : s.clients i with
      | idle => exact ⟨h, hkept⟩
      | trip reason details => exact ⟨sound_goto h (Nat.le_refl _), hkept⟩
      | tripWatched reason details version =>
          rw [hc] at hclient
          exact tripGet_good h hkept hclient
      | tripRead reason details version data =>
          rw [hc] at hclient
          exact tripExec_good h hkept hclient now
      | reset resetBy => exact ⟨sound_goto h (Nat.le_refl _), hkept⟩
      | resetWatched resetBy version =>
          rw [hc] at hclient
          exact resetGet_good h hkept hclient
      | resetRead resetBy version data =>
          rw [hc] at hclient
          exact resetExec_good h hkept hclient.1 hclient.2 now
      | initializeState => exact initializeGet_good h hkept
      | migrateState => exact migrateGet_good h hkept
      | willSet data => exact absurd hc (hset now data rfl)

theorem transactionsKept_step_iff {start : Option StateData} {s : BreakerSystem}
    {a : ℕ × BreakerEvent} (h : Sound start s) (hkept : TransactionsKept start s) :
    TransactionsKept start (breakerStep s a) ↔ InTime s a := by
  obtain ⟨i, event⟩ := a
  cases event with
  | call call => exact iff_of_true (breakerStep_good h hkept (by simp)).2 trivial
  | abandon => exact iff_of_true (breakerStep_good h hkept (by simp)).2 trivial
  | command now =>
      by_cases hset : ∃ data, s.clients i = .willSet data
      · obtain ⟨data, hc⟩ := hset
        have hclient := h.clients i
        rw [hc] at hclient
        have hwrite := kept_write_iff (i := i) h hclient.1 hclient.2.1
        simp only [breakerStep, BreakerSystem.command, InTime, hc]
        rw [hwrite]
        exact ⟨fun hlast _ _ => hlast, fun hlast => hlast data rfl⟩
      · refine iff_of_true (breakerStep_good h hkept ?_).2 ?_
        · intro _ data _ hc
          exact hset ⟨data, hc⟩
        · intro data hc
          exact absurd ⟨data, hc⟩ hset

/-- While the transactions are kept, soundness is. -/
theorem sound_step {start : Option StateData} {s : BreakerSystem} {a : ℕ × BreakerEvent}
    (h : Sound start s) (hkept : TransactionsKept start s) : Sound start (breakerStep s a) := by
  obtain ⟨i, event⟩ := a
  cases event with
  | call call => exact (breakerStep_good h hkept (by simp)).1
  | abandon => exact (breakerStep_good h hkept (by simp)).1
  | command now =>
      by_cases hset : ∃ data, s.clients i = .willSet data
      · obtain ⟨data, hc⟩ := hset
        have hclient := h.clients i
        rw [hc] at hclient
        simp only [breakerStep, BreakerSystem.command, hc]
        exact sound_write h hclient.1 hclient.2.1 hclient.2.2
      · refine (breakerStep_good h hkept ?_).1
        intro _ data _ hc
        exact hset ⟨data, hc⟩

theorem sound_quiescent (start : Option StateData) : Sound start (quiescent start) := by
  refine ⟨fun _ => trivial, fun hvalue => hvalue, ?_, ?_, fun _ => rfl, ?_, ?_, ?_⟩
  · intro data hvalue hquiet data' hstart
    have hsame : some data = some data' := hvalue.symm.trans hstart
    rw [← Option.some.inj hsame]
    exact hquiet
  · intro _ data hvalue
    have hstart : start = some data := hvalue
    rw [hstart]
    rfl
  · intro _ hunset data hvalue
    rw [hunset data hvalue]
    decide
  · intro _ hlast
    exact absurd rfl hlast
  · intro t ht
    cases ht

theorem transactions_kept_iff (start : Option StateData) (events : List (ℕ × BreakerEvent)) :
    EveryState breakerStep (TransactionsKept start) (quiescent start) events ↔
      EachStep breakerStep InTime (quiescent start) events := by
  have hfree : EachStep breakerStep (fun _ _ => True) (quiescent start) events :=
    eachStep_of_forall (by simp) _
  refine everyState_iff_eachStep (fun _ _ h _ hkept => sound_step h hkept)
    (fun _ _ h _ hkept => transactionsKept_step_iff h hkept) (sound_quiescent start) hfree ?_
  intro t ht
  cases ht

/-- A payload of the deprecated state, without a trip. -/
def legacyState : StateData := { defaultState with state := .quietPeriod }

/-- A migration reads before and writes after the trip of another client. -/
def overtakenTrip : List (ℕ × BreakerEvent) :=
  [(1, .call .migrateState), (1, .command 1), (0, .call (.trip "MAX_DRAWDOWN" none)),
    (0, .command 2), (0, .command 3), (0, .command 4), (1, .command 5)]

theorem migration_reopens_tripped_breaker :
    (run breakerStep (quiescent (some legacyState)) overtakenTrip).last =
        some (.trip (legacyState.trip "MAX_DRAWDOWN" none 4)) ∧
      isTripped (run breakerStep (quiescent (some legacyState)) overtakenTrip).key.value =
        some false ∧
      ¬EveryState breakerStep (TransactionsKept (some legacyState))
        (quiescent (some legacyState)) overtakenTrip := by
  have hlast : (run breakerStep (quiescent (some legacyState)) overtakenTrip).last =
      some (.trip (legacyState.trip "MAX_DRAWDOWN" none 4)) := by
    decide +kernel
  have hopen : isTripped
      (run breakerStep (quiescent (some legacyState)) overtakenTrip).key.value = some false := by
    decide +kernel
  refine ⟨hlast, hopen, ?_⟩
  intro hkept
  have htripped := (hkept.last _ hlast).2.2 _ rfl
  rw [hopen] at htripped
  cases htripped

end TradingPlatform.Risk
