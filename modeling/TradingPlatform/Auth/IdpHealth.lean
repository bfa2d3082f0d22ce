import TradingPlatform.Base.Run
import Mathlib.Data.List.Induction
import Mathlib.Tactic.Common

/-! # Health checks of the identity provider

A checker counts failures and successes in a row. It turns the fallback mode on after so many
failures, and off when it has seen so many successes and a stable period since.
-/

namespace TradingPlatform.Auth

open Base

structure IdpHealthConfig where
  auth0Domain : String
  failureThreshold : ℕ
  successThreshold : ℕ
  stablePeriod : ℤ

/-- What the request for the OpenID configuration comes to. -/
inductive IdpResponse where
  | timeout
  | httpStatus (code : ℕ)
  | requestError
  | invalidJson
  | document (fields : List (String × String))
  deriving DecidableEq, Repr

def requiredFields : List String :=
  ["issuer", "authorization_endpoint", "token_endpoint", "jwks_uri", "userinfo_endpoint"]

/-- No `httpx` error and no `ValueError` is raised. -/
def IdpResponse.healthy (config : IdpHealthConfig) : IdpResponse → Bool
  | .document fields =>
      requiredFields.all (fun name => (fields.lookup name).isSome) &&
        fields.lookup "issuer" == some ("https://" ++ config.auth0Domain ++ "/")
  | _ => false

structure IdpCheck where
  response : IdpResponse
  checkedAt : ℤ
  deriving DecidableEq, Repr

structure IdpHealthStatus where
  healthy : Bool
  checkedAt : ℤ
  consecutiveFailures : ℕ
  consecutiveSuccesses : ℕ
  fallbackMode : Bool
  deriving DecidableEq, Repr

structure IdpHealthChecker where
  lastStatus : Option IdpHealthStatus
  consecutiveFailures : ℕ
  consecutiveSuccesses : ℕ
  fallbackMode : Bool
  stabilityStart : Option ℤ
  deriving DecidableEq, Repr

def IdpHealthChecker.new : IdpHealthChecker := ⟨none, 0, 0, false, none⟩

/-- The exit of the fallback mode, when the successes have been counted. -/
def IdpHealthChecker.exitFallback (config : IdpHealthConfig) (s : IdpHealthChecker) (now : ℤ) :
    IdpHealthChecker :=
  if s.fallbackMode then
    if config.successThreshold ≤ s.consecutiveSuccesses then
      match s.stabilityStart with
      | none => { s with stabilityStart := some now }
      | some start =>
          if config.stablePeriod ≤ now - start then
            { s with fallbackMode := false, stabilityStart := none }
          else s
    else { s with stabilityStart := none }
  else s

def IdpHealthChecker.succeed (config : IdpHealthConfig) (s : IdpHealthChecker) (now : ℤ) :
    IdpHealthChecker :=
  { s with
    consecutiveFailures := 0
    consecutiveSuccesses := s.consecutiveSuccesses + 1 }.exitFallback config now

def IdpHealthChecker.fail (config : IdpHealthConfig) (s : IdpHealthChecker) : IdpHealthChecker :=
  { s with
    consecutiveFailures := s.consecutiveFailures + 1
    consecutiveSuccesses := 0
    stabilityStart := none
    fallbackMode :=
      s.fallbackMode || decide (config.failureThreshold ≤ s.consecutiveFailures + 1) }

/-- `check_health` stores the status that it returns. -/
def checkHealth (config : IdpHealthConfig) (s : IdpHealthChecker) (check : IdpCheck) :
    IdpHealthChecker :=
  let healthy := check.response.healthy config
  let s := if healthy then s.succeed config check.checkedAt else s.fail config
  { s with
    lastStatus := some
      { healthy := healthy
        checkedAt := check.checkedAt
        consecutiveFailures := s.consecutiveFailures
        consecutiveSuccesses := s.consecutiveSuccesses
        fallbackMode := s.fallbackMode } }

/-! ## What a change of the mode takes -/

variable {config : IdpHealthConfig} {past : List IdpCheck} {check : IdpCheck}

def IdpCheck.Healthy (config : IdpHealthConfig) (check : IdpCheck) : Prop :=
  check.response.healthy config = true

/-- The checker after the checks. -/
def checked (config : IdpHealthConfig) (checks : List IdpCheck) : IdpHealthChecker :=
  run (checkHealth config) .new checks

/-- The mode stayed as it is from one check to another. -/
def StaysIn (config : IdpHealthConfig) (mode : Bool) (front recent : List IdpCheck) : Prop :=
  EveryState (checkHealth config) (fun s => s.fallbackMode = mode) (checked config front) recent

/-- The last checks, all made in one mode. -/
def Streak (config : IdpHealthConfig) (mode : Bool) (past recent : List IdpCheck) : Prop :=
  ∃ front, past = front ++ recent ∧ StaysIn config mode front recent

/-- The check fails, and is the last of so many in a row. -/
def CompletesFailures (config : IdpHealthConfig) (recent : List IdpCheck) (check : IdpCheck) :
    Prop :=
  ¬check.Healthy config ∧ recent.length + 1 = config.failureThreshold ∧
    ∀ d ∈ recent, ¬d.Healthy config

/-- The check succeeds, and so did those up to the one that reached the threshold, at least a stable
period ago, and all since. -/
def CompletesRecovery (config : IdpHealthConfig) (recent : List IdpCheck) (check : IdpCheck) :
    Prop :=
  check.Healthy config ∧ (∀ d ∈ recent, d.Healthy config) ∧
    ∃ first reached later, recent = first ++ reached :: later ∧
      first.length + 1 = config.successThreshold ∧
        reached.checkedAt + config.stablePeriod ≤ check.checkedAt

def TurnsOn (config : IdpHealthConfig) (past : List IdpCheck) (check : IdpCheck) : Prop :=
  (checked config past).fallbackMode = false ∧
    (checked config (past ++ [check])).fallbackMode = true

def TurnsOff (config : IdpHealthConfig) (past : List IdpCheck) (check : IdpCheck) : Prop :=
  (checked config past).fallbackMode = true ∧
    (checked config (past ++ [check])).fallbackMode = false

/-! ## The invariant -/

/-- The stability timer started at the check that reached the threshold. -/
def Timed (config : IdpHealthConfig) (recent : List IdpCheck) : Option ℤ → Prop
  | none => recent.length < config.successThreshold
  | some start => ∃ first reached later, recent = first ++ reached :: later ∧
      first.length + 1 = config.successThreshold ∧ reached.checkedAt = start

/-- What the counters and the timer of a checker say of its checks. -/
structure Counted (config : IdpHealthConfig) (past : List IdpCheck) (s : IdpHealthChecker) :
    Prop where
  normal : s.fallbackMode = false → s.stabilityStart = none ∧
    s.consecutiveFailures < config.failureThreshold ∧ ∃ recent, Streak config false past recent ∧
      recent.length = s.consecutiveFailures ∧ ∀ d ∈ recent, ¬d.Healthy config
  fallback : s.fallbackMode = true → ∃ recent, Streak config true past recent ∧
    recent.length = s.consecutiveSuccesses ∧ (∀ d ∈ recent, d.Healthy config) ∧
      Timed config recent s.stabilityStart

theorem checked_concat (config : IdpHealthConfig) (past : List IdpCheck) (check : IdpCheck) :
    checked config (past ++ [check]) = checkHealth config (checked config past) check := by
  simp [checked, run_append]

theorem Streak.nil {mode : Bool} (h : (checked config past).fallbackMode = mode) :
    Streak config mode past [] := ⟨past, by simp, h⟩

theorem Streak.concat {mode : Bool} {recent : List IdpCheck} (h : Streak config mode past recent)
    (hmode : (checked config (past ++ [check])).fallbackMode = mode) :
    Streak config mode (past ++ [check]) (recent ++ [check]) := by
  obtain ⟨front, rfl, hstays⟩ := h
  refine ⟨front, by simp, ?_⟩
  have hlast : (run (checkHealth config) (checked config front) recent).fallbackMode = mode :=
    EveryState.last hstays
  simp only [checked, run_append] at hmode hlast
  rw [StaysIn, everyState_append]
  exact ⟨hstays, hlast, hmode⟩

theorem Streak.mode {mode : Bool} {recent : List IdpCheck} (h : Streak config mode past recent) :
    (checked config past).fallbackMode = mode := by
  obtain ⟨front, rfl, hstays⟩ := h
  have hlast := EveryState.last hstays
  rwa [checked, ← run_append] at hlast

theorem checkHealth_of_not_healthy (h : ¬check.Healthy config) (s : IdpHealthChecker) :
    (checkHealth config s check).consecutiveFailures = s.consecutiveFailures + 1 ∧
      (checkHealth config s check).consecutiveSuccesses = 0 ∧
        (checkHealth config s check).stabilityStart = none ∧
          (checkHealth config s check).fallbackMode =
            (s.fallbackMode || decide (config.failureThreshold ≤ s.consecutiveFailures + 1)) := by
  have hunhealthy : check.response.healthy config = false := by
    simpa [IdpCheck.Healthy] using h
  simp [checkHealth, hunhealthy, IdpHealthChecker.fail]

/-- A success in normal mode. -/
theorem checkHealth_of_normal (h : check.Healthy config) {s : IdpHealthChecker}
    (hmode : s.fallbackMode = false) :
    (checkHealth config s check).consecutiveFailures = 0 ∧
      (checkHealth config s check).stabilityStart = s.stabilityStart ∧
        (checkHealth config s check).fallbackMode = false := by
  rw [IdpCheck.Healthy] at h
  simp [checkHealth, h, IdpHealthChecker.succeed, IdpHealthChecker.exitFallback, hmode]

/-- A success in fallback mode, in the four cases of the exit. -/
theorem checkHealth_of_fallback (h : check.Healthy config) {s : IdpHealthChecker}
    (hmode : s.fallbackMode = true) :
    (checkHealth config s check).consecutiveFailures = 0 ∧
      (checkHealth config s check).consecutiveSuccesses = s.consecutiveSuccesses + 1 ∧
        if s.consecutiveSuccesses + 1 < config.successThreshold then
          (checkHealth config s check).stabilityStart = none ∧
            (checkHealth config s check).fallbackMode = true
        else
          match s.stabilityStart with
          | none => (checkHealth config s check).stabilityStart = some check.checkedAt ∧
              (checkHealth config s check).fallbackMode = true
          | some start =>
              if config.stablePeriod ≤ check.checkedAt - start then
                (checkHealth config s check).stabilityStart = none ∧
                  (checkHealth config s check).fallbackMode = false
              else (checkHealth config s check).stabilityStart = some start ∧
                (checkHealth config s check).fallbackMode = true := by
  rw [IdpCheck.Healthy] at h
  have hstep : checkHealth config s check =
      { s.succeed config check.checkedAt with
        lastStatus := (checkHealth config s check).lastStatus } := by
    simp [checkHealth, h]
  rw [hstep]
  simp only [IdpHealthChecker.succeed, IdpHealthChecker.exitFallback, hmode, if_true]
  by_cases hthreshold : config.successThreshold ≤ s.consecutiveSuccesses + 1
  · have hlt : ¬s.consecutiveSuccesses + 1 < config.successThreshold := by omega
    rw [if_pos hthreshold, if_neg hlt]
    cases hstart : s.stabilityStart with
    | none => simp
    | some start =>
        by_cases hperiod : config.stablePeriod ≤ check.checkedAt - start <;> simp [hperiod]
  · have hlt : s.consecutiveSuccesses + 1 < config.successThreshold := by omega
    rw [if_neg hthreshold, if_pos hlt]
    simp

theorem Timed.concat {recent : List IdpCheck} {start : ℤ} (h : Timed config recent (some start)) :
    Timed config (recent ++ [check]) (some start) := by
  obtain ⟨first, reached, later, rfl, hlength, hstart⟩ := h
  exact ⟨first, reached, later ++ [check], by simp, hlength, hstart⟩

/-- A streak of successes that reaches the threshold starts the timer. -/
theorem Timed.reach {recent : List IdpCheck} (h : Timed config recent none)
    (hreached : config.successThreshold ≤ recent.length + 1) :
    Timed config (recent ++ [check]) (some check.checkedAt) := by
  simp only [Timed] at h
  exact ⟨recent, check, [], rfl, by omega, rfl⟩

theorem forall_mem_concat {P : IdpCheck → Prop} {recent : List IdpCheck}
    (hrecent : ∀ d ∈ recent, P d) (hcheck : P check) : ∀ d ∈ recent ++ [check], P d := by
  intro d hd
  rcases List.mem_append.mp hd with hold | hnew
  · exact hrecent d hold
  · rw [List.mem_singleton.mp hnew]
    exact hcheck

theorem Counted.of_normal (hfailures : 1 ≤ config.failureThreshold) {s : IdpHealthChecker}
    (hs : s = checked config past) (hmode : s.fallbackMode = false)
    (hstart : s.stabilityStart = none) (hcount : s.consecutiveFailures = 0) :
    Counted config past s where
  normal := fun _ => ⟨hstart, by omega, [], Streak.nil (hs ▸ hmode), by simp [hcount], by simp⟩
  fallback := fun h => absurd h (by simp [hmode])

theorem Counted.of_failed (hsuccesses : 1 ≤ config.successThreshold) {s : IdpHealthChecker}
    (hs : s = checked config past) (hmode : s.fallbackMode = true)
    (hstart : s.stabilityStart = none) (hcount : s.consecutiveSuccesses = 0) :
    Counted config past s where
  normal := fun h => absurd h (by simp [hmode])
  fallback := fun _ => ⟨[], Streak.nil (hs ▸ hmode), by simp [hcount], by simp, by
    rw [hstart]
    exact hsuccesses⟩

theorem Counted.fail (hsuccesses : 1 ≤ config.successThreshold)
    (h : Counted config past (checked config past)) (hcheck : ¬check.Healthy config) :
    Counted config (past ++ [check]) (checked config (past ++ [check])) := by
  have ⟨hcount, hreset, hstart, hmode⟩ :=
    checkHealth_of_not_healthy hcheck (checked config past)
  rw [← checked_concat] at hcount hreset hstart hmode
  cases hnext : (checked config (past ++ [check])).fallbackMode with
  | true => exact .of_failed hsuccesses rfl hnext hstart hreset
  | false =>
      rw [hnext, eq_comm, Bool.or_eq_false_iff, decide_eq_false_iff_not] at hmode
      obtain ⟨-, -, recent, hstreak, hlength, hfailed⟩ := h.normal hmode.1
      constructor
      · intro _
        refine ⟨hstart, by omega, recent ++ [check], hstreak.concat hnext, ?_,
          forall_mem_concat hfailed hcheck⟩
        simp [hlength, hcount]
      · intro hfallback
        rw [hnext] at hfallback
        cases hfallback

theorem Counted.succeed (hfailures : 1 ≤ config.failureThreshold)
    (h : Counted config past (checked config past)) (hcheck : check.Healthy config) :
    Counted config (past ++ [check]) (checked config (past ++ [check])) := by
  cases hmode : (checked config past).fallbackMode with
  | false =>
      have ⟨hcount, hstart, hnext⟩ := checkHealth_of_normal hcheck hmode
      rw [← checked_concat] at hcount hstart hnext
      exact .of_normal hfailures rfl hnext (hstart.trans (h.normal hmode).1) hcount
  | true =>
      have ⟨hcount, hsucc, hexit⟩ := checkHealth_of_fallback hcheck hmode
      rw [← checked_concat] at hcount hsucc hexit
      obtain ⟨recent, hstreak, hlength, hhealthy, htimed⟩ := h.fallback hmode
      -- the check joins the streak, with whatever the timer now says
      have hgrow : (checked config (past ++ [check])).fallbackMode = true →
          Timed config (recent ++ [check]) (checked config (past ++ [check])).stabilityStart →
          Counted config (past ++ [check]) (checked config (past ++ [check])) := by
        intro hnext htimed'
        constructor
        · intro hnormal
          rw [hnext] at hnormal
          cases hnormal
        · intro _
          refine ⟨recent ++ [check], hstreak.concat hnext, ?_,
            forall_mem_concat hhealthy hcheck, htimed'⟩
          simp [hlength, hsucc]
      split at hexit
      · rename_i hbelow
        apply hgrow hexit.2
        rw [hexit.1, Timed]
        simp only [List.length_append, List.length_singleton, hlength]
        exact hbelow
      · rename_i hreached
        cases hstart : (checked config past).stabilityStart with
        | none =>
            rw [hstart] at hexit htimed
            apply hgrow hexit.2
            rw [hexit.1]
            exact htimed.reach (by omega)
        | some start =>
            rw [hstart] at hexit htimed
            simp only at hexit
            split at hexit
            · exact .of_normal hfailures rfl hexit.2 hexit.1 hcount
            · apply hgrow hexit.2
              rw [hexit.1]
              exact htimed.concat

theorem counted (hfailures : 1 ≤ config.failureThreshold)
    (hsuccesses : 1 ≤ config.successThreshold) (past : List IdpCheck) :
    Counted config past (checked config past) := by
  induction past using List.reverseRecOn with
  | nil => exact .of_normal hfailures rfl rfl rfl rfl
  | append_singleton past check ih =>
      by_cases hcheck : check.Healthy config
      · exact ih.succeed hfailures hcheck
      · exact ih.fail hsuccesses hcheck

/-! ## Changes of the mode -/

theorem length_le_consecutiveFailures (front : List IdpCheck) {recent : List IdpCheck}
    (h : ∀ d ∈ recent, ¬d.Healthy config) :
    recent.length ≤ (checked config (front ++ recent)).consecutiveFailures := by
  induction recent using List.reverseRecOn with
  | nil => simp
  | append_singleton recent check ih =>
      have hrecent := ih fun d hd => h d (by simp [hd])
      have hcount := (checkHealth_of_not_healthy (h check (by simp))
        (checked config (front ++ recent))).1
      rw [← List.append_assoc, checked_concat, hcount, List.length_append, List.length_singleton]
      omega

theorem turnsOn_iff (hfailures : 1 ≤ config.failureThreshold)
    (hsuccesses : 1 ≤ config.successThreshold) : TurnsOn config past check ↔
      ∃ recent, Streak config false past recent ∧ CompletesFailures config recent check := by
  constructor
  · intro ⟨hbefore, hafter⟩
    obtain ⟨-, hcount, recent, hstreak, hlength, hfailed⟩ :=
      (counted hfailures hsuccesses past).normal hbefore
    rw [checked_concat] at hafter
    have hcheck : ¬check.Healthy config := by
      intro hcheck
      rw [(checkHealth_of_normal hcheck hbefore).2.2] at hafter
      cases hafter
    rw [(checkHealth_of_not_healthy hcheck _).2.2.2, hbefore, Bool.false_or,
      decide_eq_true_iff] at hafter
    exact ⟨recent, hstreak, hcheck, by omega, hfailed⟩
  · intro ⟨recent, hstreak, hcheck, hlength, hfailed⟩
    have hbefore := hstreak.mode
    obtain ⟨front, rfl, -⟩ := hstreak
    have hcount := length_le_consecutiveFailures front hfailed
    refine ⟨hbefore, ?_⟩
    rw [checked_concat, (checkHealth_of_not_healthy hcheck _).2.2.2, hbefore, Bool.false_or,
      decide_eq_true_iff]
    omega

theorem recovery_of_turnsOff (hfailures : 1 ≤ config.failureThreshold)
    (hsuccesses : 1 ≤ config.successThreshold) (h : TurnsOff config past check) :
    ∃ recent, Streak config true past recent ∧ CompletesRecovery config recent check := by
  obtain ⟨hbefore, hafter⟩ := h
  obtain ⟨recent, hstreak, hlength, hhealthy, htimed⟩ :=
    (counted hfailures hsuccesses past).fallback hbefore
  rw [checked_concat] at hafter
  by_cases hcheck : check.Healthy config
  · have hexit := (checkHealth_of_fallback hcheck hbefore).2.2
    split at hexit
    · rw [hexit.2] at hafter
      cases hafter
    · cases hstart : (checked config past).stabilityStart with
      | none =>
          simp only [hstart] at hexit
          rw [hexit.2] at hafter
          cases hafter
      | some start =>
          simp only [hstart] at hexit
          split at hexit
          · rename_i hperiod
            rw [hstart] at htimed
            obtain ⟨first, reached, later, hrecent, hreached, htime⟩ := htimed
            exact ⟨recent, hstreak, hcheck, hhealthy, first, reached, later, hrecent, hreached,
              by omega⟩
          · rw [hexit.2] at hafter
            cases hafter
  · rw [(checkHealth_of_not_healthy hcheck _).2.2.2, hbefore, Bool.true_or] at hafter
    cases hafter

/-- No check that failed lies within the stable period before the recovery. -/
theorem healthy_of_recovery {recent : List IdpCheck} (hstreak : Streak config true past recent)
    (h : CompletesRecovery config recent check)
    (htimes : past.Pairwise fun c d => c.checkedAt ≤ d.checkedAt) :
    ∀ d ∈ past, check.checkedAt - config.stablePeriod < d.checkedAt → d.Healthy config := by
  obtain ⟨front, rfl, -⟩ := hstreak
  obtain ⟨-, hhealthy, first, reached, later, rfl, -, htime⟩ := h
  intro d hd hlate
  rcases List.mem_append.mp hd with hfront | hrecent
  · have hearlier := (List.pairwise_append.mp htimes).2.2 d hfront reached (by simp)
    omega
  · exact hhealthy d hrecent

/-- A streak has no check that was made in the other mode. -/
theorem Streak.suffix {mode : Bool} {recent before after : List IdpCheck} {changed : IdpCheck}
    (h : Streak config mode (before ++ changed :: after) recent)
    (hchanged : (checked config before).fallbackMode ≠ mode) : recent <:+ after := by
  obtain ⟨front, happend, hstays⟩ := h
  rcases List.append_eq_append_iff.mp happend with ⟨rest, hfront, hrest⟩ | ⟨rest, hbefore, hrest⟩
  · cases rest with
    | nil =>
        rw [List.append_nil] at hfront
        rw [hfront] at hstays
        exact absurd hstays.head hchanged
    | cons d rest =>
        rw [List.cons_append, List.cons.injEq] at hrest
        exact ⟨rest, hrest.2.symm⟩
  · rw [hrest, StaysIn, everyState_append] at hstays
    have hmode := hstays.1.last
    rw [checked, ← run_append, ← hbefore] at hmode
    exact absurd hmode hchanged

def passedAt (time : ℤ) : IdpCheck :=
  ⟨.document [("issuer", "https://a/"), ("authorization_endpoint", ""), ("token_endpoint", ""),
    ("jwks_uri", ""), ("userinfo_endpoint", "")], time⟩

end TradingPlatform.Auth
