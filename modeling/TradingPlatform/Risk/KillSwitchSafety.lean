import TradingPlatform.Risk.KillSwitch
import Mathlib.Tactic.SplitIfs

/-! # The kill switch under restarts and lost keys

Scripts and reads refuse a missing state, so losing the key leaves the switch
closed; the constructor does not. It is the one writer that can release an
engaged switch, and it only gets to write when it has found the key missing.
-/

namespace TradingPlatform.Risk

open Base

/-- After an engagement that no disengagement followed, `is_engaged` does not answer no. -/
def FailsClosed (s : SwitchSystem) : Prop := s.engaged = true → isEngaged s.key ≠ .ok false

/-- The default state is not written while the switch is to be engaged. -/
def NoDefaultWhileEngaged (s : SwitchSystem) (a : ℕ × SwitchEvent) : Prop :=
  a.2 = .command → ∀ recovering, s.clients a.1 = .willSet recovering → s.engaged = false

/-! ## One step -/

theorem isEngaged_of_state {key : Option KillSwitchData} {data : KillSwitchData}
    (hkey : key = some data) (hstate : data.state = .engaged) : isEngaged key = .ok true := by
  rw [hkey, isEngaged, getKillSwitchState, Except.map, hstate]
  rfl

theorem failsClosed_engage {s : SwitchSystem} (e : Engagement) (h : FailsClosed s) :
    FailsClosed (s.engage e) := by
  unfold SwitchSystem.engage
  split
  · rename_i data hok
    intro _
    rw [isEngaged_of_state rfl (engageScript_eq_ok hok)]
    simp
  · exact h

theorem failsClosed_disengage {s : SwitchSystem} (d : Disengagement) (h : FailsClosed s) :
    FailsClosed (s.disengage d) := by
  unfold SwitchSystem.disengage
  split
  · intro hengaged
    cases hengaged
  · exact h

/-- Only the constructor's write can release the switch, and it always does. -/
theorem failsClosed_command {s : SwitchSystem} (i : ℕ) (h : FailsClosed s) :
    FailsClosed (s.command i) ↔
      ∀ recovering, s.clients i = .willSet recovering → s.engaged = false := by
  unfold SwitchSystem.command
  cases hclient : s.clients i with
  | idle => exact iff_of_true h (by intro _ hset; cases hset)
  | construct recovering =>
      refine iff_of_true ?_ (by intro _ hset; cases hset)
      simp only
      split <;> exact h
  | validate =>
      refine iff_of_true ?_ (by intro _ hset; cases hset)
      simp only
      split <;> exact h
  | willSet recovering =>
      constructor
      · intro hclosed _ _
        cases hengaged : s.engaged with
        | false => rfl
        | true => exact absurd rfl (hclosed hengaged)
      · intro hnot hengaged
        have hfalse := hnot recovering rfl
        change s.engaged = true at hengaged
        rw [hfalse] at hengaged
        cases hengaged

theorem noDefault_of_ne (s : SwitchSystem) (i : ℕ) {event : SwitchEvent}
    (h : event ≠ .command) : NoDefaultWhileEngaged s (i, event) := fun hcommand => absurd hcommand h

theorem failsClosed_step {s : SwitchSystem} (a : ℕ × SwitchEvent) (h : FailsClosed s) :
    FailsClosed (switchStep s a) ↔ NoDefaultWhileEngaged s a := by
  obtain ⟨i, event⟩ := a
  cases event with
  | command =>
      have hcommand := failsClosed_command i h
      exact hcommand.trans ⟨fun hwrite _ => hwrite, fun hwrite => hwrite rfl⟩
  | construct =>
      apply iff_of_true _ (noDefault_of_ne s i (by simp))
      simp only [switchStep]
      split <;> exact h
  | attemptRecovery canRecover hasFactory =>
      apply iff_of_true _ (noDefault_of_ne s i (by simp))
      simp only [switchStep, SwitchSystem.attemptRecovery]
      split_ifs <;> exact h
  | engage e =>
      apply iff_of_true _ (noDefault_of_ne s i (by simp))
      simp only [switchStep]
      split
      · exact failsClosed_engage e h
      · exact h
  | disengage d =>
      apply iff_of_true _ (noDefault_of_ne s i (by simp))
      simp only [switchStep]
      split
      · exact failsClosed_disengage d h
      · exact h
  | isEngaged => exact iff_of_true h (noDefault_of_ne s i (by simp))
  | abandon => exact iff_of_true h (noDefault_of_ne s i (by simp))
  | restart => exact iff_of_true h (noDefault_of_ne s i (by simp))
  | loseKeys =>
      -- A missing key makes every read raise.
      apply iff_of_true _ (noDefault_of_ne s i (by simp))
      intro _ hopen
      cases hopen

/-! ## Runs -/

/-- Whatever the processes do and whenever the keys are lost: the switch fails closed in every
state of the run exactly when no constructor writes the default state between a successful
engagement and the next successful disengagement. -/
theorem failsClosed_iff (key : Option KillSwitchData) (events : List (ℕ × SwitchEvent)) :
    EveryState switchStep FailsClosed (.start key) events ↔
      EachStep switchStep NoDefaultWhileEngaged (.start key) events := by
  have hstart : FailsClosed (.start key) := by
    intro hengaged
    cases hengaged
  exact everyState_iff_eachStep' (G := fun _ => True) (fun _ _ _ => trivial)
    (fun _ a _ h => failsClosed_step a h) events trivial hstart

/-! ## Keys that are kept -/

/-- The key is there, and no constructor has found it missing. -/
structure KeyKept (s : SwitchSystem) : Prop where
  present : s.key.isSome
  noneWillSet : ∀ i recovering, s.clients i ≠ .willSet recovering

theorem keyKept_goto {s : SwitchSystem} (h : KeyKept s) (i : ℕ) {client : SwitchClient}
    (hclient : ∀ recovering, client ≠ .willSet recovering) : KeyKept (s.goto i client) := by
  refine ⟨h.present, ?_⟩
  intro j
  simp only [SwitchSystem.goto]
  by_cases hj : j = i
  · rw [hj, Function.update_self]
    exact hclient
  · rw [Function.update_of_ne hj]
    exact h.noneWillSet j

theorem keyKept_idle {s : SwitchSystem} (h : KeyKept s) (i : ℕ) : KeyKept (s.goto i .idle) :=
  keyKept_goto h i (by simp)

theorem keyKept_setUnavailable {s : SwitchSystem} (h : KeyKept s) (i : ℕ) (value : Bool) :
    KeyKept (s.setUnavailable i value) := ⟨h.present, h.noneWillSet⟩

theorem keyKept_constructed {s : SwitchSystem} (h : KeyKept s) (i : ℕ) (recovering : Bool) :
    KeyKept (s.constructed i recovering) := by
  apply keyKept_goto (s := { s with instances := Function.update s.instances i true })
  · exact ⟨h.present, h.noneWillSet⟩
  · cases recovering <;> simp

theorem keyKept_step {s : SwitchSystem} {a : ℕ × SwitchEvent} (h : KeyKept s)
    (ha : a.2 ≠ .loseKeys) : KeyKept (switchStep s a) := by
  obtain ⟨i, event⟩ := a
  obtain ⟨data, hkey⟩ := Option.isSome_iff_exists.mp h.present
  cases event with
  | loseKeys => exact absurd rfl ha
  | isEngaged => exact h
  | abandon => exact keyKept_idle (keyKept_setUnavailable h i true) i
  | restart =>
      apply keyKept_idle
      exact ⟨h.present, h.noneWillSet⟩
  | construct =>
      simp only [switchStep]
      split
      · exact keyKept_goto h i (by simp)
      · exact h
  | attemptRecovery canRecover hasFactory =>
      simp only [switchStep, SwitchSystem.attemptRecovery]
      split_ifs
      · exact keyKept_goto h i (by simp)
      · exact keyKept_goto h i (by simp)
      · exact keyKept_setUnavailable h i true
      · exact h
      · exact h
  | engage e =>
      simp only [switchStep, SwitchSystem.engage]
      split
      · split
        · exact ⟨rfl, h.noneWillSet⟩
        · exact h
      · exact h
  | disengage d =>
      simp only [switchStep, SwitchSystem.disengage]
      split
      · split
        · exact ⟨rfl, h.noneWillSet⟩
        · exact h
      · exact h
  | command =>
      simp only [switchStep, SwitchSystem.command]
      cases hclient : s.clients i with
      | idle => exact h
      | construct recovering =>
          simp only [hkey]
          exact keyKept_constructed h i recovering
      | willSet recovering => exact absurd hclient (h.noneWillSet i recovering)
      | validate =>
          simp only
          split
          · exact keyKept_idle (keyKept_setUnavailable h i false) i
          · exact keyKept_idle (keyKept_setUnavailable h i true) i

/-- A state that is there at the start and never lost is never written by a constructor. -/
theorem failsClosed_of_keys_kept {key : Option KillSwitchData} {events : List (ℕ × SwitchEvent)}
    (hkey : key.isSome) (hkept : ∀ a ∈ events, a.2 ≠ .loseKeys) :
    EveryState switchStep FailsClosed (.start key) events := by
  have hstart : KeyKept (.start key) ∧ FailsClosed (.start key) := by
    refine ⟨⟨hkey, by simp [SwitchSystem.start]⟩, ?_⟩
    intro hengaged
    cases hengaged
  have hboth : EveryState switchStep (fun s => KeyKept s ∧ FailsClosed s) (.start key) events := by
    have hstep : ∀ s (a : ℕ × SwitchEvent), KeyKept s ∧ FailsClosed s → a.2 ≠ .loseKeys →
        KeyKept (switchStep s a) ∧ FailsClosed (switchStep s a) := by
      rintro s a ⟨hpresent, hclosed⟩ ha
      refine ⟨keyKept_step hpresent ha, (failsClosed_step a hclosed).mpr ?_⟩
      intro _ recovering hset
      exact absurd hset (hpresent.noneWillSet a.1 recovering)
    exact everyState_of_eachStep hstep hstart (eachStep_of_forall hkept _)
  exact hboth.mono fun _ h => h.2

/-! ## A restart that releases the switch -/

def sampleEngagement : Engagement := ⟨"Market anomaly", "ops", none, 10⟩

/-- Process 0 starts and engages, the keys are lost, process 1 starts. -/
def restartAfterLoss : List (ℕ × SwitchEvent) :=
  [(0, .construct), (0, .command), (0, .command), (0, .engage sampleEngagement), (0, .loseKeys),
    (1, .construct), (1, .command), (1, .command)]

theorem restart_releases :
    let last := run switchStep (.start none) restartAfterLoss
    last.engaged = true ∧ isEngaged last.key = .ok false ∧
      ¬EveryState switchStep FailsClosed (.start none) restartAfterLoss := by
  intro last
  have hengaged : last.engaged = true := by decide
  have hkey : last.key = some activeState := by decide
  refine ⟨hengaged, by rw [hkey]; rfl, ?_⟩
  intro hevery
  apply hevery.last hengaged
  change isEngaged last.key = _
  rw [hkey]
  rfl

end TradingPlatform.Risk
