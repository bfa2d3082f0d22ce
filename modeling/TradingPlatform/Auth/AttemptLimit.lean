import Mathlib.Algebra.Order.Ring.Unbundled.Rat
import Mathlib.Logic.Function.Basic
import Mathlib.Tactic.Linarith
import TradingPlatform.Base.Run
import TradingPlatform.Base.SortedSet

/-! # Rate limits of login attempts, one command at a time

A call trims the sorted set of its key, counts it twice, adds the time it started at and sets the
time to live. Other calls run their commands in between. A member is the text of a time, and the
texts of different times differ, so members are times here.
-/

namespace TradingPlatform.Auth

open Base

structure AttemptConfig where
  rateLimitEnabled : Bool
  rateLimitWindow : ℤ
  rateLimitMaxAttempts : ℕ
  redisRateLimitPrefix : String

/-- A key of the server; an empty set is no key and has no time to live. -/
structure AttemptKey where
  attempts : SortedSet ℚ ℚ
  expiry : Option ℚ

def AttemptKey.none : AttemptKey := ⟨.empty, Option.none⟩

/-- What a command finds that is executed at the time. -/
def AttemptKey.at (key : AttemptKey) (time : ℚ) : AttemptKey :=
  if key.expiry.all (time < ·) then key else .none

/-- A call, and the time that it reads at its start. -/
structure Attempt where
  clientIp : String
  action : String
  now : ℚ
  deriving DecidableEq

/-- The next command of a call, or its result. -/
inductive AttemptPhase where
  | trimming
  | counting
  | recounting
  | adding
  | expiring
  | returned (allowed : Bool)
  deriving DecidableEq

structure AttemptState (C : Type*) where
  keys : String → AttemptKey
  calls : C → Option (Attempt × AttemptPhase)

inductive AttemptCommand (C : Type*) where
  | start (c : C) (attempt : Attempt)
  | advance (c : C) (time : ℚ)

def Attempt.key (attempt : Attempt) (config : AttemptConfig) : String :=
  config.redisRateLimitPrefix ++ attempt.action ++ ":" ++ attempt.clientIp

/-- `zremrangebyscore(key, 0, window_start)` -/
def AttemptKey.trim (key : AttemptKey) (windowStart : ℚ) : AttemptKey :=
  let attempts := key.attempts.zremrangebyscore 0 windowStart
  if attempts.zcard = 0 then .none else { key with attempts }

/-- `zadd(key, {str(now): now})` -/
def AttemptKey.add (key : AttemptKey) (now : ℚ) : AttemptKey :=
  { key with attempts := key.attempts.zadd now now }

/-- `expire(key, seconds)`, which does nothing where there is no key. -/
def AttemptKey.expire (key : AttemptKey) (time : ℚ) (seconds : ℤ) : AttemptKey :=
  if key.attempts.zcard = 0 then .none else { key with expiry := some (time + seconds) }

/-- One command of `check_rate_limit` on its key, and what comes next. -/
def Attempt.advance (config : AttemptConfig) (attempt : Attempt) (time : ℚ) (key : AttemptKey) :
    AttemptPhase → AttemptKey × AttemptPhase
  | .trimming => (key.trim (attempt.now - config.rateLimitWindow), .counting)
  | .counting => (key, .recounting)
  | .recounting =>
      (key, if config.rateLimitMaxAttempts ≤ key.attempts.zcard then .returned false else .adding)
  | .adding => (key.add attempt.now, .expiring)
  | .expiring => (key.expire time config.rateLimitWindow, .returned true)
  | .returned allowed => (key, .returned allowed)

variable {C : Type*}

namespace AttemptState

def start : AttemptState C := ⟨fun _ => .none, fun _ => none⟩

def step [DecidableEq C] (config : AttemptConfig) (s : AttemptState C) :
    AttemptCommand C → AttemptState C
  | .start c attempt =>
      match s.calls c with
      | some _ => s
      | none =>
          let phase := if config.rateLimitEnabled then .trimming else .returned true
          { s with calls := Function.update s.calls c (some (attempt, phase)) }
  | .advance c time =>
      match s.calls c with
      | none => s
      | some (attempt, phase) =>
          let key := attempt.key config
          let after := attempt.advance config time ((s.keys key).at time) phase
          { keys := Function.update s.keys key after.1
            calls := Function.update s.calls c (some (attempt, after.2)) }

/-- The times in the window that ends at `t`. -/
def InWindow (config : AttemptConfig) (t now : ℚ) : Prop :=
  t - config.rateLimitWindow < now ∧ now ≤ t

/-- In every window, no more than `rate_limit_max_attempts` of the calls of a client for an action
return `True`. -/
def Limited (config : AttemptConfig) (s : AttemptState C) : Prop :=
  ∀ (clientIp action : String) (t : ℚ) (calls : List C), calls.Nodup →
    (∀ c ∈ calls, ∃ now, s.calls c = some (⟨clientIp, action, now⟩, .returned true) ∧
      InWindow config t now) →
      calls.length ≤ config.rateLimitMaxAttempts

/-- The call has added its attempt: it returns `True`, or has returned it. -/
def Admitted (s : AttemptState C) (c : C) (attempt : Attempt) : Prop :=
  s.calls c = some (attempt, .expiring) ∨ s.calls c = some (attempt, .returned true)

/-- What a call relies on that has counted: the set still has room, not the time itself, and every
call of the key that was admitted since the window began. -/
structure CountIsCurrent (config : AttemptConfig) (s : AttemptState C) (attempt : Attempt)
    (attempts : SortedSet ℚ ℚ) : Prop where
  room : attempts.zcard < config.rateLimitMaxAttempts
  fresh : ∀ score, (attempt.now, score) ∉ attempts.entries
  complete : ∀ c other, s.Admitted c other → other.key config = attempt.key config →
    attempt.now - config.rateLimitWindow < other.now →
      ∃ score, (other.now, score) ∈ attempts.entries

def Undisturbed (config : AttemptConfig) (s : AttemptState C) : AttemptCommand C → Prop
  | .start _ _ => config.rateLimitEnabled = true
  | .advance c time => ∀ attempt, s.calls c = some (attempt, .adding) →
      s.CountIsCurrent config attempt ((s.keys (attempt.key config)).at time).attempts

/-! ## Admissions -/

variable {config : AttemptConfig} {s : AttemptState C} {c : C} {attempt : Attempt}

theorem admits_of_advance {time : ℚ} {key : AttemptKey} {phase : AttemptPhase}
    (h : (attempt.advance config time key phase).2 = .expiring ∨
      (attempt.advance config time key phase).2 = .returned true) :
    phase = .adding ∨ phase = .expiring ∨ phase = .returned true := by
  cases phase with
  | trimming => simp [Attempt.advance] at h
  | counting => simp [Attempt.advance] at h
  | recounting =>
      simp only [Attempt.advance] at h
      split at h <;> simp at h
  | adding => exact Or.inl rfl
  | expiring => exact Or.inr (Or.inl rfl)
  | returned allowed => simpa [Attempt.advance] using h

/-- A step admits nobody but a call that adds its attempt. -/
theorem admitted_of_step [DecidableEq C] {command : AttemptCommand C}
    (hcalm : s.Undisturbed config command)
    (h : (s.step config command).Admitted c attempt) :
    s.Admitted c attempt ∨
      ∃ time, command = .advance c time ∧ s.calls c = some (attempt, .adding) := by
  cases command with
  | start other begun =>
      left
      have henabled : config.rateLimitEnabled = true := hcalm
      simp only [step] at h
      split at h
      · exact h
      · unfold Admitted at h ⊢
        by_cases hsame : c = other
        · simp [hsame, henabled] at h
        · simpa [Function.update_of_ne hsame] using h
  | advance other time =>
      simp only [step] at h
      split at h
      · exact Or.inl h
      · rename_i own phase hcall
        unfold Admitted at h ⊢
        by_cases hsame : c = other
        · subst hsame
          simp only [Function.update_self, Option.some.injEq, Prod.mk.injEq] at h
          have hown : own = attempt := h.elim And.left And.left
          subst hown
          rcases admits_of_advance (h.imp And.right And.right) with hphase | hphase | hphase
          · exact Or.inr ⟨time, rfl, by rw [hcall, hphase]⟩
          · exact Or.inl (Or.inl (by rw [hcall, hphase]))
          · exact Or.inl (Or.inr (by rw [hcall, hphase]))
        · left
          simpa [Function.update_of_ne hsame] using h

structure Tracked (config : AttemptConfig) (s : AttemptState C) : Prop where
  distinct : 0 < config.rateLimitWindow → ∀ c c' attempt attempt', s.Admitted c attempt →
    s.Admitted c' attempt' → attempt.key config = attempt'.key config →
      attempt.now = attempt'.now → c = c'
  bounded : ∀ (key : String) (t : ℚ) (calls : List C), calls.Nodup →
    (∀ c ∈ calls, ∃ attempt, s.Admitted c attempt ∧ attempt.key config = key ∧
      InWindow config t attempt.now) →
      calls.length ≤ config.rateLimitMaxAttempts

theorem Tracked.limited (h : s.Tracked config) : s.Limited config := by
  intro clientIp action t calls hnodup hreturned
  apply h.bounded ((⟨clientIp, action, t⟩ : Attempt).key config) t calls hnodup
  intro c hc
  obtain ⟨now, hcall, hwindow⟩ := hreturned c hc
  exact ⟨_, Or.inr hcall, rfl, hwindow⟩

/-- The time a call has read, where it has begun. -/
def timeOf (s : AttemptState C) (c : C) : ℚ := ((s.calls c).map fun call => call.1.now).getD 0

theorem timeOf_of_admitted (h : s.Admitted c attempt) : s.timeOf c = attempt.now := by
  unfold timeOf
  rcases h with h | h
  · simp [h]
  · simp [h]

/-- The set that the call counted has every other call of a window that the call is in. -/
theorem length_others_lt (h : s.Tracked config) {attempts : SortedSet ℚ ℚ}
    (hcurrent : s.CountIsCurrent config attempt attempts) {t : ℚ} {others : List C}
    (hnodup : others.Nodup) (hwindow : InWindow config t attempt.now)
    (hothers : ∀ c ∈ others, ∃ other, s.Admitted c other ∧
      other.key config = attempt.key config ∧ InWindow config t other.now) :
    others.length < config.rateLimitMaxAttempts := by
  have hpos : 0 < config.rateLimitWindow := by
    have hlt : (0 : ℚ) < config.rateLimitWindow := by linarith [hwindow.1, hwindow.2]
    exact_mod_cast hlt
  have htimes : (others.map s.timeOf).Nodup := by
    apply hnodup.map_on
    intro c hc c' hc' heq
    obtain ⟨other, hadmitted, hkey, _⟩ := hothers c hc
    obtain ⟨other', hadmitted', hkey', _⟩ := hothers c' hc'
    rw [timeOf_of_admitted hadmitted, timeOf_of_admitted hadmitted'] at heq
    exact h.distinct hpos c c' other other' hadmitted hadmitted' (hkey.trans hkey'.symm) heq
  have hcount : (∀ time ∈ others.map s.timeOf, ∃ score, (time, score) ∈ attempts.entries) →
      (others.map s.timeOf).length ≤ attempts.zcard := SortedSet.length_le_zcard htimes
  have hroom := hcurrent.room
  rw [List.length_map] at hcount
  apply (hcount ?_).trans_lt hroom
  intro time htime
  obtain ⟨c, hc, rfl⟩ := List.mem_map.mp htime
  obtain ⟨other, hadmitted, hkey, hother⟩ := hothers c hc
  rw [timeOf_of_admitted hadmitted]
  exact hcurrent.complete c other hadmitted hkey (by linarith [hother.1, hwindow.2])

theorem Tracked.step [DecidableEq C] (h : s.Tracked config) {command : AttemptCommand C}
    (hcalm : s.Undisturbed config command) : (s.step config command).Tracked config := by
  constructor
  · intro hpos c c' attempt attempt' hc hc' hkey hnow
    have hfresh : ∀ {c c' : C} {attempt attempt' : Attempt} {time : ℚ},
        command = .advance c time → s.calls c = some (attempt, .adding) →
          s.Admitted c' attempt' → attempt.key config = attempt'.key config →
            attempt.now = attempt'.now → False := by
      intro c c' attempt attempt' time hcommand hadding hadmitted hkey hnow
      subst hcommand
      have hcurrent := hcalm attempt hadding
      have hlt : (0 : ℚ) < config.rateLimitWindow := by exact_mod_cast hpos
      obtain ⟨score, hmem⟩ := hcurrent.complete c' attempt' hadmitted hkey.symm (by linarith)
      rw [← hnow] at hmem
      exact hcurrent.fresh score hmem
    rcases admitted_of_step hcalm hc with hold | ⟨time, hcommand, hadding⟩
    · rcases admitted_of_step hcalm hc' with hold' | ⟨time', hcommand', hadding'⟩
      · exact h.distinct hpos c c' attempt attempt' hold hold' hkey hnow
      · exact (hfresh hcommand' hadding' hold hkey.symm hnow.symm).elim
    · rcases admitted_of_step hcalm hc' with hold' | ⟨time', hcommand', hadding'⟩
      · exact (hfresh hcommand hadding hold' hkey hnow).elim
      · rw [hcommand] at hcommand'
        cases hcommand'
        rfl
  · intro key t calls hnodup hcalls
    by_cases hnew : ∃ c ∈ calls, ∃ attempt time, command = .advance c time ∧
        s.calls c = some (attempt, .adding)
    · obtain ⟨c, hc, attempt, time, hcommand, hadding⟩ := hnew
      subst hcommand
      have hold : ∀ c' ∈ calls, c' ≠ c → ∃ other, s.Admitted c' other ∧
          other.key config = key ∧ InWindow config t other.now := by
        intro c' hc' hne
        obtain ⟨other, hadmitted, hkey, hwindow⟩ := hcalls c' hc'
        rcases admitted_of_step hcalm hadmitted with hbefore | ⟨time', hcommand, _⟩
        · exact ⟨other, hbefore, hkey, hwindow⟩
        · cases hcommand
          exact absurd rfl hne
      obtain ⟨own, hadmitted, hkey, hwindow⟩ := hcalls c hc
      have hown : own = attempt := by
        rcases admitted_of_step hcalm hadmitted with hbefore | ⟨_, _, hcall⟩
        · simp [Admitted, hadding] at hbefore
        · rw [hadding] at hcall
          cases hcall
          rfl
      subst hown
      have hlt := length_others_lt h (hcalm own hadding) (hnodup.erase c) hwindow (by
        intro c' hc'
        rw [hkey]
        exact hold c' (List.mem_of_mem_erase hc') (hnodup.mem_erase_iff.mp hc').1)
      have hlength := List.length_erase_of_mem hc
      omega
    · apply h.bounded key t calls hnodup
      intro c hc
      obtain ⟨attempt, hadmitted, hkey, hwindow⟩ := hcalls c hc
      rcases admitted_of_step hcalm hadmitted with hold | ⟨time, hcommand, hadding⟩
      · exact ⟨attempt, hold, hkey, hwindow⟩
      · exact absurd ⟨c, hc, attempt, time, hcommand, hadding⟩ hnew

theorem tracked_start (config : AttemptConfig) : (start : AttemptState C).Tracked config := by
  have hnone : ∀ (c : C) attempt, ¬(start : AttemptState C).Admitted c attempt := by
    intro c attempt h
    simp [Admitted, start] at h
  constructor
  · intro _ c c' attempt attempt' hc
    exact absurd hc (hnone c attempt)
  · intro key t calls _ hcalls
    cases calls with
    | nil => simp
    | cons c calls =>
        obtain ⟨attempt, hadmitted, _⟩ := hcalls c (by simp)
        exact absurd hadmitted (hnone c attempt)

/-- While every call adds its attempt to a set that is still as it counted it, no window has more
than its limit. -/
theorem attempts_limited [DecidableEq C] (config : AttemptConfig)
    (commands : List (AttemptCommand C))
    (h : EachStep (step config) (Undisturbed config) start commands) :
    EveryState (step config) (Limited config) start commands := by
  have htracked := everyState_of_eachStep (P := Tracked config)
    (fun _ _ hs hcalm => hs.step hcalm) (tracked_start config) h
  exact htracked.mono fun _ hs => hs.limited

def oneAttempt : AttemptConfig := ⟨true, 900, 1, "rate_limit:"⟩

def login (now : ℚ) : Attempt := ⟨"ip", "create_session", now⟩

/-- All the commands of one call. -/
def loneCall : List (AttemptCommand Unit) :=
  [.start () (login 1), .advance () 1, .advance () 1, .advance () 1, .advance () 1,
    .advance () 1]

theorem attempts_limited_login :
    EveryState (step oneAttempt) (Limited oneAttempt) start loneCall := by
  apply attempts_limited
  have hphase : ∀ {s : AttemptState Unit}, (s.calls ()).map Prod.snd ≠ some .adding →
      ∀ time, s.Undisturbed oneAttempt (.advance () time) := by
    intro s hne time attempt hadding
    rw [hadding] at hne
    exact absurd rfl hne
  have hadds : ∀ {s : AttemptState Unit}, s.calls () = some (login 1, .adding) →
      ((s.keys ((login 1).key oneAttempt)).at 1).attempts.entries = [] →
        s.Undisturbed oneAttempt (.advance () 1) := by
    intro s hcall hempty attempt hadding
    rw [hcall] at hadding
    cases hadding
    constructor
    · rw [SortedSet.zcard, hempty]
      decide
    · simp [hempty]
    · intro c other hadmitted
      simp [Admitted, hcall] at hadmitted
  exact ⟨rfl, hphase (by decide +kernel) 1, hphase (by decide +kernel) 1,
    hphase (by decide +kernel) 1, hadds (by decide +kernel) (by decide +kernel),
    hphase (by decide +kernel) 1, trivial⟩

/-- Two calls count before either adds its attempt. -/
def countedTwice : List (AttemptCommand Bool) :=
  [.start false (login 1), .start true (login 2), .advance false 3, .advance false 3,
    .advance false 3, .advance true 3, .advance true 3, .advance true 3, .advance false 3,
    .advance false 3, .advance true 3, .advance true 3]

theorem both_callers_allowed :
    ¬EveryState (step oneAttempt) (Limited oneAttempt) start countedTwice := by
  intro h
  have hlimited := h.last "ip" "create_session" 2 [false, true] (by decide) (by
    intro c _
    cases c with
    | false => exact ⟨1, by decide +kernel, by norm_num [InWindow, oneAttempt]⟩
    | true => exact ⟨2, by decide +kernel, by norm_num [InWindow, oneAttempt]⟩)
  exact absurd hlimited (by decide)

end AttemptState

end TradingPlatform.Auth
