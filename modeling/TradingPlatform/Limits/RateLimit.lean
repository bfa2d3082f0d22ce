import Mathlib.Data.Rat.Floor
import TradingPlatform.Base.ExpiringStore
import TradingPlatform.Base.Run
import TradingPlatform.Base.SortedSet

/-! # Sliding windows for a user and for all

Every call is added to the sorted set of its user and, where there is a global
limit, first to the set of all users. What an allowed call has added stays in
both sets for the length of the window, so the count that admits a later call
has counted it.
-/

namespace TradingPlatform.Limits

open Base

structure RateLimitConfig where
  action : String
  maxRequests : ℕ
  windowSeconds : ℕ
  burstBuffer : ℕ
  globalLimit : Option ℕ

abbrev RateKeys := ExpiringStore String (SortedSet String ℤ)

/-- `ZADD`, `ZREMRANGEBYSCORE`, `ZCARD` and `EXPIRE` of one key. -/
def addAndCount (keys : RateKeys) (clock : ℚ) (key : String) (window : ℕ) (member : String) :
    RateKeys × ℕ :=
  let now := ⌊clock⌋
  let set := (((keys.get clock key).getD .empty).zadd member now).zremrangebyscore 0 (now - window)
  (keys.setex clock key window set, set.zcard)

/-- `_RATE_LIMIT_WITH_GLOBAL_SCRIPT`: the count for the user, or -1, and that for all users. -/
def rateLimitScript (keys : RateKeys) (clock : ℚ) (key globalKey : String) (window : ℕ)
    (globalLimit : ℕ) (member : String) : RateKeys × ℤ × ℤ :=
  if globalKey ≠ "" ∧ 0 < globalLimit then
    let all := addAndCount keys clock globalKey window member
    if globalLimit < all.2 then (all.1, -1, all.2)
    else
      let own := addAndCount all.1 clock key window member
      (own.1, own.2, 0)
  else
    let own := addAndCount keys clock key window member
    (own.1, own.2, 0)

def rateKey (action userId : String) : String := "rl:" ++ action ++ ":" ++ userId

def RateLimitConfig.globalKey (config : RateLimitConfig) : String :=
  if config.globalLimit.getD 0 ≠ 0 then "rl:" ++ config.action ++ ":global" else ""

def RateLimitConfig.effectiveLimit (config : RateLimitConfig) : ℕ :=
  config.maxRequests + config.burstBuffer

def memberOf (userId : String) (timeNs : ℕ) : String := userId ++ ":" ++ toString timeNs

/-- `check_rate_limit_with_global`: whether the call is allowed, what remains, and the reason. -/
def checkRateLimitWithGlobal (keys : RateKeys) (clock : ℚ) (userId : String) (timeNs : ℕ)
    (config : RateLimitConfig) : RateKeys × Bool × ℤ × String :=
  let result := rateLimitScript keys clock (rateKey config.action userId) config.globalKey
    config.windowSeconds (config.globalLimit.getD 0) (memberOf userId timeNs)
  let count := result.2.1
  if count = -1 then (result.1, false, 0, "global_limit_exceeded")
  else
    let allowed := count ≤ config.effectiveLimit
    (result.1, allowed, max 0 (config.effectiveLimit - count),
      if allowed then "" else "per_user_limit_exceeded")

/-! ## Calls on one action -/

/-- The limits of an action; `rate_limit` scales those of a principal by its kind. -/
structure ActionLimits where
  action : String
  windowSeconds : ℕ
  globalLimit : Option ℕ
  maxRequests : String → ℕ
  burstBuffer : String → ℕ

def ActionLimits.configOf (limits : ActionLimits) (userId : String) : RateLimitConfig where
  action := limits.action
  maxRequests := limits.maxRequests userId
  windowSeconds := limits.windowSeconds
  burstBuffer := limits.burstBuffer userId
  globalLimit := limits.globalLimit

/-- A call at a time of the server; `timeNs` is the clock of the caller. -/
structure RateCall where
  userId : String
  timeNs : ℕ
  clock : ℚ
  deriving DecidableEq, Repr

def RateCall.member (call : RateCall) : String := memberOf call.userId call.timeNs

/-- The seconds that `TIME` returns. -/
def RateCall.time (call : RateCall) : ℤ := ⌊call.clock⌋

/-- The keys, and the calls so far that were allowed, the last one first. -/
structure RateState where
  keys : RateKeys
  allowed : List RateCall

def rateStep (limits : ActionLimits) (s : RateState) (call : RateCall) : RateState :=
  let answer := checkRateLimitWithGlobal s.keys call.clock call.userId call.timeNs
    (limits.configOf call.userId)
  { keys := answer.1
    allowed := if answer.2.1 then call :: s.allowed else s.allowed }

/-- The allowed calls of the seconds from `start` on. -/
def RateState.inWindow (s : RateState) (window : ℕ) (start : ℤ) : List RateCall :=
  s.allowed.filter fun call => start ≤ call.time ∧ call.time < start + window

/-- No user has more calls in a window than allowed, nor have all users together. -/
def WithinLimits (limits : ActionLimits) (s : RateState) : Prop :=
  ∀ start : ℤ,
    (∀ userId, ((s.inWindow limits.windowSeconds start).filter (·.userId = userId)).length ≤
      limits.maxRequests userId + limits.burstBuffer userId) ∧
    ∀ globalLimit ∈ limits.globalLimit, 0 < globalLimit →
      (s.inWindow limits.windowSeconds start).length ≤ globalLimit

/-! ## What a set keeps -/

/-- From now on, the set of the key has the entry until its window has passed. -/
def Keeps (keys : RateKeys) (clock : ℚ) (window : ℕ) (key : String) (e : String × ℤ) : Prop :=
  ∀ later, clock ≤ later → ⌊later⌋ - window < e.2 →
    e ∈ ((keys.get later key).getD .empty).entries

section Sets

variable {keys : RateKeys} {clock : ℚ} {window : ℕ} {key key' member : String} {e : String × ℤ}

theorem get_addAndCount {later : ℚ} (hbefore : later < clock + window) :
    ((addAndCount keys clock key window member).1.get later key).getD .empty =
      (((keys.get clock key).getD .empty).zadd member ⌊clock⌋).zremrangebyscore 0
        (⌊clock⌋ - window) := by
  rw [addAndCount, ExpiringStore.get_setex_of_lt hbefore, Option.getD_some]

/-- A set that is not of the past is still there. -/
theorem before_expiry {later : ℚ} {score : ℤ} (hlater : ⌊later⌋ - window < score)
    (hscore : score ≤ ⌊clock⌋) : later < clock + window := by
  have hfloor : ⌊later⌋ < ⌊clock⌋ + window := by omega
  have hlt := Int.floor_lt.mp hfloor
  push_cast at hlt
  linarith [Int.floor_le clock]

theorem keeps_added : Keeps (addAndCount keys clock key window member).1 clock window key
    (member, ⌊clock⌋) := by
  intro later hle hlater
  rw [get_addAndCount (before_expiry hlater le_rfl), SortedSet.mem_zremrangebyscore]
  refine ⟨SortedSet.mem_zadd.mpr (Or.inr rfl), ?_⟩
  have := Int.floor_le_floor hle
  simp only
  omega

theorem Keeps.addAndCount {earlier : ℚ} (h : Keeps keys earlier window key' e)
    (hle : earlier ≤ clock) (hscore : e.2 ≤ ⌊earlier⌋) (hsame : e.1 = member → e.2 = ⌊clock⌋) :
    Keeps (addAndCount keys clock key window member).1 clock window key' e := by
  intro later hlater hwindow
  by_cases hkey : key' = key
  · subst hkey
    have hmono := Int.floor_le_floor hle
    have hmono' := Int.floor_le_floor hlater
    rw [get_addAndCount (before_expiry hwindow (hscore.trans hmono)),
      SortedSet.mem_zremrangebyscore]
    have hold := h clock hle (by omega)
    refine ⟨SortedSet.mem_zadd.mpr ?_, by omega⟩
    by_cases hmember : e.1 = member
    · exact Or.inr (Prod.ext hmember (hsame hmember))
    · exact Or.inl ⟨hold, hmember⟩
  · rw [Limits.addAndCount, ExpiringStore.get, ExpiringStore.entries_setex_of_ne hkey]
    exact h later (hle.trans hlater) hwindow

/-- What was counted has what the set keeps. -/
theorem length_le_addAndCount {members : List String} (hnodup : members.Nodup)
    (hwindow : 0 < window)
    (h : ∀ m ∈ members, ∃ score, ⌊clock⌋ - window < score ∧
      Keeps (addAndCount keys clock key window member).1 clock window key (m, score)) :
    members.length ≤ (addAndCount keys clock key window member).2 := by
  have hlive : clock < clock + window := by
    have : (0 : ℚ) < window := Nat.cast_pos.mpr hwindow
    linarith
  apply SortedSet.length_le_zcard hnodup
  intro m hm
  obtain ⟨score, hscore, hkeeps⟩ := h m hm
  have hmem := hkeeps clock le_rfl hscore
  rw [get_addAndCount hlive] at hmem
  exact ⟨score, hmem⟩

end Sets

/-! ## Calls -/

section Calls

variable {limits : ActionLimits} {s : RateState} {call : RateCall} {keys : RateKeys}

/-- The call is added to the set of the key. -/
def RateCall.addsTo (call : RateCall) (limits : ActionLimits) (keys : RateKeys) (key : String) :
    RateKeys × ℕ :=
  addAndCount keys call.clock key limits.windowSeconds call.member

def ActionLimits.globalKey (limits : ActionLimits) : String :=
  "rl:" ++ limits.action ++ ":global"

/-- The keys when the set of the user is added to. -/
def RateCall.passed (call : RateCall) (limits : ActionLimits) (keys : RateKeys) : RateKeys :=
  if 0 < limits.globalLimit.getD 0 then (call.addsTo limits keys limits.globalKey).1 else keys

theorem globalKey_ne : limits.globalKey ≠ "" := by
  intro h
  have hlength := congrArg String.length h
  simp [ActionLimits.globalKey] at hlength

theorem globalKey_configOf (hlimit : 0 < limits.globalLimit.getD 0) (userId : String) :
    (limits.configOf userId).globalKey = limits.globalKey :=
  if_pos (Nat.ne_of_gt hlimit)

/-- The limit for all users refuses before the set of the user is touched. -/
theorem rateStep_of_global (hlimit : 0 < limits.globalLimit.getD 0)
    (hfull : limits.globalLimit.getD 0 < (call.addsTo limits s.keys limits.globalKey).2) :
    rateStep limits s call = ⟨(call.addsTo limits s.keys limits.globalKey).1, s.allowed⟩ := by
  have hscript : rateLimitScript s.keys call.clock (rateKey limits.action call.userId)
      limits.globalKey limits.windowSeconds (limits.globalLimit.getD 0)
      (memberOf call.userId call.timeNs) =
      ((call.addsTo limits s.keys limits.globalKey).1, -1,
        ((call.addsTo limits s.keys limits.globalKey).2 : ℤ)) := by
    rw [rateLimitScript, if_pos ⟨globalKey_ne, hlimit⟩]
    exact if_pos hfull
  have hcheck := globalKey_configOf hlimit call.userId
  simp only [rateStep, checkRateLimitWithGlobal, hcheck]
  simp only [ActionLimits.configOf, hscript]
  simp

/-- Else the set of the user decides. -/
theorem rateStep_of_passed (hroom : 0 < limits.globalLimit.getD 0 →
      (call.addsTo limits s.keys limits.globalKey).2 ≤ limits.globalLimit.getD 0) :
    let own := call.addsTo limits (call.passed limits s.keys) (rateKey limits.action call.userId)
    rateStep limits s call = ⟨own.1,
      if own.2 ≤ limits.maxRequests call.userId + limits.burstBuffer call.userId then
        call :: s.allowed else s.allowed⟩ := by
  intro own
  have hscript : rateLimitScript s.keys call.clock (rateKey limits.action call.userId)
      (limits.configOf call.userId).globalKey limits.windowSeconds (limits.globalLimit.getD 0)
      (memberOf call.userId call.timeNs) = (own.1, (own.2 : ℤ), 0) := by
    by_cases hlimit : 0 < limits.globalLimit.getD 0
    · rw [globalKey_configOf hlimit, rateLimitScript, if_pos ⟨globalKey_ne, hlimit⟩]
      simp only [own, RateCall.passed, if_pos hlimit]
      exact if_neg (not_lt.mpr (hroom hlimit))
    · rw [rateLimitScript, if_neg (fun h => hlimit h.2)]
      simp only [own, RateCall.passed, if_neg hlimit]
      rfl
  have hcount : (own.2 : ℤ) ≠ -1 := by omega
  simp only [rateStep, checkRateLimitWithGlobal]
  simp only [ActionLimits.configOf] at hscript ⊢
  simp only [hscript, if_neg hcount, RateLimitConfig.effectiveLimit, Nat.cast_le,
    decide_eq_true_eq]

theorem mem_of_mem_ite {c : RateCall} {p : Prop} [Decidable p]
    (h : c ∈ if p then call :: s.allowed else s.allowed) : c = call ∨ c ∈ s.allowed := by
  split at h
  · exact List.mem_cons.mp h
  · exact Or.inr h

theorem mem_rateStep {c : RateCall} (h : c ∈ (rateStep limits s call).allowed) :
    c = call ∨ c ∈ s.allowed := mem_of_mem_ite h

/-! ## The sets of a run -/

/-- What was allowed is in both sets until its window has passed. -/
structure Remembered (limits : ActionLimits) (s : RateState) (clock : ℚ) : Prop where
  past : ∀ c ∈ s.allowed, c.clock ≤ clock
  members : (s.allowed.map RateCall.member).Nodup
  user : ∀ c ∈ s.allowed, Keeps s.keys clock limits.windowSeconds
    (rateKey limits.action c.userId) (c.member, c.time)
  all : 0 < limits.globalLimit.getD 0 → ∀ c ∈ s.allowed,
    Keeps s.keys clock limits.windowSeconds limits.globalKey (c.member, c.time)

/-- The calls that may come next. -/
structure RateCall.Comes (call : RateCall) (s : RateState) (clock : ℚ) : Prop where
  later : clock ≤ call.clock
  fresh : ∀ c ∈ s.allowed, c.member ≠ call.member

theorem Keeps.addsTo {c : RateCall} {key key' : String} {clock : ℚ}
    (h : Keeps keys clock limits.windowSeconds key (c.member, c.time)) (hle : clock ≤ call.clock)
    (hpast : c.clock ≤ clock) (hsame : c.member = call.member → c.time = call.time) :
    Keeps (call.addsTo limits keys key').1 call.clock limits.windowSeconds key
      (c.member, c.time) :=
  h.addAndCount hle (Int.floor_le_floor hpast) hsame

theorem keeps_addsTo {key : String} : Keeps (call.addsTo limits keys key).1 call.clock
    limits.windowSeconds key (call.member, call.time) := keeps_added

/-- What the sets keep, they keep through the first addition of a call. -/
theorem Remembered.passed {clock : ℚ} (h : Remembered limits s clock)
    (hcomes : call.Comes s clock) :
    Remembered limits { s with keys := call.passed limits s.keys } call.clock where
  past c hc := (h.past c hc).trans hcomes.later
  members := h.members
  user c hc := by
    unfold RateCall.passed
    split
    · exact (h.user c hc).addsTo hcomes.later (h.past c hc) fun hm => absurd hm (hcomes.fresh c hc)
    · intro later hlater
      exact h.user c hc later (hcomes.later.trans hlater)
  all hlimit c hc := by
    simp only [RateCall.passed, if_pos hlimit]
    exact (h.all hlimit c hc).addsTo hcomes.later (h.past c hc) fun hm =>
      absurd hm (hcomes.fresh c hc)

theorem remembered_step {clock : ℚ} (h : Remembered limits s clock) (hcomes : call.Comes s clock) :
    Remembered limits (rateStep limits s call) call.clock := by
  have hpassed := h.passed hcomes
  by_cases hfull : 0 < limits.globalLimit.getD 0 ∧
      limits.globalLimit.getD 0 < (call.addsTo limits s.keys limits.globalKey).2
  · rw [rateStep_of_global hfull.1 hfull.2]
    simpa only [RateCall.passed, if_pos hfull.1] using hpassed
  · rw [rateStep_of_passed fun hlimit => not_lt.mp fun hlt => hfull ⟨hlimit, hlt⟩]
    have hkept : ∀ key, ∀ c ∈ s.allowed,
        Keeps (call.passed limits s.keys) call.clock limits.windowSeconds key
          (c.member, c.time) →
        Keeps (call.addsTo limits (call.passed limits s.keys)
          (rateKey limits.action call.userId)).1 call.clock limits.windowSeconds key
          (c.member, c.time) := by
      intro key c hc hold
      exact hold.addsTo le_rfl (hpassed.past c hc) fun hm => absurd hm (hcomes.fresh c hc)
    have hall : 0 < limits.globalLimit.getD 0 →
        Keeps (call.addsTo limits (call.passed limits s.keys)
          (rateKey limits.action call.userId)).1 call.clock limits.windowSeconds
          limits.globalKey (call.member, call.time) := by
      intro hlimit
      simp only [RateCall.passed, if_pos hlimit]
      exact keeps_addsTo.addsTo le_rfl le_rfl fun _ => rfl
    constructor
    · intro c hc
      rcases mem_of_mem_ite hc with rfl | hmem
      · exact le_rfl
      · exact hpassed.past c hmem
    · simp only
      split
      · rw [List.map_cons, List.nodup_cons]
        refine ⟨?_, h.members⟩
        intro hmem
        obtain ⟨c, hc, heq⟩ := List.mem_map.mp hmem
        exact hcomes.fresh c hc heq
      · exact h.members
    · intro c hc
      rcases mem_of_mem_ite hc with rfl | hmem
      · exact keeps_addsTo
      · exact hkept _ c hmem (hpassed.user c hmem)
    · intro hlimit c hc
      rcases mem_of_mem_ite hc with rfl | hmem
      · exact hall hlimit
      · exact hkept _ c hmem (hpassed.all hlimit c hmem)

/-- Calls of one window that a set keeps have been counted. -/
theorem length_le_addsTo {key : String} {counted : List RateCall} {start : ℤ}
    (hnodup : (counted.map RateCall.member).Nodup)
    (hcall : start ≤ call.time ∧ call.time < start + limits.windowSeconds)
    (hwindow : ∀ c ∈ counted, start ≤ c.time)
    (hkeeps : ∀ c ∈ counted, Keeps (call.addsTo limits keys key).1 call.clock
      limits.windowSeconds key (c.member, c.time)) :
    counted.length ≤ (call.addsTo limits keys key).2 := by
  rw [← List.length_map RateCall.member]
  apply length_le_addAndCount hnodup (by omega)
  intro m hm
  obtain ⟨c, hc, rfl⟩ := List.mem_map.mp hm
  have hstart := hwindow c hc
  have htime : call.time = ⌊call.clock⌋ := rfl
  exact ⟨c.time, by omega, hkeeps c hc⟩

theorem withinLimits_of_outside {next : RateState} (h : WithinLimits limits s)
    (hsame : ∀ start : ℤ, next.inWindow limits.windowSeconds start =
      s.inWindow limits.windowSeconds start) : WithinLimits limits next := by
  intro start
  rw [hsame start]
  exact h start

theorem inWindow_cons (window : ℕ) (start : ℤ) :
    (⟨keys, call :: s.allowed⟩ : RateState).inWindow window start =
      if start ≤ call.time ∧ call.time < start + window then call :: s.inWindow window start
      else s.inWindow window start := by
  simp only [RateState.inWindow, List.filter_cons, decide_eq_true_eq]

theorem start_le_of_mem {c : RateCall} {window : ℕ} {start : ℤ} (h : c ∈ s.inWindow window start) :
    start ≤ c.time := by
  simp only [RateState.inWindow, List.mem_filter, decide_eq_true_eq] at h
  exact h.2.1

theorem inWindow_members {clock : ℚ} (h : Remembered limits s clock) (window : ℕ) (start : ℤ) :
    ((s.inWindow window start).map RateCall.member).Nodup :=
  h.members.sublist (List.filter_sublist.map _)

/-- The count for the user has all of the user in the window. -/
theorem own_le_addsTo {allowed : List RateCall} {start : ℤ}
    (h : Remembered limits
      ⟨(call.addsTo limits keys (rateKey limits.action call.userId)).1, allowed⟩ call.clock)
    (hcall : start ≤ call.time ∧ call.time < start + limits.windowSeconds) :
    (((⟨(call.addsTo limits keys (rateKey limits.action call.userId)).1, allowed⟩ :
      RateState).inWindow limits.windowSeconds start).filter
        (·.userId = call.userId)).length ≤
      (call.addsTo limits keys (rateKey limits.action call.userId)).2 := by
  apply length_le_addsTo _ hcall
  · intro c hc
    exact start_le_of_mem (List.mem_filter.mp hc).1
  · intro c hc
    have hmem := List.mem_filter.mp hc
    have hkeeps := h.user c (List.mem_filter.mp hmem.1).1
    rwa [of_decide_eq_true hmem.2] at hkeeps
  · exact (inWindow_members h limits.windowSeconds start).sublist (List.filter_sublist.map _)

/-- What one allowed call adds to a window has been counted. -/
theorem withinLimits_step {clock : ℚ} (hremembered : Remembered limits s clock)
    (hcomes : call.Comes s clock) (h : WithinLimits limits s) :
    WithinLimits limits (rateStep limits s call) := by
  by_cases hfull : 0 < limits.globalLimit.getD 0 ∧
      limits.globalLimit.getD 0 < (call.addsTo limits s.keys limits.globalKey).2
  · rw [rateStep_of_global hfull.1 hfull.2]
    exact withinLimits_of_outside h fun _ => rfl
  have hroom : 0 < limits.globalLimit.getD 0 →
      (call.addsTo limits s.keys limits.globalKey).2 ≤ limits.globalLimit.getD 0 :=
    fun hlimit => not_lt.mp fun hlt => hfull ⟨hlimit, hlt⟩
  have hnext := remembered_step hremembered hcomes
  have hpassed := hremembered.passed hcomes
  rw [rateStep_of_passed hroom] at hnext ⊢
  by_cases hown : (call.addsTo limits (call.passed limits s.keys)
      (rateKey limits.action call.userId)).2 ≤
        limits.maxRequests call.userId + limits.burstBuffer call.userId
  · simp only [if_pos hown] at hnext ⊢
    intro start
    have hold := h start
    by_cases hcall : start ≤ call.time ∧ call.time < start + limits.windowSeconds
    · constructor
      · intro userId
        by_cases huser : call.userId = userId
        · rw [← huser]
          exact (own_le_addsTo hnext hcall).trans hown
        · rw [inWindow_cons, if_pos hcall, List.filter_cons_of_neg (by simpa using huser)]
          exact hold.1 userId
      · intro globalLimit hlimit hpos
        have hset : limits.globalLimit.getD 0 = globalLimit := by
          rw [hlimit, Option.getD_some]
        rw [← hset] at hpos ⊢
        apply le_trans _ (hroom hpos)
        apply length_le_addsTo (inWindow_members hnext limits.windowSeconds start) hcall
        · intro c hc
          exact start_le_of_mem hc
        · intro c hc
          rcases List.mem_cons.mp (List.mem_filter.mp hc).1 with rfl | hmem
          · exact keeps_addsTo
          · have hkeeps := hpassed.all hpos c hmem
            simpa only [RateCall.passed, if_pos hpos] using hkeeps
    · rw [inWindow_cons, if_neg hcall]
      exact hold
  · simp only [if_neg hown]
    exact withinLimits_of_outside h fun _ => rfl

/-! ## Runs -/

theorem withinLimits_run {calls : List RateCall} {clock : ℚ}
    (htimes : (calls.map RateCall.clock).Pairwise (· ≤ ·))
    (hmembers : (calls.map RateCall.member).Nodup) (hremembered : Remembered limits s clock)
    (hcomes : ∀ call ∈ calls, call.Comes s clock) (h : WithinLimits limits s) :
    EveryState (rateStep limits) (WithinLimits limits) s calls := by
  induction calls generalizing s clock with
  | nil => exact h
  | cons call calls ih =>
      have hcall := hcomes call List.mem_cons_self
      rw [List.map_cons, List.pairwise_cons] at htimes
      rw [List.map_cons, List.nodup_cons] at hmembers
      have hnext : ∀ c ∈ calls, c.Comes (rateStep limits s call) call.clock := by
        intro c hc
        refine ⟨htimes.1 _ (List.mem_map_of_mem hc), ?_⟩
        intro d hd hsame
        rcases mem_rateStep hd with rfl | hpast
        · rw [hsame] at hmembers
          exact hmembers.1 (List.mem_map_of_mem hc)
        · exact (hcomes c (List.mem_cons_of_mem _ hc)).fresh d hpast hsame
      exact ⟨h, ih htimes.2 hmembers.2 (remembered_step hremembered hcall) hnext
        (withinLimits_step hremembered hcall h)⟩

/-- In every window, the allowed calls of a user and of all users are within their limits. -/
theorem sliding_windows_are_bounded (limits : ActionLimits) (keys : RateKeys)
    (calls : List RateCall) (htimes : (calls.map RateCall.clock).Pairwise (· ≤ ·))
    (hmembers : (calls.map RateCall.member).Nodup) :
    EveryState (rateStep limits) (WithinLimits limits) ⟨keys, []⟩ calls := by
  have hstart : WithinLimits limits ⟨keys, []⟩ := by
    intro start
    simp [RateState.inWindow]
  have hremembered : ∀ clock, Remembered limits ⟨keys, []⟩ clock := by
    intro clock
    constructor <;> simp
  cases calls with
  | nil => exact hstart
  | cons call calls =>
      apply withinLimits_run htimes hmembers (hremembered call.clock) _ hstart
      rw [List.map_cons, List.pairwise_cons] at htimes
      intro c hc
      refine ⟨?_, by simp⟩
      rcases List.mem_cons.mp hc with rfl | hmem
      · exact le_rfl
      · exact htimes.1 _ (List.mem_map_of_mem hmem)

/-- One request a minute for a user, and two for all. -/
def fewRequests : ActionLimits := ⟨"submit", 60, some 2, fun _ => 1, fun _ => 0⟩

theorem sliding_windows_are_bounded_two :
    EveryState (rateStep fewRequests) (WithinLimits fewRequests) ⟨.empty, []⟩
      [⟨"user:a", 1, 0⟩, ⟨"user:b", 2, 30⟩] :=
  sliding_windows_are_bounded fewRequests .empty [⟨"user:a", 1, 0⟩, ⟨"user:b", 2, 30⟩]
    (by simp) (by decide +kernel)

/-- A limit of zero for all users is taken for none. -/
def closedAction : ActionLimits := ⟨"submit", 60, some 0, fun _ => 1, fun _ => 0⟩

theorem zero_limit_is_no_limit :
    ¬∀ globalLimit ∈ closedAction.globalLimit,
      ((run (rateStep closedAction) ⟨.empty, []⟩ [⟨"user:a", 1, 0⟩]).inWindow
        closedAction.windowSeconds 0).length ≤ globalLimit := by
  decide +kernel

end Calls

end TradingPlatform.Limits
