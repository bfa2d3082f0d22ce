import TradingPlatform.Base.ExpiringStore
import TradingPlatform.Base.Interleaving
import TradingPlatform.Gateway.DailyPerformance
import Mathlib.Data.List.Sort

/-! # The cache of the performance dashboard

A computed range is stored under a key of the user and the strategies, and the key is entered in an
index set for every date of the range. A fill deletes the keys in the set of its date, in batches,
and then the set. Requests and fills take their database and Redis commands one at a time, in any
order.
-/

namespace TradingPlatform.Gateway

open Base

/-! ## The data -/

structure PerformanceFill where
  date : DateOrdinal
  strategyId : String
  realizedPl : ℚ
  /-- A fill that the reconciliation books invalidates nothing. -/
  viaWebhook : Bool

structure PerformanceRequest where
  startDate : DateOrdinal
  endDate : DateOrdinal
  strategies : List String
  userId : String

abbrev PerformanceData := List DailyPnl × ℚ × ℚ

/-- The rows by date, in the order of the dates. -/
def getDailyPnlHistory (fills : List PerformanceFill) (request : PerformanceRequest) :
    List PerformanceRow :=
  let matching := fills.filter fun fill =>
    request.startDate ≤ fill.date ∧ fill.date ≤ request.endDate ∧
      fill.strategyId ∈ request.strategies
  let dates := (matching.map (·.date)).dedup.insertionSort (· ≤ ·)
  dates.map fun date =>
    let ofDay := matching.filter fun fill => fill.date = date
    ⟨some date, some (ofDay.map (·.realizedPl)).sum,
      some (ofDay.countP fun fill => fill.realizedPl ≠ 0)⟩

def dailyPerformance (fills : List PerformanceFill) (request : PerformanceRequest) :
    Except DateError PerformanceData :=
  computeDailyPerformance (getDailyPnlHistory fills request) request.startDate request.endDate

/-! ## Keys and index sets -/

structure PerformanceKey where
  userId : String
  startDate : DateOrdinal
  endDate : DateOrdinal
  strategyHash : String
  deriving DecidableEq

def PerformanceKey.Covers (key : PerformanceKey) (date : DateOrdinal) : Prop :=
  key.startDate ≤ date ∧ date ≤ key.endDate

instance (key : PerformanceKey) (date : DateOrdinal) : Decidable (key.Covers date) :=
  inferInstanceAs (Decidable (_ ∧ _))

/-- `hash` is the start of the MD5 digest. -/
def createPerformanceCacheKey (hash : String → String) (request : PerformanceRequest) :
    PerformanceKey where
  userId := request.userId
  startDate := request.startDate
  endDate := request.endDate
  strategyHash := hash (if request.strategies.isEmpty then "none"
    else ",".intercalate (request.strategies.insertionSort (· ≤ ·)))

/-- The set of a date. A set that expired or was deleted begins again as another generation. -/
structure DateIndex where
  members : List PerformanceKey
  expiry : ℚ
  generation : ℕ

def DateIndex.current (index : DateIndex) (now : ℚ) : List PerformanceKey :=
  if now < index.expiry then index.members else []

/-- `SADD` and `EXPIRE` -/
def DateIndex.add (index : DateIndex) (now ttl : ℚ) (key : PerformanceKey) : DateIndex where
  members := key :: index.current now
  expiry := now + ttl
  generation := if now < index.expiry then index.generation else index.generation + 1

def DateIndex.delete (index : DateIndex) (now : ℚ) : DateIndex := ⟨[], now, index.generation + 1⟩

/-! ## Calls -/

structure PerformanceStore where
  now : ℚ
  fills : List PerformanceFill
  cache : ExpiringStore PerformanceKey PerformanceData
  index : DateOrdinal → DateIndex
  /-- The positions of the fills whose invalidation got to its end. -/
  invalidated : List ℕ

/-- Where a request or the booking of a fill is. -/
inductive PerformanceCall where
  | idle
  | missed (request : PerformanceRequest)
  | computed (request : PerformanceRequest) (data : PerformanceData)
  | stored (request : PerformanceRequest)
  | committed (date : DateOrdinal) (fill : ℕ)
  | scanning (date : DateOrdinal) (fill : ℕ) (atStart : List PerformanceKey) (generation : ℕ)
      (returned batch : List PerformanceKey)

inductive PerformanceAction where
  | tick (now : ℚ)
  /-- The cache is read. -/
  | request (request : PerformanceRequest)
  | readDb
  | set
  /-- The pipeline of `register_performance_cache` -/
  | register
  | book (fill : PerformanceFill)
  | startScan
  | scanNext (key : PerformanceKey)
  /-- A full batch is deleted. -/
  | flush
  | endScan
  /-- A Redis error ends the call. -/
  | fail

def batchSize : ℕ := 100

def PerformanceStore.put (s : PerformanceStore) (key : PerformanceKey) (ttl : ℚ)
    (data : PerformanceData) : PerformanceStore :=
  { s with cache := s.cache.setex s.now key ttl data }

/-- The pipeline is one transaction. -/
def registerPerformanceCache (s : PerformanceStore) (key : PerformanceKey) (ttl : ℚ) :
    PerformanceStore :=
  { s with
    index := fun date =>
      if key.Covers date then (s.index date).add s.now ttl key else s.index date }

def dropKeys (cache : ExpiringStore PerformanceKey PerformanceData) (keys : List PerformanceKey) :
    ExpiringStore PerformanceKey PerformanceData :=
  ⟨fun key => if key ∈ keys then none else cache.entries key⟩

def PerformanceStore.drop (s : PerformanceStore) (keys : List PerformanceKey) : PerformanceStore :=
  { s with cache := dropKeys s.cache keys }

/-- The last batch and the set are deleted by one command. -/
def PerformanceStore.finish (s : PerformanceStore) (date : DateOrdinal) (fill : ℕ)
    (keys : List PerformanceKey) : PerformanceStore :=
  { s.drop keys with
    index := Function.update s.index date ((s.index date).delete s.now)
    invalidated := fill :: s.invalidated }

/-- `SSCAN` returns what is in the set from its start to its end. -/
def scanIsComplete (index : DateIndex) (now : ℚ) (atStart : List PerformanceKey) (generation : ℕ)
    (returned : List PerformanceKey) : Bool :=
  now < index.expiry ∧ generation = index.generation → ∀ key ∈ atStart, key ∈ returned

def performanceAct (hash : String → String) (ttl : ℚ) (_ : ℕ) (s : PerformanceStore) :
    PerformanceCall → PerformanceAction → PerformanceStore × PerformanceCall
  | call, .tick now => ({ s with now := max s.now now }, call)
  | .idle, .request request =>
      (s,
        match s.cache.get s.now (createPerformanceCacheKey hash request) with
        | some _ => .idle
        | none => .missed request)
  | .missed request, .readDb =>
      (s,
        match dailyPerformance s.fills request with
        | .ok data => .computed request data
        | .error _ => .idle)
  | .computed request data, .set =>
      (s.put (createPerformanceCacheKey hash request) ttl data, .stored request)
  | .stored request, .register =>
      (registerPerformanceCache s (createPerformanceCacheKey hash request) ttl, .idle)
  | .idle, .book fill =>
      ({ s with fills := s.fills ++ [fill] },
        if fill.viaWebhook then .committed fill.date s.fills.length else .idle)
  | .committed date fill, .startScan =>
      (s, .scanning date fill ((s.index date).current s.now) (s.index date).generation [] [])
  | .scanning date fill atStart generation returned batch, .scanNext key =>
      (s,
        if batch.length < batchSize then
          .scanning date fill atStart generation (key :: returned) (batch ++ [key])
        else .scanning date fill atStart generation returned batch)
  | .scanning date fill atStart generation returned batch, .flush =>
      if batchSize ≤ batch.length then
        (s.drop batch, .scanning date fill atStart generation returned [])
      else (s, .scanning date fill atStart generation returned batch)
  | .scanning date fill atStart generation returned batch, .endScan =>
      if batch.length < batchSize ∧
          scanIsComplete (s.index date) s.now atStart generation returned = true then
        (s.finish date fill batch, .idle)
      else (s, .scanning date fill atStart generation returned batch)
  | _, .fail => (s, .idle)
  | call, _ => (s, call)

abbrev PerformanceRun := Threads ℕ PerformanceStore PerformanceCall

def performanceStep (hash : String → String) (ttl : ℚ) (s : PerformanceRun)
    (move : ℕ × PerformanceAction) : PerformanceRun :=
  interleave (performanceAct hash ttl) s move

/-- Nothing is cached. -/
def emptyPerformance (fills : List PerformanceFill) (now : ℚ) : PerformanceRun where
  shared :=
    { now
      fills
      cache := .empty
      index := fun _ => ⟨[], now, 0⟩
      invalidated := [] }
  loc := fun _ => .idle

/-- From the read of the database to the registration. -/
def Reading (key : PerformanceKey) (hash : String → String) : PerformanceCall → Prop
  | .computed request _ => createPerformanceCacheKey hash request = key
  | .stored request => createPerformanceCacheKey hash request = key
  | _ => False

/-- From the commit of the fill to the end of the invalidation. -/
def Invalidating (date : DateOrdinal) : PerformanceCall → Prop
  | .committed date' _ => date' = date
  | .scanning date' _ _ _ _ _ => date' = date
  | _ => False

/-- No request is between its read and its registration while a fill of a date of its range is
between its commit and the end of its invalidation. -/
def NoOverlap (hash : String → String) (s : PerformanceRun) : Prop :=
  ∀ i j key date, Reading key hash (s.loc i) → Invalidating date (s.loc j) → ¬ key.Covers date

/-! ## What the cache holds -/

section Invariant

variable {hash : String → String} {ttl : ℚ} {s s' : PerformanceStore} {key : PerformanceKey}
  {data : PerformanceData} {expiry : ℚ} {call : PerformanceCall} {date : DateOrdinal}

def Live (s : PerformanceStore) (key : PerformanceKey) (data : PerformanceData) (expiry : ℚ) :
    Prop := s.cache.entries key = some (data, expiry) ∧ s.now < expiry

/-- The data of the request over the first fills, where the others of its range are none that were
invalidated. -/
def UpToDate (hash : String → String) (s : PerformanceStore) (key : PerformanceKey)
    (data : PerformanceData) : Prop :=
  ∃ request, createPerformanceCacheKey hash request = key ∧ ∃ n, n ≤ s.fills.length ∧
    dailyPerformance (s.fills.take n) request = .ok data ∧
    ∀ j fill, s.fills[j]? = some fill → n ≤ j → key.Covers fill.date → fill.viaWebhook = true →
      j ∉ s.invalidated

structure CacheInv (hash : String → String) (ttl : ℚ) (s : PerformanceStore) : Prop where
  upToDate : ∀ key data expiry, Live s key data expiry → UpToDate hash s key data
  bounded : ∀ key data expiry, s.cache.entries key = some (data, expiry) → expiry ≤ s.now + ttl
  invalidated : ∀ j ∈ s.invalidated, j < s.fills.length

/-- A live key of the date is in the batch, or the scan still has to return it. -/
def Due (s : PerformanceStore) (date : DateOrdinal) (atStart : List PerformanceKey)
    (generation : ℕ) (returned batch : List PerformanceKey) : Prop :=
  ∀ key data expiry, Live s key data expiry → key.Covers date →
    key ∈ batch ∨ (key ∈ atStart ∧ key ∉ returned ∧ generation = (s.index date).generation ∧
      expiry ≤ (s.index date).expiry)

def BookedOn (s : PerformanceStore) (date : DateOrdinal) (j : ℕ) : Prop :=
  ∃ fill, s.fills[j]? = some fill ∧ fill.date = date

def CallOk (hash : String → String) (s : PerformanceStore) : PerformanceCall → Prop
  | .computed request data => ∃ n, n ≤ s.fills.length ∧
      dailyPerformance (s.fills.take n) request = .ok data ∧
      ∀ j fill, s.fills[j]? = some fill → n ≤ j →
        (createPerformanceCacheKey hash request).Covers fill.date → fill.viaWebhook = false
  | .committed date j => BookedOn s date j
  | .scanning date j atStart generation returned batch =>
      BookedOn s date j ∧ Due s date atStart generation returned batch
  | _ => True

/-- A live key is in the sets of all its dates, unless its registration is still to come. -/
def Registered (hash : String → String) (s : PerformanceRun) : Prop :=
  ∀ key data expiry, Live s.shared key data expiry →
    (∃ i request, s.loc i = .stored request ∧ createPerformanceCacheKey hash request = key) ∨
      ∀ date, key.Covers date →
        key ∈ (s.shared.index date).members ∧ expiry ≤ (s.shared.index date).expiry

structure PerformanceInv (hash : String → String) (ttl : ℚ) (s : PerformanceRun) : Prop where
  threads : AllThreads (CacheInv hash ttl) (fun _ => CallOk hash) s
  registered : Registered hash s

theorem live_dropKeys {keys : List PerformanceKey}
    (h : Live (s.drop keys) key data expiry) :
    Live s key data expiry ∧ key ∉ keys := by
  obtain ⟨hentry, hlive⟩ := h
  have hentry : (if key ∈ keys then none else s.cache.entries key) = some (data, expiry) := hentry
  by_cases hin : key ∈ keys
  · rw [if_pos hin] at hentry
    cases hentry
  · rw [if_neg hin] at hentry
    exact ⟨⟨hentry, hlive⟩, hin⟩

theorem bounded_dropKeys (h : CacheInv hash ttl s) (keys : List PerformanceKey) :
    ∀ key data expiry, (dropKeys s.cache keys).entries key = some (data, expiry) →
      expiry ≤ s.now + ttl := by
  intro key data expiry hentry
  have hentry : (if key ∈ keys then none else s.cache.entries key) = some (data, expiry) := hentry
  split at hentry
  · cases hentry
  · exact h.bounded key data expiry hentry

/-- What one step of another call may do to the store, as far as a call is concerned. -/
theorem CallOk.mono (h : CallOk hash s call) (hfills : s'.fills = s.fills)
    (hindex : ∀ date, Invalidating date call → s'.index date = s.index date)
    (hlive : ∀ date, Invalidating date call → ∀ key data expiry, key.Covers date →
      Live s' key data expiry → Live s key data expiry) :
    CallOk hash s' call := by
  cases call with
  | computed request data =>
      rw [CallOk, hfills]
      exact h
  | committed date j =>
      rw [CallOk, BookedOn, hfills]
      exact h
  | scanning date j atStart generation returned batch =>
      obtain ⟨hbooked, hdue⟩ := h
      refine ⟨by rw [BookedOn, hfills]; exact hbooked, fun key data expiry hl hcovers => ?_⟩
      rw [hindex date rfl]
      exact hdue key data expiry (hlive date rfl key data expiry hcovers hl) hcovers
  | _ => trivial

end Invariant

/-! ## The steps -/

section Steps

variable {hash : String → String} {ttl : ℚ} {s : PerformanceRun} {s' : PerformanceStore}
  {call' : PerformanceCall} {i : ℕ} {date : DateOrdinal} {j : ℕ}
  {atStart returned batch : List PerformanceKey} {generation : ℕ}

/-- A call that is not about to register leaves the registrations of the others to be done. -/
theorem Registered.mono (h : Registered hash s) (hcall : ∀ request, s.loc i ≠ .stored request)
    (hlive : ∀ key data expiry, Live s' key data expiry → Live s.shared key data expiry)
    (hindex : ∀ key data expiry date, Live s' key data expiry → key.Covers date →
      s'.index date = s.shared.index date) :
    Registered hash ⟨s', Function.update s.loc i call'⟩ := by
  intro key data expiry hl
  rcases h key data expiry (hlive key data expiry hl) with ⟨i', request, hloc, hkey⟩ | hall
  · refine .inl ⟨i', request, ?_, hkey⟩
    have hne : i' ≠ i := fun heq => hcall request (heq ▸ hloc)
    exact (Function.update_of_ne hne ..).trans hloc
  · refine .inr fun date hcovers => ?_
    show key ∈ (s'.index date).members ∧ expiry ≤ (s'.index date).expiry
    rw [hindex key data expiry date hl hcovers]
    exact hall date hcovers

/-- The store is left as it is; the call goes on to another place. -/
theorem PerformanceInv.goto (h : PerformanceInv hash ttl s)
    (hcall : ∀ request, s.loc i ≠ .stored request) (hown : CallOk hash s.shared call') :
    PerformanceInv hash ttl ⟨s.shared, Function.update s.loc i call'⟩ where
  threads :=
    { shared := h.threads.shared
      thread := fun k => by
        by_cases hk : k = i
        · rw [hk]
          show CallOk hash s.shared (Function.update s.loc i call' i)
          rw [Function.update_self]
          exact hown
        · show CallOk hash s.shared (Function.update s.loc i call' k)
          rw [Function.update_of_ne hk]
          exact h.threads.thread k }
  registered := h.registered.mono hcall (fun _ _ _ hl => hl) fun _ _ _ _ _ _ => rfl

theorem PerformanceInv.stay (h : PerformanceInv hash ttl s) {call : PerformanceCall}
    (hloc : s.loc i = call) :
    PerformanceInv hash ttl ⟨s.shared, Function.update s.loc i call⟩ := by
  rw [← hloc, Function.update_eq_self]
  exact h

theorem allThreads_update (hshared : CacheInv hash ttl s') (hown : CallOk hash s' call')
    (hothers : ∀ k, k ≠ i → CallOk hash s' (s.loc k)) :
    AllThreads (CacheInv hash ttl) (fun _ => CallOk hash)
      (⟨s', Function.update s.loc i call'⟩ : PerformanceRun) where
  shared := hshared
  thread := fun k => by
    by_cases hk : k = i
    · rw [hk]
      show CallOk hash s' (Function.update s.loc i call' i)
      rw [Function.update_self]
      exact hown
    · show CallOk hash s' (Function.update s.loc i call' k)
      rw [Function.update_of_ne hk]
      exact hothers k hk

theorem performanceInv_tick (h : PerformanceInv hash ttl s) (now : ℚ) :
    PerformanceInv hash ttl
      ⟨{ s.shared with now := max s.shared.now now }, Function.update s.loc i (s.loc i)⟩ := by
  have hlive : ∀ key data expiry,
      Live { s.shared with now := max s.shared.now now } key data expiry →
        Live s.shared key data expiry :=
    fun key data expiry hl => ⟨hl.1, lt_of_le_of_lt (le_max_left ..) hl.2⟩
  have hmono : ∀ call, CallOk hash s.shared call →
      CallOk hash { s.shared with now := max s.shared.now now } call :=
    fun call hcall => hcall.mono rfl (fun _ _ => rfl) fun _ _ key data expiry _ =>
      hlive key data expiry
  refine ⟨allThreads_update ⟨fun key data expiry hl => ?_, fun key data expiry hentry => ?_, ?_⟩
    (hmono _ (h.threads.thread i)) fun k _ => hmono _ (h.threads.thread k), ?_⟩
  · exact h.threads.shared.upToDate key data expiry (hlive key data expiry hl)
  · have hle := h.threads.shared.bounded key data expiry hentry
    have hnow : s.shared.now ≤ max s.shared.now now := le_max_left ..
    show expiry ≤ max s.shared.now now + ttl
    linarith
  · exact h.threads.shared.invalidated
  · intro key data expiry hl
    rw [Function.update_eq_self]
    exact h.registered key data expiry (hlive key data expiry hl)

theorem performanceInv_set (h : PerformanceInv hash ttl s) (hno : NoOverlap hash s)
    {request : PerformanceRequest} {data : PerformanceData}
    (hloc : s.loc i = .computed request data) :
    PerformanceInv hash ttl
      ⟨s.shared.put (createPerformanceCacheKey hash request) ttl data,
        Function.update s.loc i (.stored request)⟩ := by
  have hcomputed : CallOk hash s.shared (.computed request data) := hloc ▸ h.threads.thread i
  obtain ⟨n, hn, hdata, hbooked⟩ := hcomputed
  have hreading : Reading (createPerformanceCacheKey hash request) hash (s.loc i) := by
    rw [hloc]
    rfl
  have hold : ∀ key data' expiry, key ≠ createPerformanceCacheKey hash request →
      Live (s.shared.put (createPerformanceCacheKey hash request) ttl data) key data' expiry →
        Live s.shared key data' expiry := by
    intro key data' expiry hne hl
    exact ⟨(ExpiringStore.entries_setex_of_ne hne).symm.trans hl.1, hl.2⟩
  have hnew : ∀ data' expiry,
      (s.shared.put (createPerformanceCacheKey hash request) ttl data).cache.entries
          (createPerformanceCacheKey hash request) = some (data', expiry) →
        data' = data ∧ expiry = s.shared.now + ttl := by
    intro data' expiry hentry
    rw [PerformanceStore.put, ExpiringStore.entries_setex_self, Option.some.injEq,
      Prod.mk.injEq] at hentry
    exact ⟨hentry.1.symm, hentry.2.symm⟩
  refine ⟨allThreads_update ⟨fun key data' expiry hl => ?_, fun key data' expiry hentry => ?_, ?_⟩
    trivial fun k _ => ?_, ?_⟩
  · by_cases hkey : key = createPerformanceCacheKey hash request
    · subst hkey
      obtain ⟨hsame, _⟩ := hnew data' expiry hl.1
      rw [hsame]
      refine ⟨request, rfl, n, hn, hdata, fun m fill hget hle hcovers hwebhook => ?_⟩
      have hnot := hbooked m fill hget hle hcovers
      rw [hwebhook] at hnot
      cases hnot
    · exact h.threads.shared.upToDate key data' expiry (hold key data' expiry hkey hl)
  · by_cases hkey : key = createPerformanceCacheKey hash request
    · subst hkey
      exact (hnew data' expiry hentry).2.le
    · exact h.threads.shared.bounded key data' expiry
        ((ExpiringStore.entries_setex_of_ne hkey).symm.trans hentry)
  · exact h.threads.shared.invalidated
  · refine (h.threads.thread k).mono rfl (fun _ _ => rfl) fun d hd key data' expiry hcovers hl => ?_
    refine hold key data' expiry (fun hkey => ?_) hl
    exact hno i k _ d hreading hd (hkey ▸ hcovers)
  · intro key data' expiry hl
    by_cases hkey : key = createPerformanceCacheKey hash request
    · exact .inl ⟨i, request, Function.update_self .., hkey.symm⟩
    · rcases h.registered key data' expiry (hold key data' expiry hkey hl) with
        ⟨i', request', hloc', hkey'⟩ | hall
      · have hne : i' ≠ i := by
          rintro rfl
          rw [hloc] at hloc'
          cases hloc'
        exact .inl ⟨i', request', (Function.update_of_ne hne ..).trans hloc', hkey'⟩
      · exact .inr hall

theorem performanceInv_register (h : PerformanceInv hash ttl s) (hno : NoOverlap hash s)
    {request : PerformanceRequest} (hloc : s.loc i = .stored request) :
    PerformanceInv hash ttl
      ⟨registerPerformanceCache s.shared (createPerformanceCacheKey hash request) ttl,
        Function.update s.loc i .idle⟩ := by
  have hreading : Reading (createPerformanceCacheKey hash request) hash (s.loc i) := by
    rw [hloc]
    rfl
  refine ⟨allThreads_update
    ⟨h.threads.shared.upToDate, h.threads.shared.bounded, h.threads.shared.invalidated⟩ trivial
    fun k _ => ?_, fun key data expiry hl => ?_⟩
  · refine (h.threads.thread k).mono rfl (fun d hd => ?_) fun _ _ _ _ _ _ hl => hl
    exact if_neg (hno i k _ d hreading hd)
  · have hlive : Live s.shared key data expiry := hl
    have hin : ∀ date, key.Covers date →
        (key = createPerformanceCacheKey hash request ∨
          key ∈ (s.shared.index date).members ∧ expiry ≤ (s.shared.index date).expiry) →
        key ∈ ((registerPerformanceCache s.shared (createPerformanceCacheKey hash request)
          ttl).index date).members ∧
        expiry ≤ ((registerPerformanceCache s.shared (createPerformanceCacheKey hash request)
          ttl).index date).expiry := by
      intro date hcovers hcase
      simp only [registerPerformanceCache]
      by_cases hrange : (createPerformanceCacheKey hash request).Covers date
      · rw [if_pos hrange]
        refine ⟨?_, h.threads.shared.bounded key data expiry hlive.1⟩
        rcases hcase with hkey | ⟨hmem, hexpiry⟩
        · exact hkey ▸ List.mem_cons_self
        · refine List.mem_cons_of_mem _ ?_
          rw [DateIndex.current, if_pos (lt_of_lt_of_le hlive.2 hexpiry)]
          exact hmem
      · rw [if_neg hrange]
        rcases hcase with hkey | hold
        · exact absurd (hkey ▸ hcovers) hrange
        · exact hold
    rcases h.registered key data expiry hlive with ⟨i', request', hloc', hkey'⟩ | hall
    · by_cases hne : i' = i
      · subst hne
        rw [hloc] at hloc'
        cases hloc'
        exact .inr fun date hcovers => hin date hcovers (.inl hkey'.symm)
      · exact .inl ⟨i', request', (Function.update_of_ne hne ..).trans hloc', hkey'⟩
    · exact .inr fun date hcovers => hin date hcovers (.inr (hall date hcovers))

theorem performanceInv_readDb (h : PerformanceInv hash ttl s) {request : PerformanceRequest}
    (hloc : s.loc i = .missed request) :
    PerformanceInv hash ttl ⟨s.shared, Function.update s.loc i
      (match dailyPerformance s.shared.fills request with
        | .ok data => .computed request data
        | .error _ => .idle)⟩ := by
  refine h.goto (by simp [hloc]) ?_
  cases hdata : dailyPerformance s.shared.fills request with
  | error => trivial
  | ok data =>
      refine ⟨s.shared.fills.length, le_rfl, by rw [List.take_length]; exact hdata, ?_⟩
      intro j fill hget hle
      have hlt := (List.getElem?_eq_some_iff.1 hget).1
      omega

/-- The positions of the fills stay when one is booked. -/
theorem getElem?_booked {fills : List PerformanceFill} {fill other : PerformanceFill}
    (hget : (fills ++ [fill])[j]? = some other) :
    fills[j]? = some other ∨ j = fills.length ∧ other = fill := by
  rcases lt_trichotomy j fills.length with hlt | heq | hgt
  · rw [List.getElem?_append_left hlt] at hget
    exact .inl hget
  · rw [heq, List.getElem?_concat_length] at hget
    exact .inr ⟨heq, (Option.some.inj hget).symm⟩
  · rw [List.getElem?_eq_none (by simp; omega)] at hget
    cases hget

theorem performanceInv_book (h : PerformanceInv hash ttl s) {fill : PerformanceFill}
    (hidle : s.loc i = .idle)
    (hno : ∀ k request data, s.loc k = .computed request data → fill.viaWebhook = true →
      ¬ (createPerformanceCacheKey hash request).Covers fill.date) :
    PerformanceInv hash ttl
      ⟨{ s.shared with fills := s.shared.fills ++ [fill] },
        Function.update s.loc i
          (if fill.viaWebhook then .committed fill.date s.shared.fills.length else .idle)⟩ := by
  have hinv := h.threads.shared
  have hlength : s.shared.fills.length ≤ (s.shared.fills ++ [fill]).length := by simp
  have hbooked : ∀ date j, BookedOn s.shared date j →
      BookedOn { s.shared with fills := s.shared.fills ++ [fill] } date j := by
    rintro date j ⟨other, hget, hdate⟩
    have hlt := (List.getElem?_eq_some_iff.1 hget).1
    exact ⟨other, (List.getElem?_append_left hlt).trans hget, hdate⟩
  refine ⟨allThreads_update ⟨fun key data expiry hl => ?_, hinv.bounded, fun k hk => ?_⟩ ?_
    fun k _ => ?_, ?_⟩
  · obtain ⟨request, hkey, n, hn, hdata, hlate⟩ := hinv.upToDate key data expiry hl
    refine ⟨request, hkey, n, hn.trans hlength, ?_, fun m other hget hle hcovers hwebhook => ?_⟩
    · rw [List.take_append_of_le_length hn]
      exact hdata
    · rcases getElem?_booked hget with hold | ⟨hm, _⟩
      · exact hlate m other hold hle hcovers hwebhook
      · intro hin
        have hlt := hinv.invalidated m hin
        omega
  · exact lt_of_lt_of_le (hinv.invalidated k hk) hlength
  · split
    · exact ⟨fill, List.getElem?_concat_length .., rfl⟩
    · trivial
  · have hcall := h.threads.thread k
    cases hloc : s.loc k with
    | computed request data =>
        rw [hloc] at hcall
        obtain ⟨n, hn, hdata, hnone⟩ := hcall
        refine ⟨n, hn.trans hlength, ?_, fun m other hget hle hcovers => ?_⟩
        · rw [List.take_append_of_le_length hn]
          exact hdata
        · rcases getElem?_booked hget with hold | ⟨_, hother⟩
          · exact hnone m other hold hle hcovers
          · rw [hother] at hcovers ⊢
            exact Bool.eq_false_iff.2 fun hwebhook => hno k request data hloc hwebhook hcovers
    | committed date j =>
        rw [hloc] at hcall
        exact hbooked date j hcall
    | scanning date j atStart generation returned batch =>
        rw [hloc] at hcall
        exact ⟨hbooked date j hcall.1, hcall.2⟩
    | _ => trivial
  · exact h.registered.mono (by simp [hidle]) (fun _ _ _ hl => hl) fun _ _ _ _ _ _ => rfl

theorem performanceInv_startScan (h : PerformanceInv hash ttl s) (hno : NoOverlap hash s)
    (hloc : s.loc i = .committed date j) :
    PerformanceInv hash ttl ⟨s.shared, Function.update s.loc i
      (.scanning date j ((s.shared.index date).current s.shared.now)
        (s.shared.index date).generation [] [])⟩ := by
  have hbooked : CallOk hash s.shared (.committed date j) := hloc ▸ h.threads.thread i
  refine h.goto (by simp [hloc]) ⟨hbooked, fun key data expiry hl hcovers => .inr ?_⟩
  have hinvalidating : Invalidating date (s.loc i) := by
    rw [hloc]
    rfl
  rcases h.registered key data expiry hl with ⟨k, request, hstored, hkey⟩ | hall
  · refine absurd hcovers (hno k i key date ?_ hinvalidating)
    rw [hstored]
    exact hkey
  · obtain ⟨hmem, hexpiry⟩ := hall date hcovers
    refine ⟨?_, List.not_mem_nil, rfl, hexpiry⟩
    rw [DateIndex.current, if_pos (lt_of_lt_of_le hl.2 hexpiry)]
    exact hmem

theorem performanceInv_scanNext (h : PerformanceInv hash ttl s)
    (hloc : s.loc i = .scanning date j atStart generation returned batch) (key : PerformanceKey) :
    PerformanceInv hash ttl ⟨s.shared, Function.update s.loc i
      (if batch.length < batchSize then
        .scanning date j atStart generation (key :: returned) (batch ++ [key])
      else .scanning date j atStart generation returned batch)⟩ := by
  have hscan : CallOk hash s.shared (.scanning date j atStart generation returned batch) :=
    hloc ▸ h.threads.thread i
  refine h.goto (by simp [hloc]) ?_
  split
  · refine ⟨hscan.1, fun key' data expiry hl hcovers => ?_⟩
    rcases hscan.2 key' data expiry hl hcovers with hbatch | ⟨hstart, hnot, hrest⟩
    · exact .inl (List.mem_append_left _ hbatch)
    · by_cases hkey : key' = key
      · exact .inl (List.mem_append_right _ (by simp [hkey]))
      · exact .inr ⟨hstart, by simp [hkey, hnot], hrest⟩
  · exact hscan

theorem performanceInv_flush (h : PerformanceInv hash ttl s)
    (hloc : s.loc i = .scanning date j atStart generation returned batch) :
    PerformanceInv hash ttl
      ⟨s.shared.drop batch,
        Function.update s.loc i (.scanning date j atStart generation returned [])⟩ := by
  have hscan : CallOk hash s.shared (.scanning date j atStart generation returned batch) :=
    hloc ▸ h.threads.thread i
  have hinv := h.threads.shared
  refine ⟨allThreads_update
    ⟨fun key data expiry hl => hinv.upToDate key data expiry (live_dropKeys hl).1,
      bounded_dropKeys hinv batch, hinv.invalidated⟩
    ⟨hscan.1, fun key data expiry hl hcovers => ?_⟩ fun k _ => ?_, ?_⟩
  · obtain ⟨hold, hnot⟩ := live_dropKeys hl
    rcases hscan.2 key data expiry hold hcovers with hbatch | hrest
    · exact absurd hbatch hnot
    · exact .inr hrest
  · exact (h.threads.thread k).mono rfl (fun _ _ => rfl) fun _ _ _ _ _ _ hl => (live_dropKeys hl).1
  · exact h.registered.mono (by simp [hloc]) (fun _ _ _ hl => (live_dropKeys hl).1)
      fun _ _ _ _ _ _ => rfl

/-- When the scan is over, nothing that covers the date is left but what it deletes. -/
theorem not_covers_of_scanned (h : PerformanceInv hash ttl s)
    (hloc : s.loc i = .scanning date j atStart generation returned batch)
    (hcomplete : scanIsComplete (s.shared.index date) s.shared.now atStart generation returned =
      true) {key : PerformanceKey} {data : PerformanceData} {expiry : ℚ}
    (hl : Live (s.shared.drop batch) key data expiry) : ¬ key.Covers date := by
  have hscan : CallOk hash s.shared (.scanning date j atStart generation returned batch) :=
    hloc ▸ h.threads.thread i
  obtain ⟨hold, hnot⟩ := live_dropKeys hl
  intro hcovers
  rcases hscan.2 key data expiry hold hcovers with hbatch | ⟨hstart, hmissing, hgeneration, hexpiry⟩
  · exact hnot hbatch
  · rw [scanIsComplete, decide_eq_true_eq] at hcomplete
    exact hmissing (hcomplete ⟨lt_of_lt_of_le hold.2 hexpiry, hgeneration⟩ key hstart)

theorem performanceInv_endScan (h : PerformanceInv hash ttl s)
    (hloc : s.loc i = .scanning date j atStart generation returned batch)
    (hcomplete : scanIsComplete (s.shared.index date) s.shared.now atStart generation returned =
      true) :
    PerformanceInv hash ttl
      ⟨s.shared.finish date j batch, Function.update s.loc i .idle⟩ := by
  have hscan : CallOk hash s.shared (.scanning date j atStart generation returned batch) :=
    hloc ▸ h.threads.thread i
  obtain ⟨fill, hget, hdate⟩ := hscan.1
  have hinv := h.threads.shared
  have hgone : ∀ key data expiry, Live (s.shared.finish date j batch) key data expiry →
      Live s.shared key data expiry ∧ ¬ key.Covers date :=
    fun key data expiry hl => ⟨(live_dropKeys (hl : Live (s.shared.drop batch) key data expiry)).1,
      not_covers_of_scanned h hloc hcomplete hl⟩
  refine ⟨allThreads_update ⟨fun key data expiry hl => ?_, bounded_dropKeys hinv batch,
    fun k hk => ?_⟩ trivial fun k _ => ?_, ?_⟩
  · obtain ⟨hold, hnot⟩ := hgone key data expiry hl
    obtain ⟨request, hkey, n, hn, hdata, hlate⟩ := hinv.upToDate key data expiry hold
    refine ⟨request, hkey, n, hn, hdata, fun m other hother hle hcovers hwebhook hin => ?_⟩
    rcases List.mem_cons.1 hin with hm | hin
    · rw [hm] at hother
      have hsame : fill = other := Option.some.inj (hget.symm.trans hother)
      rw [← hsame, hdate] at hcovers
      exact hnot hcovers
    · exact hlate m other hother hle hcovers hwebhook hin
  · rcases List.mem_cons.1 hk with hnew | hold
    · rw [hnew]
      exact (List.getElem?_eq_some_iff.1 hget).1
    · exact hinv.invalidated k hold
  · have hcall := h.threads.thread k
    cases hk : s.loc k with
    | scanning date' j' atStart' generation' returned' batch' =>
        rw [hk] at hcall
        refine ⟨hcall.1, fun key data expiry hl hcovers => ?_⟩
        obtain ⟨hold, hnot⟩ := hgone key data expiry hl
        have hother : (s.shared.finish date j batch).index date' = s.shared.index date' :=
          Function.update_of_ne (fun hsame : date' = date => hnot (hsame ▸ hcovers)) ..
        rw [hother]
        exact hcall.2 key data expiry hold hcovers
    | computed =>
        rw [hk] at hcall
        exact hcall
    | committed =>
        rw [hk] at hcall
        exact hcall
    | _ => trivial
  · refine h.registered.mono (by simp [hloc])
      (fun key data expiry hl => (hgone key data expiry hl).1)
      fun key data expiry date' hl hcovers => ?_
    have hne : date' ≠ date := fun hsame => (hgone key data expiry hl).2 (hsame ▸ hcovers)
    exact Function.update_of_ne hne ..

/-- The registration goes through. -/
def Registers (s : PerformanceRun) (move : ℕ × PerformanceAction) : Prop :=
  ∀ request, s.loc move.1 = .stored request → move.2 ≠ .fail

theorem performanceInv_step {move : ℕ × PerformanceAction} (h : PerformanceInv hash ttl s)
    (hno : NoOverlap hash s) (hno' : NoOverlap hash (performanceStep hash ttl s move))
    (hregisters : Registers s move) :
    PerformanceInv hash ttl (performanceStep hash ttl s move) := by
  obtain ⟨i, action⟩ := move
  show PerformanceInv hash ttl ⟨(performanceAct hash ttl i s.shared (s.loc i) action).1,
    Function.update s.loc i (performanceAct hash ttl i s.shared (s.loc i) action).2⟩
  cases action with
  | tick now =>
      have hact : performanceAct hash ttl i s.shared (s.loc i) (.tick now) =
          ({ s.shared with now := max s.shared.now now }, s.loc i) := by
        cases s.loc i <;> rfl
      rw [hact]
      exact performanceInv_tick h now
  | fail =>
      cases hloc : s.loc i with
      | stored request => exact absurd rfl (hregisters request hloc)
      | _ => exact h.goto (by simp [hloc]) trivial
  | request request =>
      cases hloc : s.loc i with
      | idle =>
          refine h.goto (by simp [hloc]) ?_
          show CallOk hash s.shared
            (match s.shared.cache.get s.shared.now (createPerformanceCacheKey hash request) with
            | some _ => .idle
            | none => .missed request)
          split <;> trivial
      | _ => exact h.stay hloc
  | readDb =>
      cases hloc : s.loc i with
      | missed request => exact performanceInv_readDb h hloc
      | _ => exact h.stay hloc
  | set =>
      cases hloc : s.loc i with
      | computed request data => exact performanceInv_set h hno hloc
      | _ => exact h.stay hloc
  | register =>
      cases hloc : s.loc i with
      | stored request => exact performanceInv_register h hno hloc
      | _ => exact h.stay hloc
  | book fill =>
      cases hloc : s.loc i with
      | idle =>
          refine performanceInv_book h hloc fun k request data hk hwebhook => ?_
          have hne : k ≠ i := by
            rintro rfl
            rw [hloc] at hk
            cases hk
          have hreading : (performanceStep hash ttl s (i, .book fill)).loc k =
              .computed request data := (interleave_loc_of_ne hne).trans hk
          have hcommitted : (performanceStep hash ttl s (i, .book fill)).loc i =
              .committed fill.date s.shared.fills.length := by
            refine (Function.update_self ..).trans ?_
            rw [hloc]
            exact if_pos hwebhook
          refine hno' k i _ fill.date ?_ ?_
          · rw [hreading]
            rfl
          · rw [hcommitted]
            rfl
      | _ => exact h.stay hloc
  | startScan =>
      cases hloc : s.loc i with
      | committed date j => exact performanceInv_startScan h hno hloc
      | _ => exact h.stay hloc
  | scanNext key =>
      cases hloc : s.loc i with
      | scanning date j atStart generation returned batch =>
          exact performanceInv_scanNext h hloc key
      | _ => exact h.stay hloc
  | flush =>
      cases hloc : s.loc i with
      | scanning date j atStart generation returned batch =>
          by_cases hfull : batchSize ≤ batch.length
          · rw [performanceAct, if_pos hfull]
            exact performanceInv_flush h hloc
          · rw [performanceAct, if_neg hfull]
            exact h.stay hloc
      | _ => exact h.stay hloc
  | endScan =>
      cases hloc : s.loc i with
      | scanning date j atStart generation returned batch =>
          by_cases hend : batch.length < batchSize ∧
              scanIsComplete (s.shared.index date) s.shared.now atStart generation returned = true
          · rw [performanceAct, if_pos hend]
            exact performanceInv_endScan h hloc hend.2
          · rw [performanceAct, if_neg hend]
            exact h.stay hloc
      | _ => exact h.stay hloc

theorem performanceInv_run {moves : List (ℕ × PerformanceAction)} (h : PerformanceInv hash ttl s)
    (hno : EveryState (performanceStep hash ttl) (NoOverlap hash) s moves)
    (hregisters : EachStep (performanceStep hash ttl) Registers s moves) :
    PerformanceInv hash ttl (run (performanceStep hash ttl) s moves) := by
  induction moves generalizing s with
  | nil => exact h
  | cons move moves ih =>
      exact ih (performanceInv_step h hno.1 hno.2.head hregisters.1) hno.2 hregisters.2

end Steps

/-- A gain on the fifth of March 2024. -/
def marchFill : PerformanceFill := ⟨⟨738950, by decide⟩, "alpha", 100, true⟩

def marchRequest : PerformanceRequest :=
  ⟨⟨738949, by decide⟩, ⟨738951, by decide⟩, ["alpha"], "trader"⟩

/-- The fill is booked and invalidated, then the dashboard asks for its day. -/
def marchMoves : List (ℕ × PerformanceAction) :=
  [(1, .book marchFill), (1, .startScan), (1, .endScan), (0, .request marchRequest),
    (0, .readDb), (0, .set), (0, .register)]

def marchData : PerformanceData :=
  ([⟨⟨738950, by decide⟩, 100, 100, 100, 0, 1⟩, ⟨⟨738951, by decide⟩, 0, 100, 100, 0, 0⟩], 100, 0)

/-- Without a booking, nothing begins an invalidation. -/
theorem quiet_step {hash : String → String} {ttl : ℚ} {s : PerformanceRun}
    {move : ℕ × PerformanceAction} (h : ∀ j date, ¬ Invalidating date (s.loc j))
    (hbook : ∀ fill, move.2 ≠ .book fill) :
    ∀ j date, ¬ Invalidating date ((performanceStep hash ttl s move).loc j) := by
  intro j date
  by_cases hj : j = move.1
  · subst hj
    rw [performanceStep, interleave_loc_self]
    obtain ⟨i, action⟩ := move
    cases hloc : s.loc i with
    | committed date' j => exact absurd (hloc ▸ rfl) (h i date')
    | scanning date' j atStart generation returned batch => exact absurd (hloc ▸ rfl) (h i date')
    | _ =>
      cases action with
      | book fill => exact absurd rfl (hbook fill)
      | _ => first | exact id | (unfold performanceAct; dsimp only; split <;> exact id)
  · rw [performanceStep, interleave_loc_of_ne hj]
    exact h j date

/-- The first call reads from its fourth step on, when the second one is done. -/
theorem noOverlap_march :
    EveryState (performanceStep id 300) (NoOverlap id) (emptyPerformance [] 0) marchMoves := by
  have hothers : ∀ action (s : PerformanceRun), (∀ i, i ≠ 1 → s.loc i = .idle) →
      ∀ i, i ≠ 1 → (performanceStep id 300 s (1, action)).loc i = .idle :=
    fun action s hidle i hi => (interleave_loc_of_ne hi).trans (hidle i hi)
  have hunread : ∀ (s : PerformanceRun), (∀ i, i ≠ 1 → s.loc i = .idle) →
      (∀ key, ¬ Reading key id (s.loc 1)) → NoOverlap id s := by
    intro s hidle hone i j key date hreading
    by_cases hi : i = 1
    · exact absurd (hi ▸ hreading) (hone key)
    · rw [hidle i hi] at hreading
      exact hreading.elim
  have hquiet : ∀ (s : PerformanceRun), (∀ j date, ¬ Invalidating date (s.loc j)) →
      NoOverlap id s :=
    fun s h _ j _ date _ hinvalidating => absurd hinvalidating (h j date)
  have hbooked := hothers (.book marchFill) (emptyPerformance [] 0) fun _ _ => rfl
  have hscanning := hothers .startScan _ hbooked
  have hdone : ∀ j date, ¬ Invalidating date
      ((run (performanceStep id 300) (emptyPerformance [] 0) (marchMoves.take 3)).loc j) := by
    intro j date
    by_cases hj : j = 1
    · subst hj
      exact id
    · exact (hothers .endScan _ hscanning j hj).symm ▸ id
  have hmissed := @quiet_step id 300 _ (0, .request marchRequest) hdone (by simp)
  have hcomputed := @quiet_step id 300 _ (0, .readDb) hmissed (by simp)
  have hstored := @quiet_step id 300 _ (0, .set) hcomputed (by simp)
  have hregistered := @quiet_step id 300 _ (0, .register) hstored (by simp)
  exact ⟨hunread _ (fun _ _ => rfl) fun _ => id, hunread _ hbooked fun _ => id,
    hunread _ hscanning fun _ => id, hquiet _ hdone, hquiet _ hmissed, hquiet _ hcomputed,
    hquiet _ hstored, hquiet _ hregistered⟩

end TradingPlatform.Gateway
