import TradingPlatform.Base.Cartesian
import Mathlib.Data.List.Nodup
import Mathlib.Data.List.Perm.Subperm
import Mathlib.Order.BoundedOrder.Basic
import Mathlib.Order.Lattice
import Mathlib.Order.Nat

/-! # Grid search and random search

Both searches score dictionaries of parameters and keep the first best one. Grid search enumerates
the grid; random search draws places of the grid and decodes each.
-/

namespace TradingPlatform.Backtest

open Base

variable {K V α : Type}

/-- A float: NaN, or a value of an order with a least one. -/
inductive Score (α : Type) where
  | nan
  | value (a : α)

/-- `-math.inf if math.isnan(score) else score` -/
def Score.comparable [Bot α] : Score α → α
  | .nan => ⊥
  | .value a => a

/-- A dictionary, by its items in the order they were inserted in. -/
abbrev Params (K V : Type) := List (K × V)

abbrev ParamGrid (K V : Type) := List (K × List V)

/-- `_grid_params_iterator` -/
def gridParams (grid : ParamGrid K V) : List (Params K V) :=
  match grid with
  | [] => [[]]
  | _ => (cartesian (grid.map Prod.snd)).map fun vals => (grid.map Prod.fst).zip vals

def totalCombos (grid : ParamGrid K V) : ℕ := combinations (grid.map Prod.snd)

/-- Every parameter has a value. -/
structure ValidGrid (grid : ParamGrid K V) : Prop where
  keys : (grid.map Prod.fst).Nodup
  values : ∀ entry ∈ grid, entry.2 ≠ []

/-- The dictionary that grid search enumerates at a place. -/
def paramsAt (grid : ParamGrid K V) (i : ℕ) : Params K V := (gridParams grid).getD i []

variable {grid : ParamGrid K V} {i : ℕ}

theorem gridParams_eq (grid : ParamGrid K V) : gridParams grid =
    (cartesian (grid.map Prod.snd)).map fun vals => (grid.map Prod.fst).zip vals := by
  cases grid <;> rfl

theorem length_gridParams (grid : ParamGrid K V) :
    (gridParams grid).length = totalCombos grid := by
  rw [gridParams_eq, List.length_map, length_cartesian, totalCombos]

theorem getElem?_gridParams (h : i < totalCombos grid) :
    (gridParams grid)[i]? = some (paramsAt grid i) := by
  rw [← length_gridParams] at h
  rw [paramsAt, List.getD_eq_getElem?_getD, List.getElem?_eq_getElem h]
  rfl

theorem map_fst_paramsAt (h : i < totalCombos grid) :
    (paramsAt grid i).map Prod.fst = grid.map Prod.fst := by
  have hmem := List.mem_of_getElem? (getElem?_gridParams h)
  rw [gridParams_eq, List.mem_map] at hmem
  obtain ⟨vals, hvals, heq⟩ := hmem
  have hlength := length_of_mem_cartesian hvals
  rw [← heq, List.map_fst_zip]
  simp [hlength]

theorem totalCombos_pos (hgrid : ValidGrid grid) : 0 < totalCombos grid := by
  apply combinations_pos
  intro values hvalues
  obtain ⟨entry, hentry, rfl⟩ := List.mem_map.mp hvalues
  exact hgrid.values entry hentry

theorem not_any_isEmpty (hgrid : ValidGrid grid) : ¬grid.any (·.2.isEmpty) = true := by
  simp only [List.any_eq_true, List.isEmpty_iff, not_exists, not_and]
  exact hgrid.values

/-! ## Dictionaries by their index -/

section

variable [DecidableEq K]

def Params.get : Params K V → K → Option V
  | [], _ => none
  | (key, value) :: items, k => if key = k then some value else Params.get items k

def Params.set (params : Params K V) (key : K) (value : V) : Params K V :=
  if key ∈ params.map Prod.fst then
    params.map fun item => if item.1 = key then (key, value) else item
  else params ++ [(key, value)]

/-- The entries from the last to the first, each taking its digit of what remains of the index. -/
def lazyParams : ParamGrid K V → ℕ → Params K V → Option (Params K V)
  | [], _, params => some params
  | (key, values) :: entries, remaining, params => do
      let value ← values[remaining % values.length]?
      lazyParams entries (remaining / values.length) (params.set key value)

/-- `_lazy_random_params_iterator` -/
def lazyRandomParams (grid : ParamGrid K V) (indices : List ℕ) : Option (List (Params K V)) :=
  match grid with
  | [] => some (indices.map fun _ => [])
  | _ => indices.mapM fun idx => lazyParams grid.reverse idx []

theorem Params.get_eq_some_iff {params : Params K V} (h : (params.map Prod.fst).Nodup) {key : K}
    {value : V} : params.get key = some value ↔ (key, value) ∈ params := by
  induction params with
  | nil => simp [Params.get]
  | cons item items ih =>
      rw [List.map_cons, List.nodup_cons] at h
      by_cases hkey : item.1 = key
      · have hout : (key, value) ∉ items := by
          intro hmem
          apply h.1
          rw [hkey]
          exact List.mem_map_of_mem hmem
        simp [Params.get, hkey, hout, Prod.ext_iff, eq_comm]
      · rw [Params.get, if_neg hkey, ih h.2, List.mem_cons, or_iff_right]
        rintro rfl
        exact hkey rfl

/-- The order of the items does not matter to a dictionary. -/
theorem Params.get_reverse {params : Params K V} (h : (params.map Prod.fst).Nodup) :
    Params.get params.reverse = params.get := by
  funext key
  apply Option.ext
  intro value
  rw [get_eq_some_iff h, get_eq_some_iff, List.mem_reverse]
  rw [List.map_reverse]
  exact List.nodup_reverse.mpr h

theorem Params.set_of_not_mem {params : Params K V} {key : K} (h : key ∉ params.map Prod.fst)
    (value : V) : params.set key value = params ++ [(key, value)] := if_neg h

/-- The digits of an index, taken from the last entry on, choose what the product lists at it. -/
theorem lazyParams_reverse (hkeys : (grid.map Prod.fst).Nodup)
    (hvalues : ∀ entry ∈ grid, entry.2 ≠ []) (h : i < totalCombos grid) (params : Params K V)
    (hparams : ∀ key ∈ grid.map Prod.fst, key ∉ params.map Prod.fst) : ∃ vals,
      (cartesian (grid.map Prod.snd))[i]? = some vals ∧ lazyParams grid.reverse i params =
        some (params ++ ((grid.map Prod.fst).zip vals).reverse) := by
  induction grid using List.reverseRecOn generalizing i params with
  | nil =>
      have hzero : i = 0 := by simpa [totalCombos, combinations] using h
      exact ⟨[], by simp [hzero, cartesian], by simp [lazyParams]⟩
  | append_singleton front entry ih =>
      obtain ⟨key, values⟩ := entry
      rw [List.map_append, List.map_singleton, List.nodup_append] at hkeys
      have hne : values ≠ [] := hvalues (key, values) (by simp)
      have hlength : 0 < values.length := List.length_pos_iff.mpr hne
      rw [totalCombos, List.map_append, List.map_singleton, combinations_concat] at h
      have hfront : i / values.length < totalCombos front := by
        rw [Nat.div_lt_iff_lt_mul hlength]
        exact h
      have hmod := Nat.mod_lt i hlength
      have hdigit : values[i % values.length]? = some (values[i % values.length]) :=
        List.getElem?_eq_getElem hmod
      have hset : params.set key values[i % values.length] =
          params ++ [(key, values[i % values.length])] :=
        Params.set_of_not_mem (hparams key (by simp)) _
      obtain ⟨vals, hvals, hlazy⟩ := ih hkeys.1 (fun e he => hvalues e (by simp [he])) hfront
        (params ++ [(key, values[i % values.length])]) (by
          intro key' hkey' hmem
          rw [List.map_append, List.mem_append] at hmem
          rcases hmem with hold | hnew
          · exact hparams key' (by simp [hkey']) hold
          · exact hkeys.2.2 key' hkey' key (by simp) (by simpa using hnew))
      refine ⟨vals ++ [values[i % values.length]], ?_, ?_⟩
      · rw [List.map_append, List.map_singleton, getElem?_cartesian_concat _ hne, hvals, hdigit]
        rfl
      · have hsize : (front.map Prod.fst).length = vals.length := by
          rw [length_of_mem_cartesian (List.mem_of_getElem? hvals)]
          simp
        rw [List.reverse_append, List.reverse_singleton, List.singleton_append, lazyParams, hdigit,
          List.map_append, List.map_singleton, List.zip_append hsize]
        simp only [Option.bind_eq_bind, Option.bind_some, hset, hlazy, List.reverse_append]
        simp

theorem lazyParams_eq (hgrid : ValidGrid grid) (h : i < totalCombos grid) :
    lazyParams grid.reverse i [] = some (paramsAt grid i).reverse := by
  obtain ⟨vals, hvals, hlazy⟩ := lazyParams_reverse hgrid.keys hgrid.values h [] (by simp)
  have hplace := getElem?_gridParams h
  rw [gridParams_eq, List.getElem?_map, hvals, Option.map_some, Option.some.injEq] at hplace
  rw [hlazy, hplace, List.nil_append]

/-- The iterator yields the dictionaries at its indices, their items in the other order. -/
theorem lazyRandomParams_eq (hgrid : ValidGrid grid) {indices : List ℕ}
    (h : ∀ i ∈ indices, i < totalCombos grid) :
    lazyRandomParams grid indices = some (indices.map fun i => (paramsAt grid i).reverse) := by
  unfold lazyRandomParams
  split
  · congr 1
    apply List.map_congr_left
    intro i hi
    have hzero : i = 0 := by simpa [totalCombos, combinations] using h i hi
    rw [hzero]
    rfl
  · induction indices with
    | nil => rfl
    | cons i indices ih =>
        rw [List.mapM_cons, lazyParams_eq hgrid (h i (by simp)),
          ih fun j hj => h j (by simp [hj])]
        rfl

theorem get_paramsAt_reverse (hgrid : ValidGrid grid) (h : i < totalCombos grid) :
    Params.get (paramsAt grid i).reverse = Params.get (paramsAt grid i) := by
  apply Params.get_reverse
  rw [map_fst_paramsAt h]
  exact hgrid.keys

variable (score : (K → Option V) → Score α)

/-- A score is a function of the dictionary, whatever the order of its items. -/
def scored (params : Params K V) : Params K V × Score α :=
  (params, score params.get)

def scoreAt (grid : ParamGrid K V) (i : ℕ) : Score α := score (Params.get (paramsAt grid i))

theorem gridParams_scored (grid : ParamGrid K V) : (gridParams grid).map (scored score) =
    (List.range (totalCombos grid)).map fun i => (paramsAt grid i, scoreAt score grid i) := by
  apply List.ext_getElem?
  intro i
  rw [List.getElem?_map, List.getElem?_map]
  by_cases h : i < totalCombos grid
  · rw [getElem?_gridParams h, List.getElem?_range h]
    rfl
  · rw [List.getElem?_eq_none (by rw [length_gridParams]; omega),
      List.getElem?_eq_none (by rw [List.length_range]; omega)]
    rfl

theorem lazyParams_scored (hgrid : ValidGrid grid) {indices : List ℕ}
    (h : ∀ i ∈ indices, i < totalCombos grid) :
    (indices.map fun i => (paramsAt grid i).reverse).map (scored score) =
      indices.map fun i => ((paramsAt grid i).reverse, scoreAt score grid i) := by
  rw [List.map_map]
  apply List.map_congr_left
  intro i hi
  simp only [Function.comp_apply, scored, scoreAt, get_paramsAt_reverse hgrid (h i hi)]

end

/-! ## The first best result -/

section

variable [LinearOrder α] {results results' : List (Params K V × Score α)}
  {best best' : Params K V × Score α}

/-- NaN loses to every other score. -/
def Score.Below : Score α → Score α → Prop
  | .nan, .nan => False
  | .nan, .value _ => True
  | .value _, .nan => False
  | .value a, .value b => a < b

/-- The first of the results with the highest score. -/
def FirstBest (results : List (Params K V × Score α)) (best : Params K V × Score α) : Prop :=
  ∃ before after, results = before ++ best :: after ∧ (∀ r ∈ before, r.2.Below best.2) ∧
    ∀ r ∈ after, ¬best.2.Below r.2

theorem Score.not_below_of_below {s t : Score α} (h : s.Below t) : ¬t.Below s := by
  cases s <;> cases t <;> simp_all [Below, le_of_lt]

theorem Score.eq_of_not_below {s t : Score α} (hst : ¬s.Below t) (hts : ¬t.Below s) : s = t := by
  cases s <;> cases t <;> simp_all [Below]
  exact le_antisymm hts hst

theorem FirstBest.not_below (h : FirstBest results best) :
    ∀ r ∈ results, ¬best.2.Below r.2 := by
  obtain ⟨before, after, rfl, hbefore, hafter⟩ := h
  intro r hr
  rcases List.mem_append.mp hr with hearlier | hlater
  · exact Score.not_below_of_below (hbefore r hearlier)
  · rcases List.mem_cons.mp hlater with hsame | hlater
    · rw [hsame]
      exact fun hbelow => Score.not_below_of_below hbelow hbelow
    · exact hafter r hlater

theorem FirstBest.mem (h : FirstBest results best) : best ∈ results := by
  obtain ⟨before, after, rfl, _⟩ := h
  simp

/-- Two searches over the same scores find the same best one. -/
theorem FirstBest.score_unique (h : FirstBest results best)
    (h' : FirstBest results' best')
    (hscores : ∀ s, s ∈ results.map Prod.snd ↔ s ∈ results'.map Prod.snd) :
    best.2 = best'.2 := by
  obtain ⟨r', hr', hsame'⟩ := List.mem_map.mp ((hscores _).mp (List.mem_map_of_mem h.mem))
  obtain ⟨r, hr, hsame⟩ := List.mem_map.mp ((hscores _).mpr (List.mem_map_of_mem h'.mem))
  have hnot := h.not_below r hr
  have hnot' := h'.not_below r' hr'
  rw [hsame] at hnot
  rw [hsame'] at hnot'
  exact Score.eq_of_not_below hnot hnot'

variable [OrderBot α]

/-- The same for what the search compares. -/
def FirstHighest (results : List (Params K V × Score α)) (best : Params K V × Score α) : Prop :=
  ∃ before after, results = before ++ best :: after ∧
    (∀ r ∈ before, r.2.comparable < best.2.comparable) ∧
      ∀ r ∈ after, r.2.comparable ≤ best.2.comparable

/-- The first score is NaN, and the best of the others is the least float. -/
def Tied (results : List (Params K V × Score α)) : Prop :=
  (∃ params rest, results = (params, .nan) :: rest) ∧ (∀ r ∈ results, r.2.comparable = ⊥) ∧
    ∃ r ∈ results, r.2 = .value ⊥

structure SearchState (K V α : Type) where
  allResults : List (Params K V × Score α)
  best : Option (Params K V × Score α)
  bestComparable : α

def searchStep (s : SearchState K V α) (result : Params K V × Score α) : SearchState K V α :=
  let comparable := result.2.comparable
  if s.best.isNone ∨ s.bestComparable < comparable then
    { allResults := s.allResults ++ [result], best := some result, bestComparable := comparable }
  else { s with allResults := s.allResults ++ [result] }

structure Searched (results : List (Params K V × Score α)) (s : SearchState K V α) : Prop where
  all : s.allResults = results
  none : s.best = none → results = []
  some : ∀ best, s.best = some best → s.bestComparable = best.2.comparable ∧
    FirstHighest results best

theorem Searched.step {results : List (Params K V × Score α)} {s : SearchState K V α}
    (h : Searched results s) (r : Params K V × Score α) :
    Searched (results ++ [r]) (searchStep s r) := by
  unfold searchStep
  dsimp only
  split
  · rename_i hbetter
    constructor
    · rw [h.all]
    · intro hnone
      cases hnone
    · rintro _ ⟨⟩
      refine ⟨rfl, results, [], rfl, ?_, by simp⟩
      cases hbest : s.best with
      | none =>
          rw [h.none hbest]
          simp
      | some best =>
          obtain ⟨hcomparable, before, after, rfl, hbefore, hafter⟩ := h.some best hbest
          have hlt : best.2.comparable < r.2.comparable := by
            rw [← hcomparable]
            simpa [hbest] using hbetter
          intro q hq
          rcases List.mem_append.mp hq with hold | hnew
          · exact (hbefore q hold).trans hlt
          · rcases List.mem_cons.mp hnew with hsame | hlater
            · rw [hsame]
              exact hlt
            · exact (hafter q hlater).trans_lt hlt
  · rename_i hworse
    rw [not_or, Bool.not_eq_true, not_lt] at hworse
    constructor
    · simp [h.all]
    · intro hnone
      have hnone : s.best = .none := hnone
      simp [hnone] at hworse
    · intro best hbest
      obtain ⟨hcomparable, before, after, rfl, hbefore, hafter⟩ := h.some best hbest
      refine ⟨hcomparable, before, after ++ [r], by simp, hbefore, ?_⟩
      intro q hq
      rcases List.mem_append.mp hq with hold | hnew
      · exact hafter q hold
      · rw [List.mem_singleton.mp hnew, ← hcomparable]
        exact hworse.2

theorem searched (results : List (Params K V × Score α)) :
    Searched results (results.foldl searchStep ⟨[], none, ⊥⟩) := by
  induction results using List.reverseRecOn with
  | nil =>
      constructor
      · rfl
      · exact fun _ => rfl
      · intro best hbest
        cases hbest
  | append_singleton results r ih =>
      rw [List.foldl_append]
      exact ih.step r

/-- Nothing compares below NaN, so it is the highest only as the first. -/
theorem FirstHighest.head_of_nan (h : FirstHighest results best)
    (hbest : best.2.comparable = ⊥) : ∃ after, results = best :: after ∧
      ∀ r ∈ after, r.2.comparable = ⊥ := by
  obtain ⟨before, after, rfl, hbefore, hafter⟩ := h
  rw [hbest] at hbefore hafter
  cases before with
  | nil => exact ⟨after, rfl, fun r hr => le_bot_iff.mp (hafter r hr)⟩
  | cons q before => exact absurd (hbefore q (by simp)) not_lt_bot

theorem not_firstBest_of_tied (h : FirstHighest results best) (htied : Tied results) :
    ¬FirstBest results best := by
  obtain ⟨⟨params, rest, hfirst⟩, hlow, r, hr, hscore⟩ := htied
  have hmem : best ∈ results := by
    obtain ⟨before, after, hresults, _⟩ := h
    rw [hresults]
    simp
  obtain ⟨after, hhead, _⟩ := h.head_of_nan (hlow best hmem)
  have hbest : best = (params, .nan) := by
    rw [hhead, List.cons.injEq] at hfirst
    exact hfirst.1
  rintro ⟨before', after', hresults, hbefore', hafter'⟩
  rw [hbest] at hresults hbefore' hafter'
  rw [hresults, List.mem_append, List.mem_cons] at hr
  rcases hr with hearlier | hsame | hlater
  · have hbelow := hbefore' r hearlier
    rw [hscore] at hbelow
    exact hbelow
  · rw [hsame] at hscore
    cases hscore
  · have hbelow := hafter' r hlater
    rw [hscore] at hbelow
    exact hbelow trivial

theorem firstBest_of_not_tied (h : FirstHighest results best) (htied : ¬Tied results) :
    FirstBest results best := by
  obtain ⟨bestParams, bestScore⟩ := best
  cases bestScore with
  | nan =>
      obtain ⟨after, rfl, hafter⟩ := h.head_of_nan rfl
      refine ⟨[], after, rfl, by simp, ?_⟩
      intro r hr hbelow
      apply htied
      refine ⟨⟨bestParams, after, rfl⟩, ?_, r, by simp [hr], ?_⟩
      · intro q hq
        rcases List.mem_cons.mp hq with hsame | hlater
        · rw [hsame]
          rfl
        · exact hafter q hlater
      · have hlow := hafter r hr
        cases hscore : r.2 with
        | nan => simp [hscore, Score.Below] at hbelow
        | value a =>
            rw [hscore] at hlow
            exact congrArg Score.value hlow
  | value b =>
      obtain ⟨before, after, hresults, hbefore, hafter⟩ := h
      refine ⟨before, after, hresults, ?_, ?_⟩
      · intro r hr
        have hlt := hbefore r hr
        cases hscore : r.2 with
        | nan => trivial
        | value a =>
            rw [hscore] at hlt
            exact hlt
      · intro r hr hbelow
        have hle := hafter r hr
        cases hscore : r.2 with
        | nan => simp [hscore, Score.Below] at hbelow
        | value a =>
            rw [hscore] at hle hbelow
            exact absurd hle (not_le.mpr hbelow)

/-- The first highest result is the best one unless NaN ties with the least float. -/
theorem firstBest_iff (h : FirstHighest results best) : FirstBest results best ↔ ¬Tied results :=
  ⟨fun hbest htied => not_firstBest_of_tied h htied hbest, firstBest_of_not_tied h⟩

/-- The scores of places evaluated in this order: the first is NaN, and the best the least float. -/
def TiedAt (scoreAt : ℕ → Score α) (indices : List ℕ) : Prop :=
  (∃ i rest, indices = i :: rest ∧ scoreAt i = .nan) ∧
    (∀ i ∈ indices, (scoreAt i).comparable = ⊥) ∧ ∃ i ∈ indices, scoreAt i = .value ⊥

theorem tied_map_iff (f : ℕ → Params K V) (scoreAt : ℕ → Score α) (indices : List ℕ) :
    Tied (indices.map fun i => (f i, scoreAt i)) ↔ TiedAt scoreAt indices := by
  have hhead : (∃ params rest, (indices.map fun i => (f i, scoreAt i)) =
      (params, Score.nan) :: rest) ↔ ∃ i rest, indices = i :: rest ∧ scoreAt i = .nan := by
    cases indices with
    | nil => simp
    | cons i rest => simp [eq_comm]
  have hsome : (∃ r ∈ indices.map fun i => (f i, scoreAt i), r.2 = Score.value ⊥) ↔
      ∃ i ∈ indices, scoreAt i = .value ⊥ := by
    simp [List.mem_map]
  simp only [Tied, TiedAt, hhead, hsome, List.forall_mem_map]

end

/-! ## Both searches -/

section

variable [DecidableEq K] [LinearOrder α] [OrderBot α]

structure SearchResult (K V α : Type) where
  bestParams : Params K V
  bestScore : Score α
  allResults : List (Params K V × Score α)
  paramNames : Option (List K)
  paramRanges : Option (ParamGrid K V)

inductive SearchError where
  | noCombinations | emptyValueList | indexOutOfRange | iterationsNotPositive
  deriving DecidableEq, Repr

def performSearch (score : (K → Option V) → Score α) (grid : ParamGrid K V)
    (paramsIter : List (Params K V)) : Except SearchError (SearchResult K V α) :=
  let s := (paramsIter.map (scored score)).foldl searchStep ⟨[], none, ⊥⟩
  match s.best with
  | none => .error .noCombinations
  | some (bestParams, bestScore) => .ok
      { bestParams := bestParams
        bestScore := bestScore
        allResults := s.allResults
        paramNames := if grid.isEmpty then none else some (grid.map Prod.fst)
        paramRanges := if grid.isEmpty then none else some grid }

def gridSearch (score : (K → Option V) → Score α) (grid : ParamGrid K V) :
    Except SearchError (SearchResult K V α) :=
  if grid.any (·.2.isEmpty) then .error .emptyValueList
  else performSearch score grid (gridParams grid)

/-- `random.Random(seed)`, drawing from the numbers below the first argument. -/
structure Sampler where
  sample : ℕ → ℕ → List ℕ
  choices : ℕ → ℕ → List ℕ

/-- A sample has no number twice. -/
structure Sampler.Lawful (rng : Sampler) : Prop where
  length_sample : ∀ n k, k ≤ n → (rng.sample n k).length = k
  nodup_sample : ∀ n k, k ≤ n → (rng.sample n k).Nodup
  sample_lt : ∀ n k, k ≤ n → ∀ i ∈ rng.sample n k, i < n

def randomSearch (rng : Sampler) (score : (K → Option V) → Score α) (grid : ParamGrid K V)
    (nIter : ℤ) : Except SearchError (SearchResult K V α) :=
  if nIter ≤ 0 then .error .iterationsNotPositive
  else if grid.any (·.2.isEmpty) then .error .emptyValueList
  else
    let indices :=
      if nIter ≤ totalCombos grid then rng.sample (totalCombos grid) nIter.toNat
      else rng.choices (totalCombos grid) nIter.toNat
    match lazyRandomParams grid indices with
    | none => .error .indexOutOfRange
    | some paramsIter => performSearch score grid paramsIter

variable (score : (K → Option V) → Score α)

theorem performSearch_spec (grid : ParamGrid K V)
    {paramsIter : List (Params K V)} (h : paramsIter ≠ []) : ∃ result,
      performSearch score grid paramsIter = .ok result ∧
        result.allResults = paramsIter.map (scored score) ∧
          FirstHighest (paramsIter.map (scored score)) (result.bestParams, result.bestScore) := by
  have hsearched := searched (paramsIter.map (scored score))
  unfold performSearch
  dsimp only
  cases hbest : ((paramsIter.map (scored score)).foldl searchStep ⟨[], none, ⊥⟩).best with
  | none => exact absurd (List.map_eq_nil_iff.mp (hsearched.none hbest)) h
  | some best => exact ⟨_, rfl, hsearched.all, (hsearched.some best hbest).2⟩

theorem gridSearch_spec (hgrid : ValidGrid grid) : ∃ result, gridSearch score grid = .ok result ∧
    result.allResults =
        (List.range (totalCombos grid)).map (fun i => (paramsAt grid i, scoreAt score grid i)) ∧
      FirstHighest result.allResults (result.bestParams, result.bestScore) := by
  have hne : gridParams grid ≠ [] := by
    rw [← List.length_pos_iff, length_gridParams]
    exact totalCombos_pos hgrid
  obtain ⟨result, hsearch, hall, hbest⟩ := performSearch_spec score grid hne
  refine ⟨result, ?_, ?_, hall ▸ hbest⟩
  · rw [gridSearch, if_neg (not_any_isEmpty hgrid), hsearch]
  · rw [hall, gridParams_scored]

theorem randomSearch_spec {rng : Sampler} (hrng : rng.Lawful) (hgrid : ValidGrid grid) {n : ℕ}
    (hpos : 0 < n) (hn : n ≤ totalCombos grid) : ∃ result,
      randomSearch rng score grid n = .ok result ∧
        result.allResults = (rng.sample (totalCombos grid) n).map
          (fun i => ((paramsAt grid i).reverse, scoreAt score grid i)) ∧
        FirstHighest result.allResults (result.bestParams, result.bestScore) := by
  have hlt := hrng.sample_lt _ _ hn
  have hne : (rng.sample (totalCombos grid) n).map
      (fun i => (paramsAt grid i).reverse) ≠ [] := by
    rw [← List.length_pos_iff, List.length_map, hrng.length_sample _ _ hn]
    exact hpos
  obtain ⟨result, hsearch, hall, hbest⟩ := performSearch_spec score grid hne
  refine ⟨result, ?_, ?_, hall ▸ hbest⟩
  · rw [randomSearch, if_neg (by omega), if_neg (not_any_isEmpty hgrid),
      if_pos (by exact_mod_cast hn)]
    simp only [Int.toNat_natCast, lazyRandomParams_eq hgrid hlt, hsearch]
  · rw [hall, lazyParams_scored score hgrid hlt]

/-- Random search decodes its indices to the places of the grid and draws distinct ones; a search of
all finds the best score of the grid exactly if NaN does not tie with the least float in either
order. -/
theorem randomSearch_iff {rng : Sampler} (hrng : rng.Lawful) (hgrid : ValidGrid grid) :
    (∀ indices, (∀ i ∈ indices, i < totalCombos grid) →
      lazyRandomParams grid indices = some (indices.map fun i => (paramsAt grid i).reverse) ∧
        ∀ i ∈ indices, (gridParams grid)[i]? = some (paramsAt grid i) ∧
          Params.get (paramsAt grid i).reverse = Params.get (paramsAt grid i)) ∧
    (∀ n : ℕ, 0 < n → n ≤ totalCombos grid → ∃ result, ∃ indices : List ℕ,
      randomSearch rng score grid n = .ok result ∧ indices.length = n ∧ indices.Nodup ∧
        (∀ i ∈ indices, i < totalCombos grid) ∧
        (n = totalCombos grid → indices.Perm (List.range n)) ∧
        result.allResults = indices.map
          fun i => ((paramsAt grid i).reverse, scoreAt score grid i)) ∧
    ∃ best result, gridSearch score grid = .ok best ∧
      randomSearch rng score grid (totalCombos grid) = .ok result ∧
      (FirstBest best.allResults (best.bestParams, best.bestScore) ∧
          FirstBest result.allResults (result.bestParams, result.bestScore) ∧
          result.bestScore = best.bestScore ↔
        ¬TiedAt (scoreAt score grid) (List.range (totalCombos grid)) ∧
          ¬TiedAt (scoreAt score grid) (rng.sample (totalCombos grid) (totalCombos grid))) := by
  have hperm : ∀ n, n = totalCombos grid →
      (rng.sample (totalCombos grid) n).Perm (List.range n) := by
    rintro n rfl
    have hsub : rng.sample (totalCombos grid) (totalCombos grid) ⊆
        List.range (totalCombos grid) := fun i hi =>
      List.mem_range.mpr (hrng.sample_lt _ _ le_rfl i hi)
    have hsubperm := List.subperm_of_subset (hrng.nodup_sample _ _ le_rfl) hsub
    apply hsubperm.perm_of_length_le
    rw [List.length_range, hrng.length_sample _ _ le_rfl]
  refine ⟨?_, ?_, ?_⟩
  · intro indices hindices
    refine ⟨lazyRandomParams_eq hgrid hindices, fun i hi => ?_⟩
    exact ⟨getElem?_gridParams (hindices i hi), get_paramsAt_reverse hgrid (hindices i hi)⟩
  · intro n hpos hn
    obtain ⟨result, hsearch, hall, _⟩ := randomSearch_spec score hrng hgrid hpos hn
    exact ⟨result, _, hsearch, hrng.length_sample _ _ hn, hrng.nodup_sample _ _ hn,
      hrng.sample_lt _ _ hn, hperm n, hall⟩
  · obtain ⟨best, hgridSearch, hgridAll, hgridBest⟩ := gridSearch_spec score hgrid
    obtain ⟨result, hsearch, hall, hbest⟩ :=
      randomSearch_spec score hrng hgrid (totalCombos_pos hgrid) le_rfl
    refine ⟨best, result, hgridSearch, hsearch, ?_⟩
    have hgridTied := tied_map_iff (paramsAt grid) (scoreAt score grid)
      (List.range (totalCombos grid))
    have htied := tied_map_iff (fun i => (paramsAt grid i).reverse) (scoreAt score grid)
      (rng.sample (totalCombos grid) (totalCombos grid))
    rw [← hgridAll] at hgridTied
    rw [← hall] at htied
    rw [firstBest_iff hgridBest, firstBest_iff hbest, hgridTied, htied, ← and_assoc,
      and_iff_left_iff_imp]
    rintro ⟨hgridFree, hfree⟩
    apply FirstBest.score_unique (firstBest_of_not_tied hbest (fun h => hfree (htied.mp h)))
      (firstBest_of_not_tied hgridBest (fun h => hgridFree (hgridTied.mp h)))
    intro s
    rw [hall, hgridAll, List.map_map, List.map_map]
    exact ((hperm _ rfl).map (scoreAt score grid)).mem_iff

end

/-- Draws the last numbers first. -/
def lastFirst : Sampler where
  sample n k := (List.range n).reverse.take k
  choices _ k := List.replicate k 0

theorem lastFirst_lawful : lastFirst.Lawful where
  length_sample n k h := by simp [lastFirst, h]
  nodup_sample n k _ := (List.nodup_reverse.mpr List.nodup_range).sublist (List.take_sublist _ _)
  sample_lt n k _ i hi := by
    have hmem := List.mem_of_mem_take hi
    simpa using hmem

theorem validGrid_window : ValidGrid [("window", [10, 20])] where
  keys := by simp
  values := by simp

/-- With two equal scores both searches find the score. -/
theorem randomSearch_window : ∃ best result,
    gridSearch (fun _ => Score.value 1) [("window", [10, 20])] = .ok best ∧
      randomSearch lastFirst (fun _ => Score.value 1) [("window", [10, 20])] 2 = .ok result ∧
        result.bestScore = best.bestScore := by
  obtain ⟨-, -, best, result, hgrid, hrandom, hiff⟩ :=
    randomSearch_iff (fun _ => Score.value 1) lastFirst_lawful validGrid_window
  have hfree : ∀ indices, ¬TiedAt (scoreAt (fun _ => Score.value 1) [("window", [10, 20])])
      indices := by
    rintro indices ⟨⟨i, _, _, hnan⟩, _⟩
    cases hnan
  exact ⟨best, result, hgrid, hrandom, (hiff.mpr ⟨hfree _, hfree _⟩).2.2⟩

/-- NaN at the first place and the least float at the second: grid search returns NaN, and a search
that evaluates the second place first returns the least float. -/
theorem randomSearch_ne_gridSearch : lastFirst.Lawful ∧ ValidGrid [("window", [10, 20])] ∧
    ∃ best result,
      gridSearch (fun params => if params "window" = some 10 then Score.nan else .value 0)
        [("window", [10, 20])] = .ok best ∧
      randomSearch lastFirst
        (fun params => if params "window" = some 10 then Score.nan else .value 0)
        [("window", [10, 20])] 2 = .ok result ∧
      best.bestScore = .nan ∧ result.bestScore = .value ⊥ :=
  ⟨lastFirst_lawful, validGrid_window, _, _, rfl, rfl, rfl, rfl⟩

end TradingPlatform.Backtest
