import Mathlib.Algebra.Order.Ring.Nat
import Mathlib.Data.List.Basic
import Mathlib.Data.List.Sort

/-! # Runs in a list

The maximal runs of elements with a property, and the groups of neighbours with one key. In a list
that is sorted by the key, a group holds all the elements of its key.
-/

namespace TradingPlatform.Base

variable {α β : Type}

/-! ## Maximal runs of a property -/

/-- The run goes to the end of the list or to an element without the property, on both sides. -/
def IsMaxRun (p : α → Bool) (xs run : List α) : Prop :=
  run ≠ [] ∧ (∀ a ∈ run, p a = true) ∧
    ∃ before after, xs = before ++ run ++ after ∧
      (∀ a ∈ before.getLast?, p a = false) ∧ ∀ a ∈ after.head?, p a = false

/-- The run that ends here, if there is one. -/
def endRun (run : List α) : List (List α) := if run.isEmpty then [] else [run]

/-- The maximal runs, with the one that is going on. -/
def maxRunsFrom (p : α → Bool) : List α → List α → List (List α)
  | run, [] => endRun run
  | run, a :: xs =>
      if p a then maxRunsFrom p (run ++ [a]) xs else endRun run ++ maxRunsFrom p [] xs

def maxRuns (p : α → Bool) (xs : List α) : List (List α) := maxRunsFrom p [] xs

variable {p : α → Bool} {xs run cur : List α} {a : α}

theorem mem_endRun_iff : run ∈ endRun cur ↔ run = cur ∧ cur ≠ [] := by
  cases cur <;> simp [endRun]

theorem isMaxRun_iff_of_all (hcur : ∀ a ∈ cur, p a = true) :
    IsMaxRun p cur run ↔ run = cur ∧ cur ≠ [] := by
  constructor
  · rintro ⟨hne, _, before, after, heq, hbefore, hafter⟩
    have hb : before = [] := by
      rcases List.eq_nil_or_concat before with hnil | ⟨init, a, hconcat⟩
      · exact hnil
      · rw [List.concat_eq_append] at hconcat
        have hin : p a = true := hcur a (by simp [heq, hconcat])
        have hout := hbefore a (by simp [hconcat])
        simp [hin] at hout
    have ha : after = [] := by
      cases after with
      | nil => rfl
      | cons a rest =>
          have hin : p a = true := hcur a (by simp [heq])
          have hout := hafter a (by simp)
          simp [hin] at hout
    rw [hb, ha, List.nil_append, List.append_nil] at heq
    exact ⟨heq.symm, by rw [heq]; exact hne⟩
  · rintro ⟨heq, hne⟩
    rw [heq]
    exact ⟨hne, hcur, [], [], by simp, by simp, by simp⟩

/-- A run is over at an element without the property; what follows has its own runs. -/
theorem isMaxRun_append_cons_iff (hcur : ∀ a ∈ cur, p a = true) (ha : p a = false) :
    IsMaxRun p (cur ++ a :: xs) run ↔ (run = cur ∧ cur ≠ []) ∨ IsMaxRun p xs run := by
  constructor
  · rintro ⟨hne, hall, before, after, heq, hbefore, hafter⟩
    have hnot : a ∉ run := fun hmem => by simp [hall a hmem] at ha
    rcases List.append_eq_append_iff.1 heq with ⟨x, hx, hrest⟩ | ⟨x, hx, hrest⟩
    · cases x with
      | nil =>
          rw [List.append_nil] at hx
          have hsame : IsMaxRun p cur run :=
            ⟨hne, hall, before, [], by rw [← hx, List.append_nil], hbefore, by simp⟩
          exact .inl ((isMaxRun_iff_of_all hcur).1 hsame)
      | cons b x =>
          obtain ⟨hab, hxs⟩ := List.cons.inj hrest
          rw [← hab] at hx
          rcases List.append_eq_append_iff.1 hx with ⟨y, hy, hrun⟩ | ⟨y, hy, hrun⟩
          · exact absurd (by rw [hrun]; simp) hnot
          · cases y with
            | nil =>
                rw [List.nil_append] at hrun
                exact absurd (hrun ▸ List.mem_cons_self ..) hnot
            | cons b' y =>
                obtain ⟨hab', hx'⟩ := List.cons.inj hrun
                refine .inr ⟨hne, hall, y, after, by rw [hxs, hx']; rfl, fun c hc => ?_, hafter⟩
                refine hbefore c ?_
                rw [hy, List.getLast?_append, List.getLast?_cons]
                cases hlast : y.getLast? with
                | none => simp [hlast] at hc
                | some d => simpa [hlast] using hc
    · have hsame : IsMaxRun p cur run := by
        refine ⟨hne, hall, before, x, hx, hbefore, fun c hc => hafter c ?_⟩
        rw [hrest]
        cases x with
        | nil => simp at hc
        | cons d x => simpa using hc
      exact .inl ((isMaxRun_iff_of_all hcur).1 hsame)
  · rintro (⟨heq, hne⟩ | ⟨hne, hall, before, after, hxs, hbefore, hafter⟩)
    · rw [heq]
      exact ⟨hne, hcur, [], a :: xs, by simp, by simp, by simpa using ha⟩
    · refine ⟨hne, hall, cur ++ a :: before, after, by simp [hxs], fun c hc => ?_, hafter⟩
      rw [List.getLast?_append, List.getLast?_cons] at hc
      cases hlast : before.getLast? with
      | none =>
          rw [hlast] at hc
          have hc : a = c := by simpa using hc
          rw [← hc]
          exact ha
      | some d =>
          rw [hlast] at hc
          have hc : d = c := by simpa using hc
          rw [← hc]
          exact hbefore d hlast

theorem mem_maxRunsFrom_iff (hcur : ∀ a ∈ cur, p a = true) :
    run ∈ maxRunsFrom p cur xs ↔ IsMaxRun p (cur ++ xs) run := by
  induction xs generalizing cur with
  | nil =>
      rw [maxRunsFrom, mem_endRun_iff, List.append_nil, isMaxRun_iff_of_all hcur]
  | cons a xs ih =>
      cases ha : p a with
      | true =>
          have hnext : ∀ b ∈ cur ++ [a], p b = true := by
            intro b hb
            rcases List.mem_append.1 hb with hold | hnew
            · exact hcur b hold
            · rw [List.mem_singleton.1 hnew]
              exact ha
          rw [maxRunsFrom, if_pos ha, ih hnext, List.append_assoc, List.singleton_append]
      | false =>
          have hnext : ∀ b ∈ ([] : List α), p b = true := by simp
          rw [maxRunsFrom, if_neg (by simp [ha]), List.mem_append, mem_endRun_iff, ih hnext,
            List.nil_append, isMaxRun_append_cons_iff hcur ha]

theorem mem_maxRuns_iff : run ∈ maxRuns p xs ↔ IsMaxRun p xs run := by
  rw [maxRuns, mem_maxRunsFrom_iff (by simp), List.nil_append]

theorem maxRunsFrom_congr {q : α → Bool} (h : ∀ a ∈ xs, p a = q a) :
    maxRunsFrom p cur xs = maxRunsFrom q cur xs := by
  induction xs generalizing cur with
  | nil => rfl
  | cons a xs ih =>
      have hrest : ∀ b ∈ xs, p b = q b := fun b hb => h b (List.mem_cons_of_mem a hb)
      rw [maxRunsFrom, maxRunsFrom, h a List.mem_cons_self, ih hrest, ih hrest]

theorem maxRuns_congr {q : α → Bool} (h : ∀ a ∈ xs, p a = q a) : maxRuns p xs = maxRuns q xs :=
  maxRunsFrom_congr h

theorem sum_length_maxRunsFrom :
    ((maxRunsFrom p cur xs).map List.length).sum = cur.length + xs.countP p := by
  have hend : ∀ run : List α, ((endRun run).map List.length).sum = run.length := by
    intro run
    cases run <;> simp [endRun]
  induction xs generalizing cur with
  | nil => simp [maxRunsFrom, hend]
  | cons a xs ih =>
      cases ha : p a with
      | true =>
          rw [maxRunsFrom, if_pos ha, ih, List.countP_cons_of_pos ha]
          simp only [List.length_append, List.length_singleton]
          omega
      | false =>
          have hnot : ¬ p a = true := by simp [ha]
          rw [maxRunsFrom, if_neg hnot, List.map_append, List.sum_append, hend, ih,
            List.countP_cons_of_neg hnot]
          simp

/-- The runs hold all the elements with the property. -/
theorem sum_length_maxRuns : ((maxRuns p xs).map List.length).sum = xs.countP p := by
  rw [maxRuns, sum_length_maxRunsFrom]
  simp

theorem flatten_maxRunsFrom (hcur : ∀ a ∈ cur, p a = true) :
    (maxRunsFrom p cur xs).flatten = cur ++ xs.filter p := by
  have hend : ∀ run : List α, (endRun run).flatten = run := by
    intro run
    cases run <;> simp [endRun]
  induction xs generalizing cur with
  | nil => simp [maxRunsFrom, hend]
  | cons a xs ih =>
      cases ha : p a with
      | true =>
          have hnext : ∀ b ∈ cur ++ [a], p b = true := by
            simpa [or_imp, forall_and] using ⟨hcur, ha⟩
          rw [maxRunsFrom, if_pos ha, ih hnext, List.filter_cons_of_pos ha]
          simp
      | false =>
          have hnot : ¬ p a = true := by simp [ha]
          rw [maxRunsFrom, if_neg hnot, List.flatten_append, hend, ih (by simp),
            List.filter_cons_of_neg hnot, List.nil_append]

theorem flatten_maxRuns : (maxRuns p xs).flatten = xs.filter p :=
  flatten_maxRunsFrom (by simp)

theorem exists_maxRun (ha : a ∈ xs) (hp : p a = true) : ∃ run, IsMaxRun p xs run ∧ a ∈ run := by
  have hmem : a ∈ (maxRuns p xs).flatten := by
    rw [flatten_maxRuns]
    exact List.mem_filter.2 ⟨ha, hp⟩
  obtain ⟨run, hrun, harun⟩ := List.mem_flatten.1 hmem
  exact ⟨run, mem_maxRuns_iff.1 hrun, harun⟩

/-- In a sorted list everything between the ends of a run is in the run. -/
theorem IsMaxRun.mem_of_between {key : α → ℤ} {first last : α} (h : IsMaxRun p xs run)
    (hsorted : xs.Pairwise fun a b => key a < key b) (hfirst : first ∈ run.head?)
    (hlast : last ∈ run.getLast?) (ha : a ∈ xs) (hge : key first ≤ key a)
    (hle : key a ≤ key last) : a ∈ run := by
  obtain ⟨_, _, before, after, heq, _, _⟩ := h
  rw [heq, List.append_assoc] at hsorted
  obtain ⟨_, hrest, hcross⟩ := List.pairwise_append.1 hsorted
  obtain ⟨_, _, hafter⟩ := List.pairwise_append.1 hrest
  rw [heq, List.append_assoc, List.mem_append, List.mem_append] at ha
  rcases ha with hin | hin | hin
  · have hlt := hcross a hin first (List.mem_append_left _ (List.mem_of_mem_head? hfirst))
    omega
  · exact hin
  · have hlt := hafter last (List.mem_of_mem_getLast? hlast) a hin
    omega

theorem IsMaxRun.head?_le {key : α → ℤ} {first : α} (h : IsMaxRun p xs run)
    (hsorted : xs.Pairwise fun a b => key a < key b) (hfirst : first ∈ run.head?)
    (ha : a ∈ run) : key first ≤ key a := by
  obtain ⟨_, _, before, after, heq, _, _⟩ := h
  rw [heq] at hsorted
  have hrun := (List.pairwise_append.1 (List.pairwise_append.1 hsorted).1).2.1
  cases run with
  | nil => simp at ha
  | cons b run =>
      have hb : b = first := by simpa using hfirst
      rcases List.mem_cons.1 ha with hsame | hmem
      · rw [← hb, hsame]
      · rw [← hb]
        exact ((List.pairwise_cons.1 hrun).1 a hmem).le

theorem IsMaxRun.le_getLast? {key : α → ℤ} {last : α} (h : IsMaxRun p xs run)
    (hsorted : xs.Pairwise fun a b => key a < key b) (hlast : last ∈ run.getLast?)
    (ha : a ∈ run) : key a ≤ key last := by
  obtain ⟨_, _, before, after, heq, _, _⟩ := h
  rw [heq] at hsorted
  have hrun := (List.pairwise_append.1 (List.pairwise_append.1 hsorted).1).2.1
  rcases List.eq_nil_or_concat run with hnil | ⟨init, b, hconcat⟩
  · simp [hnil] at ha
  · rw [List.concat_eq_append] at hconcat
    have hb : b = last := by simpa [hconcat] using hlast
    rw [hconcat] at hrun ha
    rcases List.mem_append.1 ha with hmem | hsame
    · rw [← hb]
      exact ((List.pairwise_append.1 hrun).2.2 a hmem b (by simp)).le
    · rw [← hb, List.mem_singleton.1 hsame]

/-! ## Groups of one key -/

/-- The groups of neighbours with one key, with the one that is going on. -/
def groupsFrom (key : α → ℤ) : ℤ → List α → List α → List (ℤ × List α)
  | current, group, [] => [(current, group)]
  | current, group, a :: xs =>
      if key a = current then groupsFrom key current (group ++ [a]) xs
      else (current, group) :: groupsFrom key (key a) [a] xs

def groups (key : α → ℤ) : List α → List (ℤ × List α)
  | [] => []
  | a :: xs => groupsFrom key (key a) [a] xs

/-- One group for every key that occurs, with all the elements of the key. -/
structure GroupedBy (key : α → ℤ) (xs : List α) (gs : List (ℤ × List α)) : Prop where
  increasing : gs.Pairwise fun g h => g.1 < h.1
  filtered : ∀ g ∈ gs, g.2 = xs.filter fun a => key a = g.1
  nonempty : ∀ g ∈ gs, g.2 ≠ []
  covered : ∀ a ∈ xs, ∃ g ∈ gs, g.1 = key a

variable {key : α → ℤ} {current : ℤ} {group : List α}

theorem groupedBy_groupsFrom (hne : group ≠ []) (hgroup : ∀ a ∈ group, key a = current)
    (hsorted : (current :: xs.map key).Pairwise fun m n => m ≤ n) :
    GroupedBy key (group ++ xs) (groupsFrom key current group xs) ∧
      ∀ g ∈ groupsFrom key current group xs, current ≤ g.1 := by
  induction xs generalizing current group with
  | nil =>
      have hall : group.filter (fun a => key a = current) = group :=
        List.filter_eq_self.2 fun a ha => by simpa using hgroup a ha
      simp only [groupsFrom, List.append_nil]
      refine ⟨⟨by simp, by simp [hall], by simpa using hne, fun a ha => ?_⟩, by simp⟩
      exact ⟨(current, group), by simp, (hgroup a ha).symm⟩
  | cons a xs ih =>
      rw [List.map_cons] at hsorted
      obtain ⟨hfirst, hrest⟩ := List.pairwise_cons.1 hsorted
      by_cases hsame : key a = current
      · have hnext : ∀ b ∈ group ++ [a], key b = current := by
          intro b hb
          rcases List.mem_append.1 hb with hold | hnew
          · exact hgroup b hold
          · rw [List.mem_singleton.1 hnew]
            exact hsame
        rw [hsame] at hrest
        rw [groupsFrom, if_pos hsame]
        have hgroups := ih (by simp) hnext hrest
        rw [List.append_assoc, List.singleton_append] at hgroups
        exact hgroups
      · have hlt : current < key a := by
          have hle := hfirst (key a) (by simp)
          omega
        have hbeyond : ∀ b ∈ a :: xs, key a ≤ key b := by
          intro b hb
          rcases List.mem_cons.1 hb with heq | hmem
          · rw [heq]
          · exact (List.pairwise_cons.1 hrest).1 (key b) (List.mem_map_of_mem hmem)
        obtain ⟨hgrouped, hlower⟩ := @ih (key a) [a] (by simp) (by simp) hrest
        rw [groupsFrom, if_neg hsame]
        rw [List.singleton_append] at hgrouped
        have hwhole : group = (group ++ a :: xs).filter fun b => key b = current := by
          have hin : group.filter (fun b => key b = current) = group :=
            List.filter_eq_self.2 fun b hb => by simpa using hgroup b hb
          have hout : (a :: xs).filter (fun b => key b = current) = [] := by
            refine List.filter_eq_nil_iff.2 fun b hb => ?_
            have hle := hbeyond b hb
            simp only [decide_eq_true_eq]
            omega
          rw [List.filter_append, hin, hout, List.append_nil]
        refine ⟨⟨List.pairwise_cons.2 ⟨fun g hg => ?_, hgrouped.increasing⟩, fun g hg => ?_,
          fun g hg => ?_, fun b hb => ?_⟩, fun g hg => ?_⟩
        · exact lt_of_lt_of_le hlt (hlower g hg)
        · rcases List.mem_cons.1 hg with heq | hmem
          · rw [heq]
            exact hwhole
          · have hnone : group.filter (fun b => key b = g.1) = [] := by
              refine List.filter_eq_nil_iff.2 fun b hb => ?_
              have hkey := hgroup b hb
              have hle := hlower g hmem
              simp only [decide_eq_true_eq]
              omega
            rw [List.filter_append, hnone, List.nil_append]
            exact hgrouped.filtered g hmem
        · rcases List.mem_cons.1 hg with heq | hmem
          · rw [heq]
            exact hne
          · exact hgrouped.nonempty g hmem
        · rcases List.mem_append.1 hb with hold | hnew
          · exact ⟨(current, group), by simp, (hgroup b hold).symm⟩
          · obtain ⟨g, hg, hkey⟩ := hgrouped.covered b hnew
            exact ⟨g, List.mem_cons_of_mem _ hg, hkey⟩
        · rcases List.mem_cons.1 hg with heq | hmem
          · rw [heq]
          · exact hlt.le.trans (hlower g hmem)

theorem groupedBy_groups (hsorted : (xs.map key).Pairwise fun m n => m ≤ n) :
    GroupedBy key xs (groups key xs) := by
  cases xs with
  | nil => exact ⟨.nil, by simp [groups], by simp [groups], by simp⟩
  | cons a xs =>
      have hgroups : GroupedBy key ([a] ++ xs) (groupsFrom key (key a) [a] xs) :=
        (groupedBy_groupsFrom (List.cons_ne_nil a []) (by simp) hsorted).1
      exact hgroups

end TradingPlatform.Base
