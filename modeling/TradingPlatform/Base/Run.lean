import Mathlib.Algebra.Group.Defs
import Mathlib.Logic.Basic
import Mathlib.Tactic.TypeStar

/-! # Runs of a deterministic step function

A run folds a list of actions over a state. `EachStep` speaks about every
action in the state it is taken in, `EveryState` about every state the run
passes through, both ends included. The rules below turn what one step
preserves into what a whole run preserves, and an exact condition on one step
into an exact condition on the run.
-/

namespace TradingPlatform.Base

variable {σ τ α : Type*}

/-- The state reached from `s` after the actions, taken in order. -/
def run (step : σ → α → σ) : σ → List α → σ
  | s, [] => s
  | s, a :: as => run step (step s a) as

/-- Every action meets `C` in the state it is taken in. -/
def EachStep (step : σ → α → σ) (C : σ → α → Prop) : σ → List α → Prop
  | _, [] => True
  | s, a :: as => C s a ∧ EachStep step C (step s a) as

/-- Every state of the run meets `P`, the first and the last one included. -/
def EveryState (step : σ → α → σ) (P : σ → Prop) : σ → List α → Prop
  | s, [] => P s
  | s, a :: as => P s ∧ EveryState step P (step s a) as

/-- Some action meets `C` in the state it is taken in. -/
def SomeStep (step : σ → α → σ) (C : σ → α → Prop) : σ → List α → Prop
  | _, [] => False
  | s, a :: as => C s a ∨ SomeStep step C (step s a) as

/-- The first action that meets `C`, if there is one, meets `D`. -/
def FirstStep (step : σ → α → σ) (C D : σ → α → Prop) : σ → List α → Prop
  | _, [] => True
  | s, a :: as => (C s a ∧ D s a) ∨ (¬C s a ∧ FirstStep step C D (step s a) as)

/-- The last action that meets `C`, if there is one, meets `D`. -/
def LastStep (step : σ → α → σ) (C D : σ → α → Prop) : σ → List α → Prop
  | _, [] => True
  | s, a :: as =>
      LastStep step C D (step s a) as ∧ (C s a → SomeStep step C (step s a) as ∨ D s a)

/-- Every state of the run is related to every later one. -/
def Along (step : σ → α → σ) (R : σ → σ → Prop) (s : σ) (as : List α) : Prop :=
  ∀ m n, m ≤ n → R (run step s (as.take m)) (run step s (as.take n))

/-- What the steps of a run add up to, each counted in the state it is taken in. -/
def total {M : Type*} [AddMonoid M] (step : σ → α → σ) (amount : σ → α → M) :
    σ → List α → M
  | _, [] => 0
  | s, a :: as => amount s a + total step amount (step s a) as

/-- The step with the actions taken so far carried along, for a property to speak about. -/
def recorded (step : σ → α → σ) (s : σ × List α) (a : α) : σ × List α :=
  (step s.1 a, s.2 ++ [a])

instance EachStep.decidable (step : σ → α → σ) (C : σ → α → Prop)
    [∀ s a, Decidable (C s a)] : ∀ s as, Decidable (EachStep step C s as)
  | _, [] => .isTrue trivial
  | s, a :: as =>
      haveI := EachStep.decidable step C (step s a) as
      inferInstanceAs (Decidable (C s a ∧ EachStep step C (step s a) as))

instance EveryState.decidable (step : σ → α → σ) (P : σ → Prop)
    [∀ s, Decidable (P s)] : ∀ s as, Decidable (EveryState step P s as)
  | s, [] => inferInstanceAs (Decidable (P s))
  | s, a :: as =>
      haveI := EveryState.decidable step P (step s a) as
      inferInstanceAs (Decidable (P s ∧ EveryState step P (step s a) as))

variable {step : σ → α → σ} {P Q : σ → Prop} {C D : σ → α → Prop}

/-! ## Unfolding and composition -/

@[simp] theorem run_nil (s : σ) : run step s [] = s := rfl

@[simp] theorem run_cons (s : σ) (a : α) (as : List α) :
    run step s (a :: as) = run step (step s a) as := rfl

theorem run_append (s : σ) (as bs : List α) :
    run step s (as ++ bs) = run step (run step s as) bs := by
  induction as generalizing s with
  | nil => rfl
  | cons a as ih => exact ih (step s a)

theorem run_map {β : Type*} {f : β → α} (step : σ → α → σ) (s : σ) (bs : List β) :
    run step s (bs.map f) = run (fun s b => step s (f b)) s bs := by
  induction bs generalizing s with
  | nil => rfl
  | cons b bs ih => exact ih (step s (f b))

@[simp] theorem eachStep_nil (s : σ) : EachStep step C s [] := trivial

@[simp] theorem eachStep_cons (s : σ) (a : α) (as : List α) :
    EachStep step C s (a :: as) ↔ C s a ∧ EachStep step C (step s a) as := Iff.rfl

@[simp] theorem everyState_nil (s : σ) : EveryState step P s [] ↔ P s := Iff.rfl

@[simp] theorem everyState_cons (s : σ) (a : α) (as : List α) :
    EveryState step P s (a :: as) ↔ P s ∧ EveryState step P (step s a) as := Iff.rfl

theorem eachStep_of_forall {W : α → Prop} {as : List α} (h : ∀ a ∈ as, W a) (s : σ) :
    EachStep step (fun _ a => W a) s as := by
  induction as generalizing s with
  | nil => trivial
  | cons a as ih =>
      refine ⟨h a (by simp), ih ?_ _⟩
      intro b hb
      exact h b (by simp [hb])

theorem eachStep_const_iff {W : α → Prop} {as : List α} (s : σ) :
    EachStep step (fun _ a => W a) s as ↔ ∀ a ∈ as, W a := by
  refine ⟨?_, fun h => eachStep_of_forall h s⟩
  induction as generalizing s with
  | nil => simp
  | cons a as ih =>
      intro h b hb
      rcases List.mem_cons.mp hb with heq | hmem
      · rw [heq]
        exact h.1
      · exact ih _ h.2 b hmem

theorem eachStep_and {s : σ} {as : List α} :
    EachStep step (fun s a => C s a ∧ D s a) s as ↔
      EachStep step C s as ∧ EachStep step D s as := by
  induction as generalizing s with
  | nil => simp
  | cons a as ih =>
      simp only [eachStep_cons, ih]
      exact and_and_and_comm

theorem eachStep_append {s : σ} {as bs : List α} :
    EachStep step C s (as ++ bs) ↔ EachStep step C s as ∧ EachStep step C (run step s as) bs := by
  induction as generalizing s with
  | nil => simp
  | cons a as ih => simp [ih, and_assoc]

theorem everyState_append {s : σ} {as bs : List α} :
    EveryState step P s (as ++ bs) ↔
      EveryState step P s as ∧ EveryState step P (run step s as) bs := by
  induction as generalizing s with
  | nil =>
      constructor
      · intro h
        cases bs with
        | nil => exact ⟨h, h⟩
        | cons b bs => exact ⟨h.1, h⟩
      · exact fun h => h.2
  | cons a as ih => simp [ih, and_assoc]

theorem EachStep.mono (h : ∀ s a, C s a → D s a) {s : σ} {as : List α}
    (hc : EachStep step C s as) : EachStep step D s as := by
  induction as generalizing s with
  | nil => trivial
  | cons a as ih => exact ⟨h s a hc.1, ih hc.2⟩

theorem EveryState.mono (h : ∀ s, P s → Q s) {s : σ} {as : List α}
    (hp : EveryState step P s as) : EveryState step Q s as := by
  induction as generalizing s with
  | nil => exact h s hp
  | cons a as ih => exact ⟨h s hp.1, ih hp.2⟩

theorem EveryState.head {s : σ} {as : List α} (h : EveryState step P s as) : P s := by
  cases as with
  | nil => exact h
  | cons a as => exact h.1

/-- `EveryState` is a statement about every prefix of the run. -/
theorem everyState_iff_prefix {s : σ} {as : List α} :
    EveryState step P s as ↔ ∀ n, P (run step s (as.take n)) := by
  induction as generalizing s with
  | nil => simp
  | cons a as ih =>
      rw [everyState_cons, ih]
      constructor
      · rintro ⟨hs, hrest⟩ n
        cases n with
        | zero => exact hs
        | succ n => exact hrest n
      · intro h
        exact ⟨h 0, fun n => h (n + 1)⟩

theorem EveryState.last {s : σ} {as : List α} (h : EveryState step P s as) :
    P (run step s as) := by
  have hp := everyState_iff_prefix.mp h as.length
  rwa [List.take_length] at hp

theorem SomeStep.mono (h : ∀ s a, C s a → D s a) {s : σ} {as : List α}
    (hc : SomeStep step C s as) : SomeStep step D s as := by
  induction as generalizing s with
  | nil => exact hc
  | cons a as ih =>
      rcases hc with hnow | hlater
      · exact Or.inl (h s a hnow)
      · exact Or.inr (ih hlater)

/-- What holds at the first action that meets `D` and is never lost holds at every such action. -/
theorem SomeStep.and_of_first (hkeep : ∀ s a, P s → P (step s a)) (hsub : ∀ s a, C s a → D s a)
    {s : σ} {as : List α} (hfirst : FirstStep step D (fun s _ => P s) s as)
    (hsome : SomeStep step C s as) : SomeStep step (fun s a => C s a ∧ P s) s as := by
  have hholds : ∀ {s as}, P s → SomeStep step C s as →
      SomeStep step (fun s a => C s a ∧ P s) s as := by
    intro s as
    induction as generalizing s with
    | nil => exact fun _ h => h
    | cons a as ih =>
        rintro hp (hnow | hlater)
        · exact Or.inl ⟨hnow, hp⟩
        · exact Or.inr (ih (hkeep s a hp) hlater)
  induction as generalizing s with
  | nil => exact hsome
  | cons a as ih =>
      rcases hfirst with ⟨-, hp⟩ | ⟨hmiss, hrest⟩
      · exact hholds hp hsome
      · rcases hsome with hnow | hlater
        · exact absurd (hsub s a hnow) hmiss
        · exact Or.inr (ih hrest hlater)

/-! ## Recorded runs -/

theorem run_recorded (s : σ) (before as : List α) :
    run (recorded step) (s, before) as = (run step s as, before ++ as) := by
  induction as generalizing s before with
  | nil => simp
  | cons a as ih =>
      rw [run_cons, run_cons, recorded, ih]
      simp

/-- Actions with distinct keys never repeat the key of an action already taken. -/
theorem eachStep_recorded_fresh {κ : Type*} {key : α → κ} {before as : List α}
    (hkeys : ((before ++ as).map key).Nodup) (s : σ) :
    EachStep (recorded step) (fun s a => key a ∉ s.2.map key) (s, before) as := by
  induction as generalizing s before with
  | nil => trivial
  | cons a as ih =>
      constructor
      · rw [List.map_append, List.nodup_append] at hkeys
        intro hmem
        exact hkeys.2.2 _ hmem _ (by simp) rfl
      · apply ih
        rwa [List.append_cons] at hkeys

/-! ## Run rules -/

/-- The invariant rule, with a side condition that the run's actions meet. -/
theorem everyState_of_eachStep (hstep : ∀ s a, P s → C s a → P (step s a))
    {s : σ} {as : List α} (hs : P s) (hc : EachStep step C s as) :
    EveryState step P s as := by
  induction as generalizing s with
  | nil => exact hs
  | cons a as ih => exact ⟨hs, ih (hstep s a hs hc.1) hc.2⟩

/-- The invariant rule: what holds at first and is preserved by every step
holds in every state. -/
theorem everyState_of_step (hstep : ∀ s a, P s → P (step s a)) {s : σ} (as : List α)
    (hs : P s) : EveryState step P s as := by
  induction as generalizing s with
  | nil => exact hs
  | cons a as ih => exact ⟨hs, ih (hstep s a hs)⟩

/-- Where an invariant of the steps that meet `C` makes two conditions on a step the same, they are
the same for runs. -/
theorem eachStep_congr (hstep : ∀ s a, P s → C s a → P (step s a))
    (h : ∀ s a, P s → (C s a ↔ D s a)) {s : σ} (hs : P s) (as : List α) :
    EachStep step C s as ↔ EachStep step D s as := by
  induction as generalizing s with
  | nil => exact Iff.rfl
  | cons a as ih =>
      constructor
      · intro ⟨hc, hrest⟩
        exact ⟨(h s a hs).mp hc, (ih (hstep s a hs hc)).mp hrest⟩
      · intro ⟨hd, hrest⟩
        have hc := (h s a hs).mpr hd
        exact ⟨hc, (ih (hstep s a hs hc)).mpr hrest⟩

/-- The invariant rule together with what a step does besides. -/
theorem everyState_and_eachStep (hstep : ∀ s a, P s → C s a → P (step s a) ∧ D s a)
    {s : σ} {as : List α} (hs : P s) (hc : EachStep step C s as) :
    EveryState step P s as ∧ EachStep step D s as := by
  induction as generalizing s with
  | nil => exact ⟨hs, trivial⟩
  | cons a as ih =>
      have ⟨hnext, hnow⟩ := hstep s a hs hc.1
      have ⟨hstates, hsteps⟩ := ih hnext hc.2
      exact ⟨⟨hs, hstates⟩, hnow, hsteps⟩

/-- The exactness rule. `G` is an invariant, while `P` lasts, of the runs whose
actions meet `W`. If a step out of a good state keeps `P` exactly when it meets
`C`, then `P` holds all along the run exactly when every action meets `C`. -/
theorem everyState_iff_eachStep {G : σ → Prop} {W : σ → α → Prop}
    (hgood : ∀ s a, G s → W s a → P s → G (step s a))
    (hexact : ∀ s a, G s → W s a → P s → (P (step s a) ↔ C s a))
    {s : σ} {as : List α} (hg : G s) (hw : EachStep step W s as) (hs : P s) :
    EveryState step P s as ↔ EachStep step C s as := by
  induction as generalizing s with
  | nil => exact iff_of_true hs trivial
  | cons a as ih =>
      have hiff := hexact s a hg hw.1 hs
      constructor
      · rintro ⟨-, hrest⟩
        have hnext := hrest.head
        exact ⟨hiff.mp hnext, (ih (hgood s a hg hw.1 hs) hw.2 hnext).mp hrest⟩
      · rintro ⟨hc, hrest⟩
        have hnext := hiff.mpr hc
        exact ⟨hs, (ih (hgood s a hg hw.1 hs) hw.2 hnext).mpr hrest⟩

/-- The exactness rule for runs without a restriction on their actions. -/
theorem everyState_iff_eachStep' {G : σ → Prop} (hgood : ∀ s a, G s → G (step s a))
    (hexact : ∀ s a, G s → P s → (P (step s a) ↔ C s a))
    {s : σ} (as : List α) (hg : G s) (hs : P s) :
    EveryState step P s as ↔ EachStep step C s as := by
  have free : EachStep step (fun _ _ => True) s as := eachStep_of_forall (by simp) s
  exact everyState_iff_eachStep (fun s a h _ _ => hgood s a h)
    (fun s a h _ hp => hexact s a h hp) hg free hs

/-- The preorder rule: a preorder holds along a run exactly when every step follows it. -/
theorem along_iff_eachStep {R : σ → σ → Prop} (hrefl : ∀ s, R s s)
    (htrans : ∀ s t u, R s t → R t u → R s u) {s : σ} {as : List α} :
    Along step R s as ↔ EachStep step (fun s a => R s (step s a)) s as := by
  constructor
  · intro h
    induction as generalizing s with
    | nil => trivial
    | cons a as ih =>
        refine ⟨h 0 1 (by omega), ih ?_⟩
        intro m n hmn
        exact h (m + 1) (n + 1) (by omega)
  · intro h
    have hfirst : ∀ {s : σ} {as : List α}, EachStep step (fun s a => R s (step s a)) s as →
        ∀ n, R s (run step s (as.take n)) := by
      intro s as
      induction as generalizing s with
      | nil => simpa using hrefl s
      | cons a as ih =>
          intro h n
          cases n with
          | zero => exact hrefl s
          | succ n => exact htrans _ _ _ h.1 (ih h.2 n)
    intro m n hmn
    have htail : EachStep step (fun s a => R s (step s a)) (run step s (as.take m))
        (as.drop m) := by
      rw [← List.take_append_drop m as, eachStep_append] at h
      exact h.2
    have hlater := hfirst htail (n - m)
    rwa [← run_append, ← List.take_add, show m + (n - m) = n by omega] at hlater

/-- The exactness rule for a property of the states together with one of the steps. -/
theorem everyState_and_eachStep_iff {G : σ → Prop} (hgood : ∀ s a, G s → G (step s a))
    (hexact : ∀ s a, G s → P s → (P (step s a) ∧ D s a ↔ C s a))
    {s : σ} (as : List α) (hg : G s) (hs : P s) :
    EveryState step P s as ∧ EachStep step D s as ↔ EachStep step C s as := by
  induction as generalizing s with
  | nil => exact iff_of_true ⟨hs, trivial⟩ trivial
  | cons a as ih =>
      have hiff := hexact s a hg hs
      constructor
      · rintro ⟨⟨-, hstates⟩, hnow, hlater⟩
        have hnext := hstates.head
        exact ⟨hiff.mp ⟨hnext, hnow⟩, (ih (hgood s a hg) hnext).mp ⟨hstates, hlater⟩⟩
      · rintro ⟨hc, hrest⟩
        have ⟨hnext, hnow⟩ := hiff.mpr hc
        have ⟨hstates, hlater⟩ := (ih (hgood s a hg) hnext).mpr hrest
        exact ⟨⟨hs, hstates⟩, hnow, hlater⟩

/-- The exactness rule for runs with an invariant `G` that gives `P` and that steps keep while they
meet `C`. -/
theorem everyState_and_eachStep_iff_of_invariant {G : σ → Prop} {W : σ → α → Prop}
    (hP : ∀ s, G s → P s) (hstep : ∀ s a, G s → W s a → C s a → G (step s a) ∧ D s a)
    (hexact : ∀ s a, G s → W s a → P (step s a) → C s a)
    {s : σ} {as : List α} (hg : G s) (hw : EachStep step W s as) :
    EveryState step P s as ∧ EachStep step D s as ↔ EachStep step C s as := by
  induction as generalizing s with
  | nil => exact iff_of_true ⟨hP s hg, trivial⟩ trivial
  | cons a as ih =>
      constructor
      · intro ⟨⟨_, hstates⟩, _, hlater⟩
        have hc := hexact s a hg hw.1 hstates.head
        have ⟨hnext, _⟩ := hstep s a hg hw.1 hc
        exact ⟨hc, (ih hnext hw.2).mp ⟨hstates, hlater⟩⟩
      · intro ⟨hc, hrest⟩
        have ⟨hnext, hnow⟩ := hstep s a hg hw.1 hc
        have ⟨hstates, hlater⟩ := (ih hnext hw.2).mpr hrest
        exact ⟨⟨hP s hg, hstates⟩, hnow, hlater⟩

/-- The exactness rule for runs with an invariant `G` that gives `P`. -/
theorem everyState_iff_eachStep_of_invariant {G : σ → Prop} (hP : ∀ s, G s → P s)
    (hstep : ∀ s a, G s → C s a → G (step s a)) (hexact : ∀ s a, G s → P (step s a) → C s a)
    {s : σ} (as : List α) (hg : G s) : EveryState step P s as ↔ EachStep step C s as := by
  have free : EachStep step (fun _ _ => True) s as := eachStep_of_forall (by simp) s
  have hiff := everyState_and_eachStep_iff_of_invariant (W := fun _ _ => True)
    (D := fun _ _ => True) hP (fun s a h _ hc => ⟨hstep s a h hc, trivial⟩)
    (fun s a h _ => hexact s a h) hg free
  rw [← hiff]
  exact (and_iff_left free).symm

/-- The exactness rule for a property of the states together with a preorder between them. -/
theorem everyState_and_along_iff {G : σ → Prop} {R : σ → σ → Prop} (hrefl : ∀ s, R s s)
    (htrans : ∀ s t u, R s t → R t u → R s u) (hgood : ∀ s a, G s → G (step s a))
    (hexact : ∀ s a, G s → P s → (P (step s a) ∧ R s (step s a) ↔ C s a))
    {s : σ} (as : List α) (hg : G s) (hs : P s) :
    EveryState step P s as ∧ Along step R s as ↔ EachStep step C s as := by
  rw [along_iff_eachStep hrefl htrans]
  exact everyState_and_eachStep_iff hgood hexact as hg hs

/-- The accounting rule: an invariant with a balance that every step moves by its amount. -/
theorem run_accounts {M : Type*} [AddMonoid M] {amount : σ → α → M} {I : M → σ → Prop}
    (hstep : ∀ m s a, I m s → C s a → I (m + amount s a) (step s a))
    {m : M} {s : σ} {as : List α} (h : I m s) (hc : EachStep step C s as) :
    I (m + total step amount s as) (run step s as) := by
  induction as generalizing m s with
  | nil =>
      rw [total, add_zero]
      exact h
  | cons a as ih =>
      have hnext := ih (hstep m s a h hc.1) hc.2
      rw [add_assoc] at hnext
      exact hnext

/-- The accounting rule for a balance that every step moves by an amount of its own. -/
theorem run_accounts_const {M : Type*} [AddMonoid M] {amount : α → M} {balance : σ → M}
    (hstep : ∀ s a, balance (step s a) = balance s + amount a) (s : σ) (as : List α) :
    balance (run step s as) = balance s + (as.map amount).sum := by
  induction as generalizing s with
  | nil => simp
  | cons a as ih => rw [run_cons, ih, hstep, List.map_cons, List.sum_cons, add_assoc]

/-- The overwriting rule. Actions that meet `C` decide about `P` whatever held before, all
others leave it as it is; so the last of them decides. -/
theorem run_iff_lastStep (hkeep : ∀ s a, ¬C s a → (P (step s a) ↔ P s))
    (hwrite : ∀ s a, C s a → (P (step s a) ↔ D s a)) (s : σ) (as : List α) :
    P (run step s as) ↔ (SomeStep step C s as ∨ P s) ∧ LastStep step C D s as := by
  induction as generalizing s with
  | nil => simp [SomeStep, LastStep]
  | cons a as ih =>
      rw [run_cons, ih]
      by_cases hc : C s a
      · rw [hwrite s a hc]
        simp only [SomeStep, LastStep, hc, true_or, true_and, forall_const]
        exact and_comm
      · rw [hkeep s a hc]
        simp only [SomeStep, LastStep, hc, false_or, false_implies, and_true]

/-- The simulation rule: a relation that every step of the two systems keeps
holds between the ends of the two runs. -/
theorem run_simulates {step' : τ → α → τ} {R : σ → τ → Prop} {as : List α}
    (hstep : ∀ s t, ∀ a ∈ as, R s t → R (step s a) (step' t a))
    {s : σ} {t : τ} (h : R s t) : R (run step s as) (run step' t as) := by
  induction as generalizing s t with
  | nil => exact h
  | cons a as ih =>
      have hnext := hstep s t a (by simp) h
      exact ih (fun s t b hb => hstep s t b (by simp [hb])) hnext

/-- The projection rule: what holds along a run of the larger system holds of what it carries. -/
theorem everyState_map_iff {step' : τ → α → τ} {f : σ → τ} {Q : τ → Prop}
    (hstep : ∀ s a, f (step s a) = step' (f s) a) {s : σ} {as : List α} :
    EveryState step (fun s => Q (f s)) s as ↔ EveryState step' Q (f s) as := by
  induction as generalizing s with
  | nil => exact Iff.rfl
  | cons a as ih => rw [everyState_cons, everyState_cons, ih, hstep]

end TradingPlatform.Base
