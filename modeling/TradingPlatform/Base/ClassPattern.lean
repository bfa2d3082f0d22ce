import Mathlib.Computability.RegularExpressions
import Mathlib.Tactic.Common

/-! # Texts matched by the classes of their characters

A pattern over classes reads a text through a classifier, so one pattern serves engines that
differ in what their classes hold.
-/

namespace TradingPlatform.Base.ClassPattern

open RegularExpression

variable {α κ : Type}

def oneOrMore (P : RegularExpression κ) : RegularExpression κ := P * star P

def zeroOrOne (P : RegularExpression κ) : RegularExpression κ := 1 + P

/-- The classes that a pattern names. -/
def classes : RegularExpression κ → List κ
  | .zero => []
  | .epsilon => []
  | .char a => [a]
  | .plus P Q => classes P ++ classes Q
  | .comp P Q => classes P ++ classes Q
  | .star P => classes P

theorem flatten_eq_of_singletons {a : κ} {words : List (List κ)} (h : ∀ w ∈ words, w = [a]) :
    words.flatten = List.replicate words.length a := by
  induction words with
  | nil => rfl
  | cons w words ih =>
    have hw := h w (by simp)
    have htail := ih fun v hv => h v (by simp [hv])
    simp [hw, htail, List.replicate_succ]

section

variable [DecidableEq κ]

def Accepts (classify : α → κ) (P : RegularExpression κ) (text : List α) : Prop :=
  P.rmatch (text.map classify) = true

instance (classify : α → κ) (P : RegularExpression κ) (text : List α) :
    Decidable (Accepts classify P text) :=
  inferInstanceAs (Decidable (_ = true))

variable {classify : α → κ} {P Q : RegularExpression κ} {text : List α}

theorem accepts_iff_mem : Accepts classify P text ↔ text.map classify ∈ P.matches' :=
  rmatch_iff_matches' P _

theorem accepts_char {a : κ} :
    Accepts classify (char a) text ↔ ∃ c, text = [c] ∧ classify c = a := by
  unfold Accepts
  rw [char_rmatch_iff, List.map_eq_singleton_iff]

theorem accepts_add :
    Accepts classify (P + Q) text ↔ Accepts classify P text ∨ Accepts classify Q text :=
  add_rmatch_iff P Q _

theorem accepts_mul :
    Accepts classify (P * Q) text ↔
      ∃ front back, text = front ++ back ∧ Accepts classify P front ∧ Accepts classify Q back := by
  unfold Accepts
  rw [mul_rmatch_iff]
  constructor
  · rintro ⟨t, u, h, hP, hQ⟩
    obtain ⟨front, back, rfl, rfl, rfl⟩ := List.map_eq_append_iff.mp h
    exact ⟨front, back, rfl, hP, hQ⟩
  · rintro ⟨front, back, rfl, hP, hQ⟩
    exact ⟨_, _, List.map_append, hP, hQ⟩

theorem accepts_zeroOrOne :
    Accepts classify (zeroOrOne P) text ↔ text = [] ∨ Accepts classify P text := by
  unfold zeroOrOne
  rw [accepts_add]
  simp [Accepts]

theorem rmatch_star_char {a : κ} {word : List κ} :
    (star (char a)).rmatch word = true ↔ ∀ x ∈ word, x = a := by
  rw [rmatch_iff_matches', matches'_star, matches'_char, Language.mem_kstar]
  constructor
  · rintro ⟨words, rfl, hwords⟩
    rw [flatten_eq_of_singletons hwords]
    simp
  · intro h
    refine ⟨List.replicate word.length [a], ?_, ?_⟩
    · rw [flatten_eq_of_singletons (a := a) (by simp)]
      simpa using List.eq_replicate_of_mem h
    · intro y hy
      exact List.eq_of_mem_replicate hy

theorem accepts_oneOrMore_char {a : κ} :
    Accepts classify (oneOrMore (char a)) text ↔ text ≠ [] ∧ ∀ c ∈ text, classify c = a := by
  unfold oneOrMore
  rw [accepts_mul]
  constructor
  · rintro ⟨front, back, rfl, hfront, hback⟩
    obtain ⟨c, rfl, hc⟩ := accepts_char.mp hfront
    have hrest := rmatch_star_char.mp hback
    simpa [hc] using hrest
  · rintro ⟨hne, hall⟩
    obtain ⟨c, rest, rfl⟩ := List.exists_cons_of_ne_nil hne
    refine ⟨[c], rest, rfl, accepts_char.mpr ⟨c, rfl, hall c (by simp)⟩, ?_⟩
    apply rmatch_star_char.mpr
    intro x hx
    obtain ⟨d, hd, rfl⟩ := List.mem_map.mp hx
    exact hall d (by simp [hd])

/-- Classifiers that agree on a text accept it alike. -/
theorem accepts_congr {classify' : α → κ} (h : ∀ c ∈ text, classify c = classify' c) :
    Accepts classify P text ↔ Accepts classify' P text := by
  unfold Accepts
  rw [List.map_congr_left h]

end

theorem mem_classes_of_mem {P : RegularExpression κ} {word : List κ} (h : word ∈ P.matches') :
    ∀ a ∈ word, a ∈ classes P := by
  induction P generalizing word with
  | zero => cases h
  | epsilon =>
    obtain rfl : word = [] := h
    simp
  | char b =>
    obtain rfl : word = [b] := h
    simp [classes]
  | plus P Q ihP ihQ =>
    intro a ha
    rcases h with hP | hQ
    · simp [classes, ihP hP a ha]
    · simp [classes, ihQ hQ a ha]
  | comp P Q ihP ihQ =>
    obtain ⟨front, hP, back, hQ, rfl⟩ := Language.mem_mul.mp h
    intro a ha
    rcases List.mem_append.mp ha with hfront | hback
    · simp [classes, ihP hP a hfront]
    · simp [classes, ihQ hQ a hback]
  | star P ih =>
    obtain ⟨words, rfl, hwords⟩ := Language.mem_kstar.mp h
    intro a ha
    obtain ⟨w, hw, haw⟩ := List.mem_flatten.mp ha
    exact ih (hwords w hw) a haw

/-- Every character of an accepted text is of a class that the pattern names. -/
theorem classify_mem_classes [DecidableEq κ] {classify : α → κ} {P : RegularExpression κ}
    {text : List α} (h : Accepts classify P text) {c : α} (hc : c ∈ text) :
    classify c ∈ classes P :=
  mem_classes_of_mem (accepts_iff_mem.mp h) _ (List.mem_map_of_mem hc)

end TradingPlatform.Base.ClassPattern
