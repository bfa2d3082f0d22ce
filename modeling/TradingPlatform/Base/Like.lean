import Mathlib.Data.List.Infix
import Mathlib.Tactic.TypeStar

/-! # The SQL `LIKE` predicate

A pattern is a list of characters in which `%` stands for any text, `_` for any
one character and a backslash quotes the character after it. `likeTokens`
resolves the quoting, `like` decides the match by recursion on the tokens, and
`Like` is the relation the decision is proved against.
-/

namespace TradingPlatform.Base

inductive LikeToken where
  | anyText
  | anyChar
  | lit (c : Char)
  deriving DecidableEq, Repr

def likeTokens : List Char → List LikeToken
  | [] => []
  | '%' :: cs => .anyText :: likeTokens cs
  | '_' :: cs => .anyChar :: likeTokens cs
  | '\\' :: c :: cs => .lit c :: likeTokens cs
  | c :: cs => .lit c :: likeTokens cs

/-- The texts that a token list matches. -/
inductive Like : List LikeToken → List Char → Prop where
  | nil : Like [] []
  | anyText (pre : List Char) {p : List LikeToken} {s : List Char} :
      Like p s → Like (.anyText :: p) (pre ++ s)
  | anyChar (c : Char) {p : List LikeToken} {s : List Char} :
      Like p s → Like (.anyChar :: p) (c :: s)
  | lit (c : Char) {p : List LikeToken} {s : List Char} :
      Like p s → Like (.lit c :: p) (c :: s)

def like : List LikeToken → List Char → Bool
  | [], s => s.isEmpty
  | .anyText :: p, s => s.tails.any (like p)
  | .anyChar :: _, [] => false
  | .anyChar :: p, _ :: s => like p s
  | .lit _ :: _, [] => false
  | .lit c :: p, d :: s => c = d && like p s

/-- `text LIKE pattern`. -/
def sqlLike (pattern text : String) : Bool := like (likeTokens pattern.toList) text.toList

theorem like_iff (p : List LikeToken) (s : List Char) : like p s = true ↔ Like p s := by
  induction p generalizing s with
  | nil =>
      cases s with
      | nil => exact iff_of_true rfl .nil
      | cons c s => exact iff_of_false (by simp [like]) (by rintro ⟨⟩)
  | cons t p ih =>
      cases t with
      | anyText =>
          simp only [like, List.any_eq_true, List.mem_tails]
          constructor
          · rintro ⟨suffix, ⟨pre, rfl⟩, h⟩
            exact .anyText pre ((ih suffix).mp h)
          · rintro (_ | ⟨pre, h⟩)
            exact ⟨_, List.suffix_append pre _, (ih _).mpr h⟩
      | anyChar =>
          cases s with
          | nil => exact iff_of_false (by simp [like]) (by rintro ⟨⟩)
          | cons c s =>
              rw [like, ih]
              constructor
              · exact .anyChar c
              · rintro (_ | _ | ⟨_, h⟩)
                exact h
      | lit c =>
          cases s with
          | nil => exact iff_of_false (by simp [like]) (by rintro ⟨⟩)
          | cons d s =>
              simp only [like, Bool.and_eq_true, decide_eq_true_eq, ih]
              constructor
              · rintro ⟨rfl, h⟩
                exact .lit c h
              · rintro (_ | _ | _ | ⟨_, h⟩)
                exact ⟨rfl, h⟩

/-! ## Words between two wildcard characters -/

/-- The tokens of a word that contains no metacharacter. -/
def litTokens (word : List Char) : List LikeToken := word.map .lit

theorem like_litTokens_append {word : List Char} {p : List LikeToken} {s : List Char} :
    Like (litTokens word ++ p) s ↔ ∃ rest, s = word ++ rest ∧ Like p rest := by
  induction word generalizing s with
  | nil => simp [litTokens]
  | cons c word ih =>
      constructor
      · rintro (_ | _ | _ | ⟨_, h⟩)
        obtain ⟨rest, rfl, hrest⟩ := ih.mp h
        exact ⟨rest, rfl, hrest⟩
      · rintro ⟨rest, rfl, hrest⟩
        exact .lit c (ih.mpr ⟨rest, rfl, hrest⟩)

theorem word_of_like {word s : List Char} {p : List LikeToken}
    (h : Like (.anyText :: .anyChar :: (litTokens word ++ .anyChar :: p)) s) :
    ∃ pre before after post, s = pre ++ before :: (word ++ after :: post) := by
  obtain _ | ⟨pre, h⟩ := h
  obtain _ | _ | ⟨before, h⟩ := h
  obtain ⟨rest, rfl, hrest⟩ := like_litTokens_append.mp h
  obtain _ | _ | ⟨after, hpost⟩ := hrest
  exact ⟨pre, before, after, _, rfl⟩

/-- `%_word_%` matches exactly the texts in which the word stands with at least one
character before it and at least one after it. -/
theorem like_word_between {word s : List Char} :
    Like (.anyText :: .anyChar :: (litTokens word ++ [.anyChar, .anyText])) s ↔
      ∃ pre before after post, s = pre ++ before :: (word ++ after :: post) := by
  constructor
  · exact word_of_like
  · rintro ⟨pre, before, after, post, rfl⟩
    refine .anyText pre (.anyChar before (like_litTokens_append.mpr ⟨_, rfl, .anyChar after ?_⟩))
    simpa using Like.anyText post Like.nil

end TradingPlatform.Base
