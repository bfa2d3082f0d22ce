import Mathlib.Algebra.GroupWithZero.Nat
import Mathlib.Data.List.DropRight

/-! # Stripping white space and reading integers

`strip` removes white space at both ends of a text, as the method of that name
does in Python; `isSpace` lists the characters that count. `parseInt` reads what
`int` reads, in ASCII digits.
-/

namespace TradingPlatform.Base

def isSpace (c : Char) : Bool :=
  let n := c.toNat
  (9 ≤ n && n ≤ 13) || (28 ≤ n && n ≤ 32) || n = 133 || n = 160 || n = 5760 ||
    (8192 ≤ n && n ≤ 8202) || n = 8232 || n = 8233 || n = 8239 || n = 8287 || n = 12288

def strip (s : String) : String :=
  String.ofList ((s.toList.dropWhile isSpace).rdropWhile isSpace)

/-- The value of the digits, after those that made `n`; single underscores may stand between. -/
def digitsFrom : ℕ → List Char → Option ℕ
  | n, [] => some n
  | n, '_' :: c :: cs =>
      if c.isDigit then digitsFrom (10 * n + (c.toNat - 48)) cs else none
  | n, c :: cs => if c.isDigit then digitsFrom (10 * n + (c.toNat - 48)) cs else none

def digits : List Char → Option ℕ
  | c :: cs => if c.isDigit then digitsFrom (c.toNat - 48) cs else none
  | [] => none

def parseInt (s : String) : Option ℤ :=
  match (strip s).toList with
  | '-' :: cs => (digits cs).map fun n => -(n : ℤ)
  | '+' :: cs => (digits cs).map fun n => (n : ℤ)
  | cs => (digits cs).map fun n => (n : ℤ)

theorem length_intercalate (sep : String) {parts : List String} (h : parts ≠ []) :
    (sep.intercalate parts).length + sep.length =
      (parts.map fun part => part.length + sep.length).sum := by
  induction parts with
  | nil => exact absurd rfl h
  | cons part parts ih =>
      by_cases hparts : parts = []
      · subst hparts
        simp
      · rw [String.intercalate_cons_of_ne_nil hparts, List.map_cons, List.sum_cons, ← ih hparts]
        simp only [String.length_append]
        omega

end TradingPlatform.Base
