import Mathlib.Data.Int.Notation
import Mathlib.Data.List.Chain
import Mathlib.Logic.Function.Basic

/-! # Stacks kept as a top and copies by version

The members of a stack have consecutive versions. Only the top is at hand; when
another member is pushed, a copy of it is kept under its version. A pop leaves
the copies as they are, so that those above the top may be stale.
-/

namespace TradingPlatform.Base

variable {α : Type*} {version : α → ℤ} {linked : α → α → Prop}

/-- Each member is `linked` to the one it was pushed on, and all but the top have their copies. -/
structure Backed (version : α → ℤ) (linked : α → α → Prop) (copies : ℤ → Option α)
    (stack : List α) : Prop where
  chain : stack.IsChain fun a b => version a = version b + 1 ∧ linked a b
  kept : ∀ a ∈ stack.tail, copies (version a) = some a
  bottom : ∀ b ∈ stack.getLast?, ∀ v < version b, copies v = none
  fresh : stack = [] → ∀ v, copies v = none

namespace Backed

variable {copies : ℤ → Option α} {stack : List α} {a b : α}

theorem empty : Backed version linked (fun _ => none) [] where
  chain := List.isChain_nil
  kept := by simp
  bottom := by simp
  fresh := by simp

theorem first (h : Backed version linked copies []) (a : α) : Backed version linked copies [a] where
  chain := List.isChain_singleton a
  kept := by simp
  bottom := fun _ _ v _ => h.fresh rfl v
  fresh := by simp

theorem version_lt
    (hchain : (a :: stack).IsChain fun a b => version a = version b + 1 ∧ linked a b) :
    ∀ b ∈ stack, version b < version a := by
  induction stack generalizing a with
  | nil => simp
  | cons c stack ih =>
      rw [List.isChain_cons_cons] at hchain
      obtain ⟨⟨hversion, -⟩, hrest⟩ := hchain
      intro b hb
      rcases List.mem_cons.mp hb with rfl | hb
      · omega
      · have hlt := ih hrest b hb
        omega

theorem push (h : Backed version linked copies (a :: stack)) {new : α}
    (hversion : version new = version a + 1) (hlinked : linked new a) :
    Backed version linked (Function.update copies (version a) (some a)) (new :: a :: stack) where
  chain := List.isChain_cons_cons.mpr ⟨⟨hversion, hlinked⟩, h.chain⟩
  kept := by
    intro b hb
    rcases List.mem_cons.mp hb with rfl | hb
    · exact Function.update_self ..
    · have hlt := version_lt h.chain b hb
      rw [Function.update_of_ne (by omega)]
      exact h.kept b hb
  bottom := by
    intro b hb v hv
    have hlast : b ∈ (a :: stack).getLast? := by
      simpa using hb
    have hle : version b ≤ version a := by
      rcases List.mem_cons.mp (List.mem_of_mem_getLast? hlast) with rfl | hmem
      · omega
      · have hlt := version_lt h.chain b hmem
        omega
    rw [Function.update_of_ne (by omega)]
    exact h.bottom b hlast v hv
  fresh := by simp

theorem pop (h : Backed version linked copies (a :: b :: stack)) :
    Backed version linked copies (b :: stack) where
  chain := (List.isChain_cons_cons.mp h.chain).2
  kept := fun c hc => h.kept c (List.mem_cons_of_mem b hc)
  bottom := by
    intro c hc
    exact h.bottom c (by simpa using hc)
  fresh := by simp

/-- What a pop of the top looks for is the member below it. -/
theorem copy_below (h : Backed version linked copies (a :: b :: stack)) :
    copies (version a - 1) = some b ∧ linked a b := by
  obtain ⟨⟨hversion, hlinked⟩, -⟩ := List.isChain_cons_cons.mp h.chain
  have hbelow : version a - 1 = version b := by
    omega
  rw [hbelow]
  exact ⟨h.kept b List.mem_cons_self, hlinked⟩

theorem copy_bottom (h : Backed version linked copies [a]) : copies (version a - 1) = none :=
  h.bottom a rfl _ (by omega)

end Backed

end TradingPlatform.Base
