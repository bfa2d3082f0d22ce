import Mathlib.Data.List.Basic
import Mathlib.Data.List.Nodup
import Mathlib.Data.List.TakeDrop
import Mathlib.Tactic.TypeStar

/-! # Paging with a cursor

A server lists items page by page; the cursor of the next request is the key of
the last item of the page before, and the server may or may not list that item
again. The client asks for one item more once it has a cursor, drops the item it
knows, and stops at a short page or after a number of pages. What it collects is
a prefix of the list, whose length `reach` counts without looking at the items.
-/

namespace TradingPlatform.Base.Paging

variable {α κ : Type*} [DecidableEq κ] (key : α → κ) (repeats : ℕ → Bool)

/-! ## Server -/

/-- Where a page starts; `repeats n` says whether the `n`-th item is listed again as a cursor. -/
def start (items : List α) : Option κ → ℕ
  | none => 0
  | some cursor =>
      let position := items.findIdx fun x => key x = cursor
      if repeats (position + 1) then position else position + 1

def pageFrom (items : List α) (size : ℕ) (cursor : Option κ) : List α :=
  (items.drop (start key repeats items cursor)).take size

/-! ## Client -/

def unseen (cursor : Option κ) (page : List α) : List α :=
  match cursor with
  | none => page
  | some last => page.filter fun x => key x ≠ last

def requestSize (pageSize : ℕ) (cursor : Option κ) : ℕ :=
  pageSize + if cursor.isSome then 1 else 0

def fetchPages (request : ℕ → Option κ → List α) (pageSize : ℕ) : ℕ → Option κ → List α
  | 0, _ => []
  | pages + 1, cursor =>
      let page := request (requestSize pageSize cursor) cursor
      if page.length < requestSize pageSize cursor then unseen key cursor page
      else
        match page.getLast? with
        | none => unseen key cursor page
        | some last =>
            unseen key cursor page ++ fetchPages request pageSize pages (some (key last))

/-! ## How far the client gets -/

/-- How many items a page adds to the first `n`. -/
def advance (pageSize n : ℕ) : ℕ := pageSize + if n = 0 ∨ repeats n then 0 else 1

/-- How many items are collected after a number of further pages. -/
def reach (pageSize : ℕ) : ℕ → ℕ → ℕ
  | 0, n => n
  | pages + 1, n => reach pageSize pages (n + advance repeats pageSize n)

theorem le_reach (pageSize pages n : ℕ) : n ≤ reach repeats pageSize pages n := by
  induction pages generalizing n with
  | zero => exact Nat.le_refl n
  | succ pages ih =>
      have hnext := ih (n + advance repeats pageSize n)
      simp only [reach]
      omega

/-- Without room on a page nothing is collected. -/
theorem reach_of_pageSize_zero (pages : ℕ) : reach repeats 0 pages 0 = 0 := by
  induction pages with
  | zero => rfl
  | succ pages ih =>
      rw [reach]
      exact ih

/-! ## Pages of a list -/

/-- The cursor points at the last of the first `n` items. -/
def Marks (items : List α) (n : ℕ) : Option κ → Prop
  | none => n = 0
  | some cursor => ∃ before x after, items = before ++ x :: after ∧
      n = before.length + 1 ∧ key x = cursor

variable {key repeats} {items : List α}

/-- Keys are distinct, so the cursor is found where it was taken. -/
theorem findIdx_cursor {before after : List α} {x : α}
    (hnodup : ((before ++ x :: after).map key).Nodup) :
    (before ++ x :: after).findIdx (fun y => key y = key x) = before.length := by
  have hnone : before.findIdx (fun y => key y = key x) = before.length := by
    rw [List.findIdx_eq_length]
    intro y hy
    rw [List.map_append, List.nodup_append] at hnodup
    have hne := hnodup.2.2 _ (List.mem_map_of_mem hy) (key x) (by simp)
    simpa using hne
  rw [List.findIdx_append, hnone, List.findIdx_cons]
  simp

theorem unseen_eq_self {last : κ} {page : List α} (h : last ∉ page.map key) :
    unseen key (some last) page = page := by
  rw [unseen, List.filter_eq_self]
  intro y hy
  rw [decide_eq_true_eq]
  rintro rfl
  exact h (List.mem_map_of_mem hy)

/-- What is new on the page that a cursor asks for, when it is the last one, and where the
next cursor points. -/
theorem pageFrom_spec (repeats : ℕ → Bool) (hnodup : (items.map key).Nodup) {n : ℕ}
    {cursor : Option κ} (hmarks : Marks key items n cursor) (pageSize : ℕ) :
    let size := requestSize pageSize cursor
    let page := pageFrom key repeats items size cursor
    unseen key cursor page = (items.drop n).take (advance repeats pageSize n) ∧
      (page.length < size ↔ items.length < n + advance repeats pageSize n) ∧
      (n + advance repeats pageSize n ≤ items.length → 0 < n + advance repeats pageSize n →
        page.getLast? = items[n + advance repeats pageSize n - 1]?) := by
  cases cursor with
  | none =>
      obtain rfl : n = 0 := hmarks
      simp only [requestSize, pageFrom, start, advance, unseen]
      simp only [Option.isSome_none, Bool.false_eq_true, if_false, List.drop_zero, true_or, if_true,
        Nat.add_zero, Nat.zero_add]
      refine ⟨by simp, by rw [List.length_take]; omega, ?_⟩
      intro hle hpos
      rw [List.getLast?_take, if_neg (by omega)]
      simp [List.getElem?_eq_getElem (show pageSize - 1 < items.length by omega)]
  | some cursor =>
      obtain ⟨before, x, after, rfl, rfl, rfl⟩ := hmarks
      have hfound := findIdx_cursor hnodup
      have hfresh : key x ∉ after.map key := by
        rw [List.map_append, List.map_cons, List.nodup_append] at hnodup
        exact (List.nodup_cons.mp hnodup.2.1).1
      have hdrop : (before ++ x :: after).drop (before.length + 1) = after := by simp
      have hdrop' : (before ++ x :: after).drop before.length = x :: after := by simp
      have hlength : (before ++ x :: after).length = before.length + 1 + after.length := by
        simp
        omega
      simp only [requestSize, pageFrom, start, hfound, Option.isSome_some, if_true]
      cases hrepeats : repeats (before.length + 1) with
      | true =>
          have hadvance : advance repeats pageSize (before.length + 1) = pageSize := by
            simp [advance, hrepeats]
          rw [if_pos rfl, hdrop', hadvance, hdrop, List.take_succ_cons, hlength]
          refine ⟨?_, ?_, ?_⟩
          · have htail : key x ∉ (after.take pageSize).map key := by
              intro hmem
              exact hfresh (List.map_subset _ (List.take_subset _ _) hmem)
            have hself := unseen_eq_self htail
            simp only [unseen] at hself ⊢
            rw [List.filter_cons_of_neg (by simp), hself]
          · rw [List.length_cons, List.length_take]
            omega
          · intro hle hpos
            rw [← List.take_succ_cons, List.getLast?_take, if_neg (by omega)]
            have hindex : before.length + 1 + pageSize - 1 = before.length + pageSize := by omega
            rw [hindex, List.getElem?_append_right (by omega)]
            simp only [Nat.add_sub_cancel_left, Nat.add_sub_cancel]
            rw [List.getElem?_eq_getElem (by simp; omega)]
            rfl
      | false =>
          have hadvance : advance repeats pageSize (before.length + 1) = pageSize + 1 := by
            simp [advance, hrepeats]
          rw [if_neg (by simp), hdrop, hadvance, hlength]
          refine ⟨?_, ?_, ?_⟩
          · apply unseen_eq_self
            intro hmem
            exact hfresh (List.map_subset _ (List.take_subset _ _) hmem)
          · rw [List.length_take]
            omega
          · intro hle hpos
            rw [List.getLast?_take, if_neg (by omega)]
            have hindex : before.length + 1 + (pageSize + 1) - 1 =
                before.length + (pageSize + 1) := by omega
            rw [hindex, List.getElem?_append_right (by omega)]
            simp only [Nat.add_sub_cancel_left, Nat.add_sub_cancel]
            rw [List.getElem?_cons_succ, List.getElem?_eq_getElem (by omega)]
            rfl

omit [DecidableEq κ] in
theorem marks_getElem? {n : ℕ} {x : α} (hn : 0 < n) (hx : items[n - 1]? = some x) :
    Marks key items n (some (key x)) := by
  obtain ⟨hlt, hx⟩ := List.getElem?_eq_some_iff.mp hx
  refine ⟨items.take (n - 1), x, items.drop n, ?_, ?_, rfl⟩
  · have hsplit := List.take_append_drop (n - 1) items
    rw [List.drop_eq_getElem_cons hlt, hx, Nat.sub_add_cancel hn] at hsplit
    exact hsplit.symm
  · rw [List.length_take]
    omega

/-- Collecting on from the first `n` items. -/
theorem fetchPages_from (hnodup : (items.map key).Nodup) (pageSize pages : ℕ) {n : ℕ}
    {cursor : Option κ} (hmarks : Marks key items n cursor) :
    fetchPages key (pageFrom key repeats items) pageSize pages cursor =
      (items.drop n).take (reach repeats pageSize pages n - n) := by
  induction pages generalizing n cursor with
  | zero => simp [fetchPages, reach]
  | succ pages ih =>
      obtain ⟨hnew, hshort, hlast⟩ := pageFrom_spec repeats hnodup hmarks pageSize
      have hreach := le_reach repeats pageSize pages (n + advance repeats pageSize n)
      simp only [fetchPages, reach, hnew]
      split
      · -- A short page is the end of the list.
        rename_i hlength
        have hend := hshort.mp hlength
        rw [List.take_of_length_le (by rw [List.length_drop]; omega),
          List.take_of_length_le (by rw [List.length_drop]; omega)]
      · rename_i hlength
        have hfull : n + advance repeats pageSize n ≤ items.length := by
          have hlength := mt hshort.mpr hlength
          omega
        by_cases hpos : 0 < n + advance repeats pageSize n
        · have hindex : n + advance repeats pageSize n - 1 < items.length := by omega
          rw [hlast hfull hpos, List.getElem?_eq_getElem hindex]
          simp only
          rw [ih (marks_getElem? hpos (List.getElem?_eq_getElem hindex)), ← List.drop_drop,
            ← List.take_add]
          congr 1
          omega
        · -- Only a request for an empty first page gets here.
          obtain rfl : n = 0 := by omega
          have hsize : pageSize = 0 := by
            rw [advance] at hpos
            omega
          subst hsize
          have hstay : 0 + advance repeats 0 0 = 0 := by simp [advance]
          rw [hstay, reach_of_pageSize_zero]
          cases cursor with
          | none => simp [pageFrom, requestSize, advance]
          | some cursor =>
              obtain ⟨before, x, after, -, hn, -⟩ := hmarks
              omega

/-- The pages together are the newest items, as many as `reach` says. -/
theorem fetchPages_eq_take (hnodup : (items.map key).Nodup) (pageSize pages : ℕ) :
    fetchPages key (pageFrom key repeats items) pageSize pages none =
      items.take (reach repeats pageSize pages 0) := by
  have hstart : Marks key items 0 none := rfl
  rw [fetchPages_from hnodup pageSize pages hstart, List.drop_zero, Nat.sub_zero]

end TradingPlatform.Base.Paging
