import TradingPlatform.Base.Frames

/-! # Dated frames

Each row has a date. An operation is local if it commutes with every restriction of the dates:
what it makes of some dates does not depend on the rows of others.
-/

namespace TradingPlatform.Base

variable {ρ σ δ : Type*} {date : ρ → δ} {date' : σ → δ}

/-- The rows whose date is meant. -/
def onDates (date : ρ → δ) (p : δ → Bool) (rows : List ρ) : List ρ :=
  rows.filter fun r => p (date r)

@[simp] theorem mem_onDates {p : δ → Bool} {rows : List ρ} {r : ρ} :
    r ∈ onDates date p rows ↔ r ∈ rows ∧ p (date r) = true := List.mem_filter

/-- Dates that are kept anyway may be left out first. -/
theorem onDates_onDates {p q : δ → Bool} (h : ∀ d, q d = true → p d = true) (rows : List ρ) :
    onDates date q (onDates date p rows) = onDates date q rows := by
  unfold onDates
  rw [List.filter_filter]
  apply List.filter_congr
  intro r _
  cases hq : q (date r) with
  | false => rfl
  | true => rw [h _ hq, Bool.true_and]

/-- The operation commutes with every restriction of the dates. -/
def DateLocal (date : ρ → δ) (date' : σ → δ) (f : List ρ → List σ) : Prop :=
  ∀ p rows, f (onDates date p rows) = onDates date' p (f rows)

theorem dateLocal_map {f : ρ → σ} (h : ∀ r, date' (f r) = date r) :
    DateLocal date date' (List.map f) := by
  intro p rows
  unfold onDates
  rw [List.filter_map]
  congr 1
  apply List.filter_congr
  intro r _
  rw [Function.comp_apply, h]

section Groups

variable [LinearOrder δ]

theorem withKey_onDates {p : δ → Bool} {d : δ} (hd : p d = true) (rows : List ρ) :
    withKey date (onDates date p rows) d = withKey date rows d := by
  have hkept : ∀ d', decide (d' = d) = true → p d' = true := by
    intro d' hd'
    rw [of_decide_eq_true hd', hd]
  exact onDates_onDates hkept rows

/-- A column computed over each date. -/
theorem dateLocal_overDates {g : ρ → List ρ → σ} (h : ∀ r group, date' (g r group) = date r) :
    DateLocal date date' fun rows => rows.map fun r => g r (withKey date rows (date r)) := by
  intro p rows
  have hgroup : ∀ r ∈ onDates date p rows,
      g r (withKey date (onDates date p rows) (date r)) = g r (withKey date rows (date r)) := by
    intro r hr
    rw [withKey_onDates (mem_onDates.mp hr).2]
  show (onDates date p rows).map (fun r => g r (withKey date (onDates date p rows) (date r))) = _
  rw [List.map_congr_left hgroup]
  exact dateLocal_map (fun r => h r _) p rows

/-- Parts with a date each are told apart by it. -/
theorem withKey_flatMap {part : δ → List σ} {ds : List δ} (hnodup : ds.Nodup)
    (hpart : ∀ d, ∀ r ∈ part d, date' r = d) {d : δ} (hd : d ∈ ds) :
    withKey date' (ds.flatMap part) d = part d := by
  induction ds with
  | nil => cases hd
  | cons d' ds ih =>
      rw [List.nodup_cons] at hnodup
      rw [List.flatMap_cons, withKey_append]
      have hother : ∀ e, e ≠ d → withKey date' (part e) d = [] := by
        intro e he
        rw [withKey, List.filter_eq_nil_iff]
        intro r hr
        simpa [hpart e r hr] using he
      rcases List.mem_cons.mp hd with rfl | hd
      · have hrest : withKey date' (ds.flatMap part) d = [] := by
          rw [withKey, List.filter_eq_nil_iff]
          intro r hr
          obtain ⟨e, he, hr⟩ := List.mem_flatMap.mp hr
          have hne : e ≠ d := fun heq => hnodup.1 (heq ▸ he)
          simpa [hpart e r hr] using hne
        rw [hrest, List.append_nil]
        exact withKey_eq_self (hpart d)
      · have hne : d' ≠ d := fun heq => hnodup.1 (heq ▸ hd)
        rw [hother d' hne, List.nil_append, ih hnodup.2 hd]

end Groups

section Calendars

variable [LinearOrder δ] {ds : List δ}

/-- Each date with the one that comes `n + 1` dates after it, where there is one. -/
theorem zip_drop_of_sorted (hsorted : ds.Pairwise (· < ·)) (n : ℕ) :
    ds.zip (ds.drop (n + 1)) =
      ds.filterMap fun d => (ds.filter fun d' => d < d')[n]?.map (Prod.mk d) := by
  induction ds with
  | nil => rfl
  | cons d ds ih =>
      rw [List.pairwise_cons] at hsorted
      have hlater : ds.filter (fun d' => d < d') = ds := by
        rw [List.filter_eq_self]
        intro d' hd'
        exact decide_eq_true (hsorted.1 d' hd')
      have hothers :
          ds.filterMap (fun e => ((d :: ds).filter fun d' => e < d')[n]?.map (Prod.mk e)) =
          ds.filterMap fun e => (ds.filter fun d' => e < d')[n]?.map (Prod.mk e) := by
        apply List.filterMap_congr
        intro e he
        rw [List.filter_cons_of_neg (by simpa using (hsorted.1 e he).le)]
      rw [List.drop_succ_cons, List.filterMap_cons, hothers, ← ih hsorted.2,
        List.filter_cons_of_neg (by simp), hlater]
      cases hdate : ds[n]? with
      | none =>
          have hnone : ds.drop n = [] := List.drop_eq_nil_of_le (List.getElem?_eq_none_iff.mp hdate)
          have hshort : ds.drop (n + 1) = [] := by
            rw [← List.drop_drop, hnone, List.drop_nil]
          simp [hnone, hshort]
      | some d' =>
          obtain ⟨hlt, rfl⟩ := List.getElem?_eq_some_iff.mp hdate
          rw [List.drop_eq_getElem_cons hlt]
          rfl

/-- The dates up to the one at a place are those up to that place. -/
theorem filter_le_eq_take (hsorted : ds.Pairwise (· < ·)) {n : ℕ} {d : δ} (hd : ds[n]? = some d) :
    ds.filter (fun d' => d' ≤ d) = ds.take (n + 1) := by
  induction ds generalizing n with
  | nil => cases hd
  | cons e ds ih =>
      rw [List.pairwise_cons] at hsorted
      cases n with
      | zero =>
          cases hd
          have hnone : ds.filter (fun d' => d' ≤ d) = [] := by
            rw [List.filter_eq_nil_iff]
            intro d' hd'
            simpa using hsorted.1 d' hd'
          rw [List.filter_cons_of_pos (by simp), hnone]
          rfl
      | succ n =>
          rw [List.getElem?_cons_succ] at hd
          have hle : e ≤ d := (hsorted.1 d (List.mem_of_getElem? hd)).le
          rw [List.filter_cons_of_pos (by simpa using hle), ih hsorted.2 hd, List.take_succ_cons]

end Calendars

section Joins

variable {κ : Type*} [LinearOrder κ] {key : ρ → κ} {key' : σ → κ}

/-- A join on keys that tell the date. -/
theorem innerJoin_onDates (hdate : ∀ r s, key' s = key r → date' s = date r) (p : δ → Bool)
    (rows : List ρ) (others : List σ) :
    innerJoin key key' (onDates date p rows) (onDates date' p others) =
      onDates (fun q => date q.1) p (innerJoin key key' rows others) := by
  induction rows with
  | nil => rfl
  | cons r rows ih =>
      have hcons : ∀ others, innerJoin key key' (r :: rows) others =
          (withKey key' others (key r)).map (fun s => (r, s)) ++
            innerJoin key key' rows others := fun _ => List.flatMap_cons ..
      unfold onDates at ih ⊢
      rw [hcons, List.filter_append, ← ih]
      by_cases hp : p (date r) = true
      · have hmatched : withKey key' (others.filter fun s => p (date' s)) (key r) =
            withKey key' others (key r) := by
          unfold withKey
          rw [List.filter_filter]
          apply List.filter_congr
          intro s _
          by_cases hkey : key' s = key r
          · simp [hkey, hdate r s hkey, hp]
          · simp [hkey]
        have hall : ((withKey key' others (key r)).map fun s => (r, s)).filter
            (fun q => p (date q.1)) = (withKey key' others (key r)).map fun s => (r, s) := by
          rw [List.filter_eq_self]
          intro q hq
          obtain ⟨s, -, rfl⟩ := List.mem_map.mp hq
          exact hp
        rw [List.filter_cons_of_pos (p := fun r => p (date r)) hp, hall]
        unfold innerJoin
        rw [List.flatMap_cons, hmatched]
      · have hnone : ((withKey key' others (key r)).map fun s => (r, s)).filter
            (fun q => p (date q.1)) = [] := by
          rw [List.filter_eq_nil_iff]
          intro q hq
          obtain ⟨s, -, rfl⟩ := List.mem_map.mp hq
          exact hp
        rw [List.filter_cons_of_neg (p := fun r => p (date r)) hp, hnone, List.nil_append]

end Joins

end TradingPlatform.Base
