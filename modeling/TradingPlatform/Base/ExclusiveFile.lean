import TradingPlatform.Base.FileSystem
import Mathlib.Tactic.Common

/-! # A lock that is a file

Processes compete for a name: who creates the file owns the lock, writes it and
later removes the name. `Exclusive` says that there is one owner at most, that
the name is taken while there is one, and that every file of the run is written
or being written by a process. Each rule below is one kind of operation; the
rules that take the name away ask that nobody else is the owner.
-/

namespace TradingPlatform.Base

variable {P π κ σ : Type*}

/-- How the processes use the files, by the state that each is in. -/
structure FileProtocol (π κ σ : Type*) where
  lock : π
  /-- The names that only files of the run have. -/
  ours : π → Bool
  owns : σ → Bool
  /-- The file that the process has created and is about to write. -/
  writes : σ → Option ℕ
  /-- What a process of the run writes. -/
  live : κ → Prop

namespace FileProtocol

variable (m : FileProtocol π κ σ)

def Written (fs : FileSystem π κ) (procs : P → σ) (inode : ℕ) : Prop :=
  (∃ q, m.writes (procs q) = some inode) ∨ m.live (fs.data inode)

/-- The file at the name of the lock, and whether it is one of the run. -/
def Taken (fs : FileSystem π κ) : Prop := ∃ inode, fs.entries m.lock = some inode ∧ 1 ≤ inode

/-- The inode 0 is the file that was there before the run. -/
structure Exclusive (fs : FileSystem π κ) (procs : P → σ) : Prop where
  alone : ∀ p q, m.owns (procs p) = true → m.owns (procs q) = true → p = q
  taken : ∀ p, m.owns (procs p) = true → m.Taken fs
  names : ∀ path inode, fs.entries path = some inode →
    inode < fs.next ∧ (m.ours path = true → 1 ≤ inode)
  written : ∀ inode, 1 ≤ inode → inode < fs.next → m.Written fs procs inode
  writing : ∀ p, ∀ inode ∈ m.writes (procs p), 1 ≤ inode ∧ inode < fs.next
  started : 1 ≤ fs.next

variable {m} {fs fs' : FileSystem π κ} {procs : P → σ} {p : P} {st : σ}

/-- Nobody owns a lock whose file no process writes or has written. -/
theorem Exclusive.not_owned (h : m.Exclusive fs procs) {inode : ℕ}
    (hentry : fs.entries m.lock = some inode)
    (hdead : ∀ q, m.owns (procs q) = true → 1 ≤ inode → ¬m.live (fs.data inode))
    (hwrites : ∀ q, m.writes (procs q) ≠ some inode) (q : P) : m.owns (procs q) = false := by
  cases howner : m.owns (procs q) with
  | false => rfl
  | true =>
      obtain ⟨inode', hentry', hpos⟩ := h.taken q howner
      rw [hentry] at hentry'
      cases hentry'
      rcases h.written inode hpos (h.names m.lock inode hentry).1 with ⟨r, hwriting⟩ | hlive
      · exact absurd hwriting (hwrites r)
      · exact absurd hlive (hdead q howner hpos)

/-- Who owns the lock after the operation owned it before. -/
theorem Exclusive.taken_of_owns (h : m.Exclusive fs procs)
    (howns : m.owns st = true → m.owns (procs p) = true)
    (howner : m.owns st = true ∨ ∃ q, q ≠ p ∧ m.owns (procs q) = true) : m.Taken fs := by
  rcases howner with howner | ⟨q, -, howner⟩
  · exact h.taken p (howns howner)
  · exact h.taken q howner

/-- The names that are left after a file took the name of another. -/
theorem Exclusive.names_rename [DecidableEq π] (h : m.Exclusive fs procs) {source target : π}
    (hmoved : fs.rename source target = some fs')
    (hours : m.ours target = true → ∀ inode, fs.entries source = some inode → 1 ≤ inode)
    (path : π) (inode : ℕ) (hentry : fs'.entries path = some inode) :
    inode < fs.next ∧ (m.ours path = true → 1 ≤ inode) := by
  obtain ⟨moved, hfound, -, -, hentries⟩ := FileSystem.rename_eq_some hmoved
  rw [hentries] at hentry
  by_cases htarget : path = target
  · rw [htarget, Function.update_self] at hentry
    obtain rfl : moved = inode := Option.some.inj hentry
    rw [htarget]
    exact ⟨(h.names source moved hfound).1, fun ho => hours ho moved hfound⟩
  · rw [Function.update_of_ne htarget] at hentry
    by_cases hsource : path = source
    · rw [hsource, Function.update_self] at hentry
      cases hentry
    · rw [Function.update_of_ne hsource] at hentry
      exact h.names path inode hentry

variable [DecidableEq P]

theorem written_update {inode : ℕ} (h : m.Written fs procs inode)
    (hwrites : m.writes (procs p) ≠ some inode) (hdata : fs'.data inode = fs.data inode) :
    m.Written fs' (Function.update procs p st) inode := by
  rcases h with ⟨q, hq⟩ | hlive
  · have hne : q ≠ p := by
      rintro rfl
      exact hwrites hq
    refine Or.inl ⟨q, ?_⟩
    rw [Function.update_of_ne hne]
    exact hq
  · exact Or.inr (hdata ▸ hlive)

/-- What an operation has to show: what it makes of its own process and of the files. -/
theorem Exclusive.update (h : m.Exclusive fs procs) (hnext : fs.next ≤ fs'.next)
    (howns : m.owns st = true → m.owns (procs p) = true ∨ ∀ q, m.owns (procs q) = false)
    (htaken : (m.owns st = true ∨ ∃ q, q ≠ p ∧ m.owns (procs q) = true) → m.Taken fs')
    (hnames : ∀ path inode, fs'.entries path = some inode →
      inode < fs'.next ∧ (m.ours path = true → 1 ≤ inode))
    (hwritten : ∀ inode, 1 ≤ inode → inode < fs'.next →
      m.Written fs' (Function.update procs p st) inode)
    (hwriting : ∀ inode ∈ m.writes st, 1 ≤ inode ∧ inode < fs'.next) :
    m.Exclusive fs' (Function.update procs p st) := by
  have hother : ∀ q, q ≠ p → m.owns (procs q) = true → m.owns st = true → False := by
    intro q hne hq hp
    rcases howns hp with hbefore | hnone
    · exact hne (h.alone q p hq hbefore)
    · rw [hnone q] at hq
      cases hq
  refine ⟨?_, ?_, hnames, hwritten, ?_, Nat.le_trans h.started hnext⟩
  · intro q r hq hr
    by_cases hqp : q = p
    · by_cases hrp : r = p
      · rw [hqp, hrp]
      · rw [hqp, Function.update_self] at hq
        rw [Function.update_of_ne hrp] at hr
        exact absurd hq (hother r hrp hr)
    · rw [Function.update_of_ne hqp] at hq
      by_cases hrp : r = p
      · rw [hrp, Function.update_self] at hr
        exact absurd hr (hother q hqp hq)
      · rw [Function.update_of_ne hrp] at hr
        exact h.alone q r hq hr
  · intro q hq
    by_cases hqp : q = p
    · rw [hqp, Function.update_self] at hq
      exact htaken (Or.inl hq)
    · rw [Function.update_of_ne hqp] at hq
      exact htaken (Or.inr ⟨q, hqp, hq⟩)
  · intro q inode hinode
    by_cases hqp : q = p
    · rw [hqp, Function.update_self] at hinode
      exact hwriting inode hinode
    · rw [Function.update_of_ne hqp] at hinode
      have ⟨hpos, hlt⟩ := h.writing q inode hinode
      exact ⟨hpos, Nat.lt_of_lt_of_le hlt hnext⟩

/-- Names move or go, and no file is created or written. -/
theorem Exclusive.rearrange (h : m.Exclusive fs procs) (hdata : fs'.data = fs.data)
    (hnext : fs'.next = fs.next) (hidle : m.writes (procs p) = none) (hidle' : m.writes st = none)
    (howns : m.owns st = true → m.owns (procs p) = true)
    (htaken : (m.owns st = true ∨ ∃ q, q ≠ p ∧ m.owns (procs q) = true) → m.Taken fs')
    (hnames : ∀ path inode, fs'.entries path = some inode →
      inode < fs.next ∧ (m.ours path = true → 1 ≤ inode)) :
    m.Exclusive fs' (Function.update procs p st) := by
  refine h.update (Nat.le_of_eq hnext.symm) (fun ho => Or.inl (howns ho)) htaken
    (hnext ▸ hnames) ?_ ?_
  · intro inode hpos hlt
    apply written_update (h.written inode hpos (hnext ▸ hlt)) _ (by rw [hdata])
    rw [hidle]
    simp
  · intro inode hinode
    rw [hidle'] at hinode
    cases hinode

/-- The files stay as they are. -/
theorem Exclusive.goto (h : m.Exclusive fs procs) (hidle : m.writes (procs p) = none)
    (hidle' : m.writes st = none) (howns : m.owns st = true → m.owns (procs p) = true) :
    m.Exclusive fs (Function.update procs p st) :=
  h.rearrange rfl rfl hidle hidle' howns (h.taken_of_owns howns) h.names

/-- The process writes the file that it has created. -/
theorem Exclusive.write (h : m.Exclusive fs procs) {inode : ℕ}
    (hwrites : m.writes (procs p) = some inode) (howned : m.owns (procs p) = true)
    (hidle' : m.writes st = none) {c : κ} (hlive : m.live c) :
    m.Exclusive (fs.write inode c) (Function.update procs p st) := by
  refine h.update (Nat.le_refl _) (fun _ => Or.inl howned) (fun _ => h.taken p howned) h.names
    ?_ ?_
  · intro inode' hpos hlt
    by_cases hsame : inode' = inode
    · refine Or.inr ?_
      rw [hsame, FileSystem.write_data_self]
      exact hlive
    · apply written_update (h.written inode' hpos hlt)
      · rw [hwrites]
        simpa using Ne.symm hsame
      · exact fs.write_data_ne hsame c
  · intro _ hinode
    rw [hidle'] at hinode
    cases hinode

variable [DecidableEq π]

/-- The name is free, so nobody owns the lock, and the creator does now. -/
theorem Exclusive.create (h : m.Exclusive fs procs) {c : κ} {inode : ℕ}
    (hidle : m.writes (procs p) = none)
    (hcreated : fs.createExclusive m.lock c = some (fs', inode))
    (hwrites : m.writes st = some inode) : m.Exclusive fs' (Function.update procs p st) := by
  obtain ⟨hfree, rfl, rfl⟩ := FileSystem.createExclusive_eq_some hcreated
  have hnone : ∀ q, m.owns (procs q) = false := by
    intro q
    cases howner : m.owns (procs q) with
    | false => rfl
    | true =>
        obtain ⟨inode, hentry, -⟩ := h.taken q howner
        rw [hfree] at hentry
        cases hentry
  refine h.update (Nat.le_succ _) (fun _ => Or.inr hnone)
    (fun _ => ⟨fs.next, FileSystem.bindNew_entries_self, h.started⟩) ?_ ?_ ?_
  · intro path inode hentry
    by_cases hpath : path = m.lock
    · rw [hpath, FileSystem.bindNew_entries_self] at hentry
      cases hentry
      exact ⟨Nat.lt_succ_self _, fun _ => h.started⟩
    · rw [FileSystem.bindNew_entries_ne hpath] at hentry
      have ⟨hlt, hours⟩ := h.names path inode hentry
      exact ⟨Nat.lt_succ_of_lt hlt, hours⟩
  · intro inode hpos hlt
    rcases Nat.lt_succ_iff_lt_or_eq.mp hlt with hold | rfl
    · apply written_update (h.written inode hpos hold) _
        (FileSystem.bindNew_data_ne (Nat.ne_of_lt hold))
      rw [hidle]
      simp
    · exact Or.inl ⟨p, by rw [Function.update_self]; exact hwrites⟩
  · intro inode hinode
    rw [hwrites] at hinode
    cases hinode
    exact ⟨h.started, Nat.lt_succ_self _⟩

/-- A name goes; if it is that of the lock, nobody owns the lock any more. -/
theorem Exclusive.unlink (h : m.Exclusive fs procs) {path : π}
    (hidle : m.writes (procs p) = none) (hidle' : m.writes st = none)
    (howns : m.owns st = true → m.owns (procs p) = true)
    (hlock : path = m.lock → m.owns st = false ∧ ∀ q, q ≠ p → m.owns (procs q) = false) :
    m.Exclusive (fs.unlink path) (Function.update procs p st) := by
  refine h.rearrange rfl rfl hidle hidle' howns ?_ ?_
  · intro howner
    by_cases hpath : path = m.lock
    · have ⟨hst, hothers⟩ := hlock hpath
      rcases howner with howner | ⟨q, hne, howner⟩
      · rw [hst] at howner
        cases howner
      · rw [hothers q hne] at howner
        cases howner
    · obtain ⟨inode, hentry, hpos⟩ := h.taken_of_owns howns howner
      refine ⟨inode, ?_, hpos⟩
      rw [FileSystem.unlink_entries_ne (Ne.symm hpath)]
      exact hentry
  · intro path' inode hentry
    by_cases hsame : path' = path
    · rw [hsame, FileSystem.unlink_entries_self] at hentry
      cases hentry
    · rw [FileSystem.unlink_entries_ne hsame] at hentry
      exact h.names path' inode hentry

/-- A file of the run takes the name of the lock. -/
theorem Exclusive.renameOnto (h : m.Exclusive fs procs) {path : π} (hours : m.ours path = true)
    (hmoved : fs.rename path m.lock = some fs') (hidle : m.writes (procs p) = none)
    (hidle' : m.writes st = none) (howns : m.owns st = true → m.owns (procs p) = true) :
    m.Exclusive fs' (Function.update procs p st) := by
  obtain ⟨moved, hfound, hdata, hnext, hentries⟩ := FileSystem.rename_eq_some hmoved
  have hpos := (h.names path moved hfound).2 hours
  refine h.rearrange hdata hnext hidle hidle' howns (fun _ => ⟨moved, ?_, hpos⟩)
    (h.names_rename hmoved ?_)
  · rw [hentries, Function.update_self]
  · intro _ inode hentry
    rw [hfound] at hentry
    cases hentry
    exact hpos

/-- The file of the lock takes another name, and nobody owns the lock any more. -/
theorem Exclusive.renameAway (h : m.Exclusive fs procs) {path : π}
    (hmoved : fs.rename m.lock path = some fs')
    (hours : m.ours path = true → m.owns (procs p) = true)
    (hidle : m.writes (procs p) = none) (hidle' : m.writes st = none)
    (hst : m.owns st = false) (hothers : ∀ q, q ≠ p → m.owns (procs q) = false) :
    m.Exclusive fs' (Function.update procs p st) := by
  obtain ⟨-, -, hdata, hnext, -⟩ := FileSystem.rename_eq_some hmoved
  refine h.rearrange hdata hnext hidle hidle' ?_ ?_ (h.names_rename hmoved ?_)
  · intro howner
    rw [hst] at howner
    cases howner
  · rintro (howner | ⟨q, hne, howner⟩)
    · rw [hst] at howner
      cases howner
    · rw [hothers q hne] at howner
      cases howner
  · intro ho inode hentry
    obtain ⟨inode', hentry', hpos⟩ := h.taken p (hours ho)
    rw [hentry] at hentry'
    cases hentry'
    exact hpos

/-- A process writes a file of its own, at a name beside the lock. -/
theorem Exclusive.put (h : m.Exclusive fs procs) {path : π}
    (hlock : path ≠ m.lock) (hidle : m.writes (procs p) = none) (hidle' : m.writes st = none)
    (howns : m.owns st = true → m.owns (procs p) = true) {c : κ} (hlive : m.live c) :
    m.Exclusive (fs.put path c) (Function.update procs p st) := by
  have hwriting : ∀ next, ∀ inode ∈ m.writes st, 1 ≤ inode ∧ inode < next := by
    intro next inode hinode
    rw [hidle'] at hinode
    cases hinode
  have hnot : ∀ inode, m.writes (procs p) ≠ some inode := by
    intro inode
    rw [hidle]
    simp
  unfold FileSystem.put
  cases hentry : fs.entries path with
  | some inode =>
      refine h.update (Nat.le_refl _) (fun ho => Or.inl (howns ho)) (h.taken_of_owns howns)
        h.names ?_ (hwriting _)
      intro inode' hpos hlt
      by_cases hsame : inode' = inode
      · refine Or.inr ?_
        rw [hsame, FileSystem.write_data_self]
        exact hlive
      · exact written_update (h.written inode' hpos hlt) (hnot inode')
          (fs.write_data_ne hsame c)
  | none =>
      refine h.update (Nat.le_succ _) (fun ho => Or.inl (howns ho)) ?_ ?_ ?_ (hwriting _)
      · intro howner
        obtain ⟨inode, hlocked, hpos⟩ := h.taken_of_owns howns howner
        refine ⟨inode, ?_, hpos⟩
        rw [FileSystem.bindNew_entries_ne (Ne.symm hlock)]
        exact hlocked
      · intro path' inode hpath
        by_cases hsame : path' = path
        · rw [hsame, FileSystem.bindNew_entries_self] at hpath
          cases hpath
          exact ⟨Nat.lt_succ_self _, fun _ => h.started⟩
        · rw [FileSystem.bindNew_entries_ne hsame] at hpath
          have ⟨hlt, hours⟩ := h.names path' inode hpath
          exact ⟨Nat.lt_succ_of_lt hlt, hours⟩
      · intro inode hpos hlt
        rcases Nat.lt_succ_iff_lt_or_eq.mp hlt with hold | rfl
        · exact written_update (h.written inode hpos hold) (hnot inode)
            (FileSystem.bindNew_data_ne (Nat.ne_of_lt hold))
        · refine Or.inr ?_
          rw [FileSystem.bindNew_data_self]
          exact hlive

end FileProtocol

end TradingPlatform.Base
