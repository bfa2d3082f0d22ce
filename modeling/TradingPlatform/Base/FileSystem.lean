import Mathlib.Logic.Function.Basic
import Mathlib.Data.Nat.Notation

/-! # Files by name and inode

A name leads to an inode and an inode holds the contents, so a file that is open
stays the same file when its name moves, goes or is taken by another. Each
operation below is one system call.
-/

namespace TradingPlatform.Base

variable {π κ : Type*}

structure FileSystem (π κ : Type*) where
  entries : π → Option ℕ
  data : ℕ → κ
  /-- The inodes from here on are not in use. -/
  next : ℕ

namespace FileSystem

def content (fs : FileSystem π κ) (p : π) : Option κ := (fs.entries p).map fs.data

def exists? (fs : FileSystem π κ) (p : π) : Bool := (fs.entries p).isSome

/-- A name leads to an inode that is in use. -/
def InUse (fs : FileSystem π κ) : Prop := ∀ p inode, fs.entries p = some inode → inode < fs.next

/-- Writing through a file that is open. -/
def write (fs : FileSystem π κ) (inode : ℕ) (c : κ) : FileSystem π κ :=
  { fs with data := Function.update fs.data inode c }

@[simp] theorem write_data_self (fs : FileSystem π κ) (inode : ℕ) (c : κ) :
    (fs.write inode c).data inode = c := Function.update_self ..

theorem write_data_ne (fs : FileSystem π κ) {inode inode' : ℕ} (h : inode' ≠ inode) (c : κ) :
    (fs.write inode c).data inode' = fs.data inode' := Function.update_of_ne h ..

variable [DecidableEq π]

/-- A new file under the name, whatever the name led to. -/
def bindNew (fs : FileSystem π κ) (p : π) (c : κ) : FileSystem π κ where
  entries := Function.update fs.entries p (some fs.next)
  data := Function.update fs.data fs.next c
  next := fs.next + 1

/-- `O_CREAT | O_EXCL`: the file is created by exactly one caller. -/
def createExclusive (fs : FileSystem π κ) (p : π) (c : κ) : Option (FileSystem π κ × ℕ) :=
  if fs.exists? p then none else some (fs.bindNew p c, fs.next)

/-- Opening for writing and writing it all. -/
def put (fs : FileSystem π κ) (p : π) (c : κ) : FileSystem π κ :=
  match fs.entries p with
  | some inode => fs.write inode c
  | none => fs.bindNew p c

/-- The file at `p` takes the name `q`; nothing happens where there is none. -/
def rename (fs : FileSystem π κ) (p q : π) : Option (FileSystem π κ) :=
  match fs.entries p with
  | some inode =>
      some { fs with
        entries := Function.update (Function.update fs.entries p none) q (some inode) }
  | none => none

/-- A second name for the file at `p`; a name that is taken is left alone. -/
def link (fs : FileSystem π κ) (p q : π) : Option (FileSystem π κ) :=
  match fs.entries p, fs.entries q with
  | some inode, none => some { fs with entries := Function.update fs.entries q (some inode) }
  | _, _ => none

def unlink (fs : FileSystem π κ) (p : π) : FileSystem π κ :=
  { fs with entries := Function.update fs.entries p none }

variable {fs fs' : FileSystem π κ} {p q : π} {c : κ} {inode : ℕ}

@[simp] theorem bindNew_entries_self : (fs.bindNew p c).entries p = some fs.next :=
  Function.update_self ..

theorem bindNew_entries_ne (h : q ≠ p) : (fs.bindNew p c).entries q = fs.entries q :=
  Function.update_of_ne h ..

@[simp] theorem bindNew_data_self : (fs.bindNew p c).data fs.next = c := Function.update_self ..

theorem bindNew_data_ne (h : inode ≠ fs.next) : (fs.bindNew p c).data inode = fs.data inode :=
  Function.update_of_ne h ..

@[simp] theorem unlink_entries_self : (fs.unlink p).entries p = none := Function.update_self ..

theorem unlink_entries_ne (h : q ≠ p) : (fs.unlink p).entries q = fs.entries q :=
  Function.update_of_ne h ..

theorem content_unlink_ne (h : q ≠ p) : (fs.unlink p).content q = fs.content q := by
  unfold content
  rw [unlink_entries_ne h]
  rfl

theorem createExclusive_eq_some (h : fs.createExclusive p c = some (fs', inode)) :
    fs.entries p = none ∧ fs' = fs.bindNew p c ∧ inode = fs.next := by
  unfold createExclusive at h
  split at h
  · cases h
  · rename_i habsent
    cases h
    exact ⟨by simpa [exists?] using habsent, rfl, rfl⟩

theorem put_of_free (h : fs.entries p = none) : fs.put p c = fs.bindNew p c := by
  simp only [put, h]

theorem put_of_taken (h : fs.entries p = some inode) : fs.put p c = fs.write inode c := by
  simp only [put, h]

/-- Writing what is there already. -/
theorem put_of_content (h : fs.content p = some c) : fs.put p c = fs := by
  unfold content at h
  cases hentry : fs.entries p with
  | none => simp [hentry] at h
  | some inode =>
      have hdata : fs.data inode = c := by simpa [hentry] using h
      rw [put_of_taken hentry, ← hdata]
      simp [write]

theorem InUse.bindNew (h : fs.InUse) : (fs.bindNew p c).InUse := by
  intro q inode hq
  show inode < fs.next + 1
  by_cases hp : q = p
  · subst hp
    have hnew : fs.next = inode := by simpa using hq
    omega
  · rw [bindNew_entries_ne hp] at hq
    have hlt := h q inode hq
    omega

theorem content_bindNew_self : (fs.bindNew p c).content p = some c := by simp [content]

theorem content_bindNew_ne (hin : fs.InUse) (h : q ≠ p) :
    (fs.bindNew p c).content q = fs.content q := by
  unfold content
  rw [bindNew_entries_ne h]
  cases hentry : fs.entries q with
  | none => rfl
  | some inode =>
      have hlt := hin q inode hentry
      simp [bindNew_data_ne (show inode ≠ fs.next by omega)]

theorem rename_eq_some (h : fs.rename p q = some fs') :
    ∃ inode, fs.entries p = some inode ∧ fs'.data = fs.data ∧ fs'.next = fs.next ∧
      fs'.entries = Function.update (Function.update fs.entries p none) q (some inode) := by
  unfold rename at h
  split at h
  · rename_i inode hfound
    cases h
    exact ⟨inode, hfound, rfl, rfl, rfl⟩
  · cases h

end FileSystem

end TradingPlatform.Base
