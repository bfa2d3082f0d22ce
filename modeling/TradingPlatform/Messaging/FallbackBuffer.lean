import Mathlib.Algebra.GroupWithZero.Nat
import Mathlib.Data.List.Basic
import TradingPlatform.Base.Run

/-! # The fallback buffer

Messages that Redis would not take wait in a deque that is mirrored in a file.
`replay` publishes the head outside of the lock and takes the entry out by its
value afterwards; `buffer_message` runs between its locked sections and evicts
the head when the deque is full. Entries carry their place in buffering order,
which the code does not see.
-/

namespace TradingPlatform.Messaging

open Base

structure BufferedMessage where
  channel : String
  payload : String
  createdAt : String
  deriving DecidableEq

structure BufferOutcome where
  buffered : ℕ
  dropped : ℕ
  size : ℕ

/-- A message in the deque or in the file, numbered in buffering order. -/
structure Entry where
  id : ℕ
  message : BufferedMessage
  deriving DecidableEq

/-- What a running `replay` does next. -/
inductive ReplayPhase where
  | idle
  | looking
  | publishing (entry : Entry)
  | removing (entry : Entry)
  | persisting
  | writing (data : List Entry)
  | replacing

structure FallbackBuffer where
  buffer : List Entry
  /-- What `_persist_path` and its `.tmp` hold, where they exist. -/
  file : Option (List Entry)
  tmp : Option (List Entry)
  phase : ReplayPhase
  replayed : ℕ
  /-- The number of the next message, and what became of the earlier ones. -/
  next : ℕ
  published : List ℕ
  dropped : List ℕ
  outcomes : List BufferOutcome

namespace FallbackBuffer

def start : FallbackBuffer := ⟨[], none, none, .idle, 0, 0, [], [], []⟩

def ids (entries : List Entry) : List ℕ := entries.map Entry.id

def writeText (s : FallbackBuffer) (data : List Entry) : FallbackBuffer :=
  { s with tmp := some data }

/-- `tmp_path.replace`; where the file is gone it raises an `OSError`, which is only logged. -/
def replace (s : FallbackBuffer) : FallbackBuffer :=
  match s.tmp with
  | some data => { s with file := some data, tmp := none }
  | none => s

/-- `_persist`, with nothing in between -/
def persist (s : FallbackBuffer) : FallbackBuffer := (s.writeText s.buffer).replace

/-- `popleft` where the deque is full -/
def kept (maxSize : ℕ) (s : FallbackBuffer) : List Entry :=
  if maxSize ≤ s.buffer.length then s.buffer.tail else s.buffer

def evicted (maxSize : ℕ) (s : FallbackBuffer) : List ℕ :=
  if maxSize ≤ s.buffer.length then ids (s.buffer.take 1) else []

/-- The locked section of `buffer_message` -/
def append (maxSize : ℕ) (s : FallbackBuffer) (message : BufferedMessage) : FallbackBuffer :=
  { s with
    buffer := s.kept maxSize ++ [⟨s.next, message⟩]
    next := s.next + 1
    dropped := s.dropped ++ s.evicted maxSize }

/-- `buffer_message` -/
def bufferMessage (maxSize : ℕ) (s : FallbackBuffer) (message : BufferedMessage) :
    FallbackBuffer × BufferOutcome :=
  let appended := s.append maxSize message
  let dropped := if maxSize ≤ s.buffer.length then 1 else 0
  (appended.persist, ⟨1, dropped, appended.buffer.length⟩)

/-- The head is taken where it equals the entry, else the first entry that does. -/
def removeEntry (buffer : List Entry) (entry : Entry) : List Entry :=
  match buffer with
  | [] => []
  | head :: rest =>
      if head.message = entry.message then rest
      else (head :: rest).eraseP fun other => other.message = entry.message

/-- `replay` up to the end of its next section; `publishes` says whether `publish` returns. -/
def advance (s : FallbackBuffer) (publishes : Bool) : FallbackBuffer :=
  match s.phase with
  | .idle => s
  | .looking =>
      match s.buffer with
      | [] => { s with phase := .idle }
      | entry :: _ => { s with phase := .publishing entry }
  | .publishing entry =>
      if publishes then
        { s with
          phase := .removing entry
          replayed := s.replayed + 1
          published := s.published ++ [entry.id] }
      else { s with phase := .idle }
  | .removing entry => { s with phase := .persisting, buffer := removeEntry s.buffer entry }
  | .persisting => { s with phase := .writing s.buffer }
  | .writing data => { s.writeText data with phase := .replacing }
  | .replacing => { s.replace with phase := .looking }

/-- `_load_persisted` -/
def loadPersisted (maxSize : ℕ) (s : FallbackBuffer) : List Entry :=
  match s.file with
  | none => []
  | some loaded =>
      if maxSize < loaded.length then loaded.drop (loaded.length - maxSize) else loaded

end FallbackBuffer

/-- A restart and a new replay wait until no replay is running. -/
inductive BufferEvent where
  | bufferMessage (message : BufferedMessage)
  | replay
  | advance (publishes : Bool)
  | restart

namespace FallbackBuffer

def step (maxSize : ℕ) (s : FallbackBuffer) : BufferEvent → FallbackBuffer
  | .bufferMessage message =>
      let called := s.bufferMessage maxSize message
      { called.1 with outcomes := called.1.outcomes ++ [called.2] }
  | .replay =>
      match s.phase with
      | .idle => { s with phase := .looking, replayed := 0 }
      | _ => s
  | .advance publishes => s.advance publishes
  | .restart =>
      match s.phase with
      | .idle => { s with buffer := s.loadPersisted maxSize }
      | _ => s

/-- Nothing is lost or repeated silently. -/
structure Accounted (maxSize : ℕ) (s : FallbackBuffer) : Prop where
  bounded : s.buffer.length ≤ maxSize
  ordered : s.published.Pairwise (· < ·)
  accounted : ∀ id < s.next, id ∈ s.published ∨ id ∈ ids s.buffer ∨ id ∈ s.dropped
  unpublished : ∀ id ∈ s.dropped, id ∉ s.published
  counted : (s.outcomes.map BufferOutcome.dropped).sum = s.dropped.length

/-- The entry that `publish` takes is still in the deque, no overflow comes between its publication
and its removal, and a restart finds in the file what the deque holds. -/
def Undisturbed (maxSize : ℕ) (s : FallbackBuffer) : BufferEvent → Prop
  | .bufferMessage _ => ∀ entry, s.phase = .removing entry → s.buffer.length < maxSize
  | .replay => True
  | .advance publishes =>
      ∀ entry, s.phase = .publishing entry → publishes = true → entry ∈ s.buffer
  | .restart => s.phase = .idle → s.loadPersisted maxSize = s.buffer

/-! ## The invariant -/

/-- The entries still to be published. -/
def pending (s : FallbackBuffer) : List Entry :=
  match s.phase with
  | .removing _ => s.buffer.tail
  | _ => s.buffer

def InFlight (s : FallbackBuffer) : Prop :=
  match s.phase with
  | .publishing entry => s.buffer.head? = some entry ∨ entry.id ∈ s.dropped
  | .removing entry => s.buffer.head? = some entry ∧ entry.id ∈ s.published
  | _ => True

/-- What the file holds once the running replay has written it, where that is decided. -/
def snapshot (s : FallbackBuffer) : Option (List Entry) :=
  match s.phase with
  | .persisting => none
  | .writing data => some data
  | .replacing => some (s.tmp.getD (s.file.getD []))
  | _ => some (s.file.getD [])

/-- Data that is not the deque lacks one of its entries. -/
structure Mirrors (s : FallbackBuffer) (data : List Entry) : Prop where
  same : data = s.buffer ∨ ∃ entry ∈ s.buffer, entry.id ∉ ids data
  older : ∀ entry ∈ data, entry.id < s.next

/-- Every number given out is in one place, apart from the published head that `replay` is about to
remove. -/
structure Ledger (s : FallbackBuffer) : Prop where
  ordered : (s.published ++ ids s.pending).Pairwise (· < ·)
  accounted : ∀ id < s.next, id ∈ s.published ∨ id ∈ ids s.buffer ∨ id ∈ s.dropped
  older : ∀ id, id ∈ s.published ∨ id ∈ ids s.buffer ∨ id ∈ s.dropped → id < s.next
  unpublished : ∀ id ∈ s.dropped, id ∉ s.published
  gone : ∀ id ∈ s.dropped, id ∉ ids s.buffer
  inFlight : s.InFlight

structure Tracked (maxSize : ℕ) (s : FallbackBuffer) : Prop extends Ledger s where
  bounded : s.buffer.length ≤ maxSize
  counted : (s.outcomes.map BufferOutcome.dropped).sum = s.dropped.length
  mirrored : ∀ data ∈ s.snapshot, s.Mirrors data

variable {maxSize : ℕ} {s : FallbackBuffer} {message : BufferedMessage} {entry : Entry}

theorem Tracked.account (h : Tracked maxSize s) : Accounted maxSize s where
  bounded := h.bounded
  ordered := (List.pairwise_append.mp h.ordered).1
  accounted := h.accounted
  unpublished := h.unpublished
  counted := h.counted

theorem tracked_start (maxSize : ℕ) : Tracked maxSize start where
  ordered := by simp [start, pending, ids]
  accounted := by simp [start]
  older := by simp [start, ids]
  unpublished := by simp [start]
  gone := by simp [start]
  inFlight := by simp [start, InFlight]
  bounded := by simp [start]
  counted := by simp [start]
  mirrored := by
    intro data hdata
    simp only [snapshot, start, Option.getD_none, Option.mem_def, Option.some.injEq] at hdata
    subst hdata
    exact ⟨Or.inl rfl, by simp⟩

/-! ## Buffering a message -/

theorem ids_buffer (maxSize : ℕ) (s : FallbackBuffer) :
    ids s.buffer = s.evicted maxSize ++ ids (s.kept maxSize) := by
  unfold evicted kept
  split
  · cases s.buffer with
    | nil => rfl
    | cons head rest => rfl
  · rfl

theorem length_kept_lt (hpos : 0 < maxSize) (h : s.buffer.length ≤ maxSize) :
    (s.kept maxSize).length < maxSize := by
  unfold kept
  split
  · simp only [List.length_tail]
    omega
  · omega

theorem length_evicted (hpos : 0 < maxSize) :
    (s.evicted maxSize).length = if maxSize ≤ s.buffer.length then 1 else 0 := by
  unfold evicted
  split
  · simp only [ids, List.length_map, List.length_take]
    omega
  · rfl

theorem evicted_of_removing (hcalm : s.Undisturbed maxSize (.bufferMessage message))
    (hphase : s.phase = .removing entry) : s.evicted maxSize = [] := by
  have hroom := hcalm entry hphase
  have hfull : ¬maxSize ≤ s.buffer.length := by omega
  simp [evicted, hfull]

theorem kept_of_removing (hcalm : s.Undisturbed maxSize (.bufferMessage message))
    (hphase : s.phase = .removing entry) : s.kept maxSize = s.buffer := by
  have hroom := hcalm entry hphase
  have hfull : ¬maxSize ≤ s.buffer.length := by omega
  simp [kept, hfull]

/-- The call appends one entry to those that are still to be published. -/
theorem ids_pending_append (hcalm : s.Undisturbed maxSize (.bufferMessage message))
    (hflight : s.InFlight) :
    ∃ l, l.Sublist (ids s.pending) ∧ ids (s.append maxSize message).pending = l ++ [s.next] := by
  by_cases hremoving : ∃ entry, s.phase = .removing entry
  · obtain ⟨entry, hphase⟩ := hremoving
    simp only [InFlight, hphase] at hflight
    cases hbuffer : s.buffer with
    | nil => simp [hbuffer] at hflight
    | cons head rest =>
        refine ⟨ids rest, ?_, ?_⟩
        · simp [pending, hphase, hbuffer]
        · simp [pending, append, hphase, kept_of_removing hcalm hphase, hbuffer, ids]
  · have hphase : ∀ t : FallbackBuffer, t.phase = s.phase → t.pending = t.buffer := by
      intro t ht
      unfold pending
      split
      · rename_i entry h
        exact absurd ⟨entry, ht ▸ h⟩ hremoving
      · rfl
    refine ⟨ids (s.kept maxSize), ?_, ?_⟩
    · rw [hphase s rfl, ids_buffer maxSize s]
      exact List.sublist_append_right _ _
    · rw [hphase (s.append maxSize message) rfl]
      simp [append, ids]

theorem pairwise_concat {l : List ℕ} {n : ℕ} (h : l.Pairwise (· < ·)) (hlt : ∀ i ∈ l, i < n) :
    (l ++ [n]).Pairwise (· < ·) := by
  rw [List.pairwise_append]
  exact ⟨h, by simp, by simpa using hlt⟩

theorem Ledger.pending_lt (h : s.Ledger) : ∀ id ∈ s.published ++ ids s.pending, id < s.next := by
  intro id hid
  rcases List.mem_append.mp hid with hpublished | hpending
  · exact h.older id (Or.inl hpublished)
  · refine h.older id (Or.inr (Or.inl ?_))
    unfold pending at hpending
    split at hpending
    · obtain ⟨entry, hentry, rfl⟩ := List.mem_map.mp hpending
      exact List.mem_map_of_mem (List.mem_of_mem_tail hentry)
    · exact hpending

/-- What the call evicts was to be published next and is not published yet. -/
theorem Ledger.evicted_spec (h : s.Ledger)
    (hcalm : s.Undisturbed maxSize (.bufferMessage message)) {id : ℕ}
    (hid : id ∈ s.evicted maxSize) : id ∉ s.published ∧ id ∉ ids (s.kept maxSize) := by
  have hpending : s.pending = s.buffer := by
    unfold pending
    split
    · rename_i entry hphase
      rw [evicted_of_removing hcalm hphase] at hid
      simp at hid
    · rfl
  have hordered := h.ordered
  rw [hpending, ids_buffer maxSize s, List.pairwise_append] at hordered
  obtain ⟨_, hbuffer, hbefore⟩ := hordered
  constructor
  · intro hpublished
    have hlt := hbefore id hpublished id (by simp [hid])
    omega
  · intro hkept
    have hlt := (List.pairwise_append.mp hbuffer).2.2 id hid id hkept
    omega

theorem mem_ids_append {id : ℕ} :
    id ∈ ids (s.append maxSize message).buffer ↔ id ∈ ids (s.kept maxSize) ∨ id = s.next := by
  simp [append, ids]

theorem mem_dropped_append (message : BufferedMessage) {id : ℕ} :
    id ∈ (s.append maxSize message).dropped ↔ id ∈ s.dropped ∨ id ∈ s.evicted maxSize := by
  simp [append]

theorem mem_ids_buffer (maxSize : ℕ) {id : ℕ} :
    id ∈ ids s.buffer ↔ id ∈ s.evicted maxSize ∨ id ∈ ids (s.kept maxSize) := by
  rw [ids_buffer maxSize s, List.mem_append]

/-- Evicting the head that is being published leaves it among the dropped. -/
theorem inFlight_append (hcalm : s.Undisturbed maxSize (.bufferMessage message))
    (h : s.InFlight) : (s.append maxSize message).InFlight := by
  cases hphase : s.phase with
  | publishing entry =>
      simp only [InFlight, hphase, append] at h ⊢
      rcases h with hhead | hdropped
      · cases hbuffer : s.buffer with
        | nil => simp [hbuffer] at hhead
        | cons head rest =>
            rw [hbuffer, List.head?_cons, Option.some.injEq] at hhead
            subst hhead
            by_cases hfull : maxSize ≤ (head :: rest).length
            · right
              simp [evicted, hbuffer, ids, show maxSize ≤ rest.length + 1 from hfull]
            · left
              simp [kept, hbuffer, show ¬maxSize ≤ rest.length + 1 from hfull]
      · right
        simp [hdropped]
  | removing entry =>
      simp only [InFlight, hphase, append] at h ⊢
      rw [kept_of_removing hcalm hphase]
      cases hbuffer : s.buffer with
      | nil => simp [hbuffer] at h
      | cons head rest => simpa [hbuffer] using h
  | idle => simp [InFlight, append, hphase]
  | looking => simp [InFlight, append, hphase]
  | persisting => simp [InFlight, append, hphase]
  | writing data => simp [InFlight, append, hphase]
  | replacing => simp [InFlight, append, hphase]

theorem Ledger.append (h : s.Ledger) (hcalm : s.Undisturbed maxSize (.bufferMessage message)) :
    (s.append maxSize message).Ledger := by
  constructor
  · obtain ⟨l, hsub, hl⟩ := ids_pending_append hcalm h.inFlight
    have hsublist := (List.Sublist.refl s.published).append hsub
    show (s.published ++ ids (s.append maxSize message).pending).Pairwise (· < ·)
    rw [hl, ← List.append_assoc]
    apply pairwise_concat (h.ordered.sublist hsublist)
    intro id hid
    exact h.pending_lt id (hsublist.subset hid)
  · intro id hid
    change id < s.next + 1 at hid
    rw [mem_ids_append, mem_dropped_append]
    by_cases hnew : id = s.next
    · exact Or.inr (Or.inl (Or.inr hnew))
    · have hold := h.accounted id (by omega)
      rw [mem_ids_buffer maxSize] at hold
      change id ∈ s.published ∨ _
      tauto
  · intro id hid
    change id ∈ s.published ∨ _ at hid
    show id < s.next + 1
    rw [mem_ids_append, mem_dropped_append] at hid
    by_cases hnew : id = s.next
    · omega
    · have hold := h.older id
      rw [mem_ids_buffer maxSize] at hold
      have hlt : id < s.next := hold (by tauto)
      omega
  · intro id hid
    rcases (mem_dropped_append message).mp hid with hdropped | hevicted
    · exact h.unpublished id hdropped
    · exact (h.evicted_spec hcalm hevicted).1
  · intro id hid hbuffer
    rcases mem_ids_append.mp hbuffer with hkept | hnew
    · rcases (mem_dropped_append message).mp hid with hdropped | hevicted
      · exact h.gone id hdropped ((mem_ids_buffer maxSize).mpr (Or.inr hkept))
      · exact (h.evicted_spec hcalm hevicted).2 hkept
    · have hlt : id < s.next := by
        apply h.older
        rw [mem_ids_buffer maxSize]
        rcases (mem_dropped_append message).mp hid with hdropped | hevicted
        · exact Or.inr (Or.inr hdropped)
        · exact Or.inr (Or.inl (Or.inl hevicted))
      omega
  · exact inFlight_append hcalm h.inFlight

theorem Ledger.buffer_lt (h : s.Ledger) : ∀ entry ∈ s.buffer, entry.id < s.next := by
  intro entry hentry
  exact h.older entry.id (Or.inr (Or.inl (List.mem_map_of_mem hentry)))

/-- Data that the running replay read before the call lacks the new message. -/
theorem mirrored_bufferMessage (hledger : (s.append maxSize message).Ledger)
    (h : ∀ data ∈ s.snapshot, s.Mirrors data) :
    ∀ data ∈ (s.step maxSize (.bufferMessage message)).snapshot,
      (s.step maxSize (.bufferMessage message)).Mirrors data := by
  intro data hdata
  have hfresh : data = (s.append maxSize message).buffer →
      (s.step maxSize (.bufferMessage message)).Mirrors data := by
    intro hsame
    refine ⟨Or.inl hsame, ?_⟩
    rw [hsame]
    exact hledger.buffer_lt
  cases hphase : s.phase with
  | persisting => simp [snapshot, step, FallbackBuffer.bufferMessage, append, persist, writeText,
      replace, hphase] at hdata
  | writing read =>
      have hread : data = read := by
        simpa [snapshot, step, FallbackBuffer.bufferMessage, append, persist, writeText,
          replace, hphase, eq_comm] using hdata
      have hold := h data (by simp [snapshot, hphase, hread])
      constructor
      · refine Or.inr ⟨⟨s.next, message⟩, ?_, ?_⟩
        · show _ ∈ s.kept maxSize ++ [_]
          simp
        · intro hmem
          obtain ⟨entry, hentry, hid⟩ := List.mem_map.mp hmem
          have hlt := hold.older entry hentry
          simp only at hid
          omega
      · intro entry hentry
        have hlt := hold.older entry hentry
        show entry.id < s.next + 1
        omega
  | _ =>
      apply hfresh
      simpa [snapshot, step, FallbackBuffer.bufferMessage, append, persist, writeText,
        replace, hphase, eq_comm] using hdata

theorem Tracked.bufferMessage (hpos : 0 < maxSize) (h : Tracked maxSize s)
    (hcalm : s.Undisturbed maxSize (.bufferMessage message)) :
    Tracked maxSize (s.step maxSize (.bufferMessage message)) := by
  have hledger := h.toLedger.append hcalm
  refine ⟨⟨hledger.ordered, hledger.accounted, hledger.older, hledger.unpublished, hledger.gone,
    hledger.inFlight⟩, ?_, ?_, mirrored_bufferMessage hledger h.mirrored⟩
  · have hlen := length_kept_lt hpos h.bounded
    have hlength : (s.step maxSize (.bufferMessage message)).buffer.length =
        (s.kept maxSize).length + 1 := by
      simp [step, FallbackBuffer.bufferMessage, append, persist, writeText, replace]
    omega
  · have hcounted := h.counted
    have hevicted := length_evicted (s := s) hpos
    simp only [step, FallbackBuffer.bufferMessage, append, persist, writeText, replace,
      List.map_append, List.map_cons, List.map_nil, List.sum_append, List.sum_cons, List.sum_nil,
      List.length_append]
    omega

/-! ## Replaying -/

/-- The state after a step that changes the phase and the files only. -/
def goOn (s : FallbackBuffer) (phase : ReplayPhase) (file tmp : Option (List Entry))
    (replayed : ℕ) : FallbackBuffer :=
  { s with phase := phase, file := file, tmp := tmp, replayed := replayed }

theorem Tracked.goOn (h : Tracked maxSize s) {phase : ReplayPhase} {file tmp : Option (List Entry)}
    {replayed : ℕ} (hpending : (s.goOn phase file tmp replayed).pending = s.pending)
    (hflight : (s.goOn phase file tmp replayed).InFlight)
    (hdata : ∀ data ∈ (s.goOn phase file tmp replayed).snapshot,
      data ∈ s.snapshot ∨ data = s.buffer) : Tracked maxSize (s.goOn phase file tmp replayed) := by
  refine ⟨⟨?_, h.accounted, h.older, h.unpublished, h.gone, hflight⟩, h.bounded, h.counted, ?_⟩
  · rw [hpending]
    exact h.ordered
  · intro data hmem
    rcases hdata data hmem with hold | hnow
    · have hmirrors := h.mirrored data hold
      exact ⟨hmirrors.same, hmirrors.older⟩
    · refine ⟨Or.inl hnow, ?_⟩
      rw [hnow]
      exact h.buffer_lt

/-- An entry that is published while it is in the deque is its head. -/
theorem Tracked.inFlight_head (h : Tracked maxSize s) (hphase : s.phase = .publishing entry)
    (hmem : entry ∈ s.buffer) : ∃ rest, s.buffer = entry :: rest := by
  have hflight := h.inFlight
  simp only [InFlight, hphase] at hflight
  rcases hflight with hhead | hdropped
  · exact List.head?_eq_some_iff.mp hhead
  · exact absurd (List.mem_map_of_mem hmem) (h.gone entry.id hdropped)

theorem Tracked.publish (h : Tracked maxSize s) (hphase : s.phase = .publishing entry)
    (hmem : entry ∈ s.buffer) : Tracked maxSize (s.advance true) := by
  obtain ⟨rest, hbuffer⟩ := h.inFlight_head hphase hmem
  have hstep : s.advance true = { s with
      phase := .removing entry
      replayed := s.replayed + 1
      published := s.published ++ [entry.id] } := by
    simp [advance, hphase]
  have hid : entry.id ∈ ids s.buffer := List.mem_map_of_mem hmem
  rw [hstep]
  refine ⟨⟨?_, ?_, ?_, ?_, h.gone, ?_⟩, h.bounded, h.counted, ?_⟩
  · have hordered := h.ordered
    simpa [pending, hphase, hbuffer, ids] using hordered
  · intro id hlt
    have hold := h.accounted id hlt
    rw [List.mem_append]
    tauto
  · intro id hid'
    rw [List.mem_append, List.mem_singleton] at hid'
    by_cases hnow : id = entry.id
    · rw [hnow]
      exact h.older _ (Or.inr (Or.inl hid))
    · exact h.older id (by tauto)
  · intro id hdropped hpublished
    rw [List.mem_append, List.mem_singleton] at hpublished
    rcases hpublished with hbefore | hnow
    · exact h.unpublished id hdropped hbefore
    · rw [hnow] at hdropped
      exact h.gone entry.id hdropped hid
  · simp [InFlight, hbuffer]
  · have hmirrored := h.mirrored
    intro data hdata
    have hold := hmirrored data (by simpa [snapshot, hphase] using hdata)
    exact ⟨hold.same, hold.older⟩

theorem Tracked.remove (h : Tracked maxSize s) (hphase : s.phase = .removing entry)
    (publishes : Bool) : Tracked maxSize (s.advance publishes) := by
  have hflight := h.inFlight
  simp only [InFlight, hphase] at hflight
  obtain ⟨hhead, hpublished⟩ := hflight
  obtain ⟨rest, hbuffer⟩ := List.head?_eq_some_iff.mp hhead
  have hstep : s.advance publishes = { s with phase := .persisting, buffer := rest } := by
    simp [advance, hphase, hbuffer, removeEntry]
  have hsub : ∀ id, id ∈ ids rest → id ∈ ids s.buffer := by
    intro id hid
    rw [hbuffer]
    exact List.mem_cons_of_mem _ hid
  rw [hstep]
  refine ⟨⟨?_, ?_, ?_, h.unpublished, ?_, ?_⟩, ?_, h.counted, ?_⟩
  · have hordered := h.ordered
    simpa [pending, hphase, hbuffer, ids] using hordered
  · intro id hlt
    rcases h.accounted id hlt with hdone | hwaiting | hdropped
    · exact Or.inl hdone
    · rw [hbuffer, ids, List.map_cons, List.mem_cons] at hwaiting
      rcases hwaiting with heq | hrest
      · rw [heq]
        exact Or.inl hpublished
      · exact Or.inr (Or.inl hrest)
    · exact Or.inr (Or.inr hdropped)
  · intro id hid
    have hold := hsub id
    exact h.older id (by tauto)
  · intro id hdropped hrest
    exact h.gone id hdropped (hsub id hrest)
  · simp [InFlight]
  · have hbounded := h.bounded
    rw [hbuffer, List.length_cons] at hbounded
    show rest.length ≤ maxSize
    omega
  · simp [snapshot]

theorem Tracked.advance (h : Tracked maxSize s) {publishes : Bool}
    (hcalm : s.Undisturbed maxSize (.advance publishes)) :
    Tracked maxSize (s.advance publishes) := by
  cases hphase : s.phase with
  | idle => simpa [FallbackBuffer.advance, hphase] using h
  | looking =>
      cases hbuffer : s.buffer with
      | nil =>
          have hstep : s.advance publishes = s.goOn .idle s.file s.tmp s.replayed := by
            simp [FallbackBuffer.advance, FallbackBuffer.goOn, hphase, hbuffer]
          rw [hstep]
          apply h.goOn <;> simp [FallbackBuffer.goOn, pending, InFlight, snapshot, hphase]
      | cons head rest =>
          have hstep : s.advance publishes = s.goOn (.publishing head) s.file s.tmp s.replayed := by
            simp [FallbackBuffer.advance, FallbackBuffer.goOn, hphase, hbuffer]
          rw [hstep]
          apply h.goOn <;>
            simp [FallbackBuffer.goOn, pending, InFlight, snapshot, hphase, hbuffer]
  | publishing entry =>
      cases publishes with
      | true => exact h.publish hphase (hcalm entry hphase rfl)
      | false =>
          have hstep : s.advance false = s.goOn .idle s.file s.tmp s.replayed := by
            simp [FallbackBuffer.advance, FallbackBuffer.goOn, hphase]
          rw [hstep]
          apply h.goOn <;> simp [FallbackBuffer.goOn, pending, InFlight, snapshot, hphase]
  | removing entry => exact h.remove hphase publishes
  | persisting =>
      have hstep : s.advance publishes = s.goOn (.writing s.buffer) s.file s.tmp s.replayed := by
        simp [FallbackBuffer.advance, FallbackBuffer.goOn, hphase]
      rw [hstep]
      apply h.goOn <;> simp [FallbackBuffer.goOn, pending, InFlight, snapshot, hphase]
  | writing data =>
      have hstep : s.advance publishes = s.goOn .replacing s.file (some data) s.replayed := by
        simp [FallbackBuffer.advance, FallbackBuffer.goOn, writeText, hphase]
      rw [hstep]
      apply h.goOn <;> simp [FallbackBuffer.goOn, pending, InFlight, snapshot, hphase]
  | replacing =>
      cases htmp : s.tmp with
      | none =>
          have hstep : s.advance publishes = s.goOn .looking s.file s.tmp s.replayed := by
            simp [FallbackBuffer.advance, FallbackBuffer.goOn, replace, hphase, htmp]
          rw [hstep]
          apply h.goOn <;>
            simp [FallbackBuffer.goOn, pending, InFlight, snapshot, hphase, htmp]
      | some data =>
          have hstep : s.advance publishes = s.goOn .looking (some data) none s.replayed := by
            simp [FallbackBuffer.advance, FallbackBuffer.goOn, replace, hphase, htmp]
          rw [hstep]
          apply h.goOn <;>
            simp [FallbackBuffer.goOn, pending, InFlight, snapshot, hphase, htmp]

/-! ## Runs -/

theorem loadPersisted_of_le (hsame : s.file.getD [] = s.buffer)
    (hle : s.buffer.length ≤ maxSize) : s.loadPersisted maxSize = s.buffer := by
  unfold loadPersisted
  cases hfile : s.file with
  | none => simpa [hfile] using hsame
  | some loaded =>
      have hloaded : loaded = s.buffer := by simpa [hfile] using hsame
      simp [hloaded, show ¬maxSize < s.buffer.length by omega]

theorem loadPersisted_subset : s.loadPersisted maxSize ⊆ s.file.getD [] := by
  unfold loadPersisted
  cases s.file with
  | none => simp
  | some loaded =>
      simp only [Option.getD_some]
      split
      · exact List.drop_subset _ _
      · exact List.Subset.refl _

theorem Tracked.step (hpos : 0 < maxSize) (h : Tracked maxSize s) {event : BufferEvent}
    (hcalm : s.Undisturbed maxSize event) : Tracked maxSize (s.step maxSize event) := by
  cases event with
  | bufferMessage message => exact h.bufferMessage hpos hcalm
  | advance publishes => exact h.advance hcalm
  | replay =>
      cases hphase : s.phase with
      | idle =>
          have hstep : s.step maxSize .replay = s.goOn .looking s.file s.tmp 0 := by
            simp [FallbackBuffer.step, FallbackBuffer.goOn, hphase]
          rw [hstep]
          apply h.goOn <;> simp [FallbackBuffer.goOn, pending, InFlight, snapshot, hphase]
      | _ => simpa [FallbackBuffer.step, hphase] using h
  | restart =>
      cases hphase : s.phase with
      | idle =>
          have hstep : s.step maxSize .restart = s := by
            simp only [FallbackBuffer.step, hphase, hcalm hphase]
            rw [← hphase]
          rw [hstep]
          exact h
      | _ => simpa [FallbackBuffer.step, hphase] using h

/-- A disturbed step shows: the entry is counted twice, or one that was waiting is nowhere. -/
theorem Tracked.undisturbed (h : Tracked maxSize s) {event : BufferEvent}
    (hkept : Accounted maxSize (s.step maxSize event)) : s.Undisturbed maxSize event := by
  cases event with
  | replay => trivial
  | bufferMessage message =>
      intro entry hphase
      by_contra hfull
      have hflight := h.inFlight
      simp only [InFlight, hphase] at hflight
      obtain ⟨hhead, hpublished⟩ := hflight
      obtain ⟨rest, hbuffer⟩ := List.head?_eq_some_iff.mp hhead
      have hevicted : entry.id ∈ s.evicted maxSize := by
        have hle : maxSize ≤ s.buffer.length := by omega
        rw [evicted, if_pos hle, hbuffer]
        simp [ids]
      have hdropped := (mem_dropped_append message).mpr (Or.inr hevicted)
      exact hkept.unpublished entry.id hdropped hpublished
  | advance publishes =>
      intro entry hphase hpublishes
      have hflight := h.inFlight
      simp only [InFlight, hphase] at hflight
      rcases hflight with hhead | hdropped
      · exact List.mem_of_head? hhead
      · have hunpublished := hkept.unpublished entry.id
        simp [FallbackBuffer.step, FallbackBuffer.advance, hphase, hpublishes, hdropped]
          at hunpublished
  | restart =>
      intro hphase
      have hmirrors := h.mirrored (s.file.getD []) (by simp [snapshot, hphase])
      have hpending : s.pending = s.buffer := by simp [pending, hphase]
      rcases hmirrors.same with hsame | ⟨entry, hentry, hmissing⟩
      · exact loadPersisted_of_le hsame h.bounded
      · have hid : entry.id ∈ ids s.buffer := List.mem_map_of_mem hentry
        have hcount := hkept.accounted entry.id
        simp only [FallbackBuffer.step, hphase] at hcount
        rcases hcount (h.buffer_lt entry hentry) with hpublished | hloaded | hdropped
        · have hordered := h.ordered
          rw [hpending, List.pairwise_append] at hordered
          have hlt := hordered.2.2 entry.id hpublished entry.id hid
          omega
        · obtain ⟨other, hother, heq⟩ := List.mem_map.mp hloaded
          rw [← heq] at hmissing
          exact absurd (List.mem_map_of_mem (loadPersisted_subset hother)) hmissing
        · exact absurd hid (h.gone entry.id hdropped)

/-- Every message is accounted for in every state of exactly the runs that nothing disturbs. -/
theorem nothing_lost_iff (hpos : 0 < maxSize) (events : List BufferEvent) :
    EveryState (step maxSize) (Accounted maxSize) start events ↔
      EachStep (step maxSize) (Undisturbed maxSize) start events :=
  everyState_iff_eachStep_of_invariant (fun _ h => h.account) (fun _ _ h => h.step hpos)
    (fun _ _ h => h.undisturbed) events (tracked_start maxSize)

def signal (payload : String) : BufferEvent := .bufferMessage ⟨"signals", payload, "t"⟩

theorem nothing_lost_iff_signal :
    EveryState (step 1) (Accounted 1) start [signal "a", signal "b"] ↔
      EachStep (step 1) (Undisturbed 1) start [signal "a", signal "b"] :=
  nothing_lost_iff (by decide) [signal "a", signal "b"]

/-- `b` is buffered after the running replay has read the empty deque and before it writes the file;
its publication fails, and the process restarts. -/
def staleFile : List BufferEvent :=
  [signal "a", .replay, .advance true, .advance true, .advance true, .advance true, signal "b",
    .advance true, .advance true, .advance true, .advance false, .restart]

/-- The restart loses `b`. -/
theorem stale_file_loses_message :
    ¬EveryState (step 2) (Accounted 2) start staleFile := by
  intro h
  have hlost := h.last.accounted 1 (by decide)
  revert hlost
  decide

end FallbackBuffer

end TradingPlatform.Messaging
