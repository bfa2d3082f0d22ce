import Mathlib.Data.Char
import Mathlib.Data.List.Sort
import Mathlib.Tactic.Common

/-! # Objects of texts, written as JSON

Texts are quoted in ASCII: quotes, backslashes and six control characters by a letter, all
else that is not printable ASCII by the four hex digits of its UTF-16 units. Members are written
without blanks. What is written determines what it was written from.
-/

namespace TradingPlatform.Base

def hexDigits4 (n : ℕ) : List Char :=
  [Nat.digitChar (n / 4096), Nat.digitChar (n / 256 % 16), Nat.digitChar (n / 16 % 16),
    Nat.digitChar (n % 16)]

def escapeUnit (n : ℕ) : List Char := '\\' :: 'u' :: hexDigits4 n

def shortEscapes : List (Char × Char) :=
  [('"', '"'), ('\\', '\\'), ('\n', 'n'), ('\r', 'r'), ('\t', 't'), ('\x0c', 'f'), ('\x08', 'b')]

/-- Characters past the first plane are written as a surrogate pair. -/
def escapeChar (c : Char) : List Char :=
  match shortEscapes.lookup c with
  | some letter => ['\\', letter]
  | none =>
      if ' ' ≤ c ∧ c ≤ '~' then [c]
      else if c.toNat < 65536 then escapeUnit c.toNat
      else escapeUnit (55296 + (c.toNat - 65536) / 1024) ++
        escapeUnit (56320 + (c.toNat - 65536) % 1024)

def quoted (text : String) : List Char := '"' :: (text.toList.flatMap escapeChar ++ ['"'])

def jsonMember (m : String × String) : List Char := quoted m.1 ++ ':' :: quoted m.2

def jsonMembers : List (String × String) → List Char
  | [] => []
  | [m] => jsonMember m
  | m :: n :: rest => jsonMember m ++ ',' :: jsonMembers (n :: rest)

/-- `json.dumps(members, separators=(",", ":"))` -/
def jsonDumps (members : List (String × String)) : String :=
  String.ofList ('{' :: (jsonMembers members ++ ['}']))

/-- `sort_keys=True` -/
def sortKeys (members : List (String × String)) : List (String × String) :=
  members.insertionSort fun m n => m.1 ≤ n.1

/-! ## What is written is unambiguous -/

theorem digitChar_inj {m n : ℕ} (hm : m < 16) (hn : n < 16)
    (h : Nat.digitChar m = Nat.digitChar n) : m = n := by
  have hall : ∀ i : Fin 16, ∀ j : Fin 16, Nat.digitChar i = Nat.digitChar j → i = j := by decide
  exact congrArg Fin.val (hall ⟨m, hm⟩ ⟨n, hn⟩ h)

theorem escapeUnit_append_inj {m n : ℕ} {t u : List Char} (hm : m < 65536) (hn : n < 65536)
    (h : escapeUnit m ++ t = escapeUnit n ++ u) : m = n ∧ t = u := by
  simp only [escapeUnit, hexDigits4, List.cons_append, List.nil_append, List.cons.injEq,
    true_and] at h
  obtain ⟨h₃, h₂, h₁, h₀, htail⟩ := h
  have h₃ := digitChar_inj (by omega) (by omega) h₃
  have h₂ := digitChar_inj (by omega) (by omega) h₂
  have h₁ := digitChar_inj (by omega) (by omega) h₁
  have h₀ := digitChar_inj (by omega) (by omega) h₀
  exact ⟨by omega, htail⟩

/-- The four forms of an escaped character. -/
inductive EscapedAs (c : Char) : List Char → Prop where
  | short (letter : Char) (h : (c, letter) ∈ shortEscapes) : EscapedAs c ['\\', letter]
  | plain (hquote : c ≠ '"') (hslash : c ≠ '\\') : EscapedAs c [c]
  | unit (h : c.toNat < 65536) : EscapedAs c (escapeUnit c.toNat)
  | pair (h : 65536 ≤ c.toNat) :
      EscapedAs c (escapeUnit (55296 + (c.toNat - 65536) / 1024) ++
        escapeUnit (56320 + (c.toNat - 65536) % 1024))

theorem escapedAs (c : Char) : EscapedAs c (escapeChar c) := by
  unfold escapeChar
  split
  · rename_i letter hletter
    obtain ⟨_, _, hmem, _⟩ := List.lookup_eq_some_iff.mp hletter
    exact .short letter (by rw [hmem]; simp)
  · rename_i hnone
    split
    · apply EscapedAs.plain
      · intro heq
        rw [heq] at hnone
        exact absurd hnone (by decide)
      · intro heq
        rw [heq] at hnone
        exact absurd hnone (by decide)
    · split
      · exact .unit (by assumption)
      · exact .pair (by omega)

theorem shortEscapes_inj {c d letter : Char} (hc : (c, letter) ∈ shortEscapes)
    (hd : (d, letter) ∈ shortEscapes) : c = d := by
  have hall : ∀ m ∈ shortEscapes, ∀ n ∈ shortEscapes, m.2 = n.2 → m.1 = n.1 := by decide
  exact hall _ hc _ hd rfl

theorem shortEscapes_ne_u {c letter : Char} (h : (c, letter) ∈ shortEscapes) : letter ≠ 'u' := by
  have hall : ∀ m ∈ shortEscapes, m.2 ≠ 'u' := by decide
  exact hall _ h

/-- A character is no half of a surrogate pair. -/
theorem toNat_range (c : Char) : c.toNat < 55296 ∨ 57343 < c.toNat ∧ c.toNat < 1114112 := c.valid

theorem EscapedAs.append_inj {c d : Char} {x y t u : List Char} (hc : EscapedAs c x)
    (hd : EscapedAs d y) (h : x ++ t = y ++ u) : c = d ∧ t = u := by
  cases hc with
  | short letter hletter =>
      cases hd with
      | short letter' hletter' =>
          simp only [List.cons_append, List.nil_append, List.cons.injEq, true_and] at h
          obtain ⟨rfl, htail⟩ := h
          exact ⟨shortEscapes_inj hletter hletter', htail⟩
      | plain _ hslash => exact absurd (List.cons.inj h).1 (Ne.symm hslash)
      | unit _ => exact absurd (List.cons.inj (List.cons.inj h).2).1 (shortEscapes_ne_u hletter)
      | pair _ => exact absurd (List.cons.inj (List.cons.inj h).2).1 (shortEscapes_ne_u hletter)
  | plain _ hslash =>
      cases hd with
      | short _ _ => exact absurd (List.cons.inj h).1 hslash
      | plain _ _ => exact List.cons.inj h
      | unit _ => exact absurd (List.cons.inj h).1 hslash
      | pair _ => exact absurd (List.cons.inj h).1 hslash
  | unit hsmall =>
      cases hd with
      | short letter hletter =>
          exact absurd (List.cons.inj (List.cons.inj h).2).1.symm (shortEscapes_ne_u hletter)
      | plain _ hslash => exact absurd (List.cons.inj h).1.symm hslash
      | unit hsmall' =>
          have ⟨hsame, htail⟩ := escapeUnit_append_inj hsmall hsmall' h
          exact ⟨Char.toNat_inj.mp hsame, htail⟩
      | pair hlarge =>
          have hrange := toNat_range d
          rw [List.append_assoc] at h
          have ⟨hsame, _⟩ := escapeUnit_append_inj hsmall (by omega) h
          have hunit := toNat_range c
          omega
  | pair hlarge =>
      have hrange := toNat_range c
      rw [List.append_assoc] at h
      cases hd with
      | short letter hletter =>
          exact absurd (List.cons.inj (List.cons.inj h).2).1.symm (shortEscapes_ne_u hletter)
      | plain _ hslash => exact absurd (List.cons.inj h).1.symm hslash
      | unit hsmall =>
          have ⟨hsame, _⟩ := escapeUnit_append_inj (by omega) hsmall h
          have hunit := toNat_range d
          omega
      | pair hlarge' =>
          have hrange' := toNat_range d
          rw [List.append_assoc] at h
          have ⟨hhigh, hrest⟩ := escapeUnit_append_inj (by omega) (by omega) h
          have ⟨hlow, htail⟩ := escapeUnit_append_inj (by omega) (by omega) hrest
          exact ⟨Char.toNat_inj.mp (by omega), htail⟩

/-- The quote that ends a text begins no escaped character. -/
theorem EscapedAs.head_ne {c : Char} {x t u : List Char} (h : EscapedAs c x) :
    x ++ t ≠ '"' :: u := by
  intro heq
  cases h with
  | short _ _ => exact absurd (List.cons.inj heq).1 (by decide)
  | plain hquote _ => exact hquote (List.cons.inj heq).1
  | unit _ => exact absurd (List.cons.inj heq).1 (by decide)
  | pair _ => exact absurd (List.cons.inj heq).1 (by decide)

theorem escaped_append_inj {xs ys t u : List Char}
    (h : xs.flatMap escapeChar ++ '"' :: t = ys.flatMap escapeChar ++ '"' :: u) :
    xs = ys ∧ t = u := by
  induction xs generalizing ys with
  | nil =>
      cases ys with
      | nil => exact ⟨rfl, (List.cons.inj h).2⟩
      | cons d ys =>
          rw [List.flatMap_cons, List.append_assoc] at h
          exact absurd h.symm (escapedAs d).head_ne
  | cons c xs ih =>
      cases ys with
      | nil =>
          rw [List.flatMap_cons, List.append_assoc] at h
          exact absurd h (escapedAs c).head_ne
      | cons d ys =>
          rw [List.flatMap_cons, List.flatMap_cons, List.append_assoc, List.append_assoc] at h
          have ⟨hchar, hrest⟩ := (escapedAs c).append_inj (escapedAs d) h
          have ⟨hchars, htail⟩ := ih hrest
          rw [hchar, hchars]
          exact ⟨rfl, htail⟩

theorem quoted_append_inj {a b : String} {t u : List Char}
    (h : quoted a ++ t = quoted b ++ u) : a = b ∧ t = u := by
  simp only [quoted, List.cons_append, List.append_assoc, List.nil_append, List.cons.injEq,
    true_and] at h
  have ⟨hchars, htail⟩ := escaped_append_inj h
  exact ⟨String.toList_inj.mp hchars, htail⟩

theorem jsonMember_append_inj {m n : String × String} {t u : List Char}
    (h : jsonMember m ++ t = jsonMember n ++ u) : m = n ∧ t = u := by
  simp only [jsonMember, List.append_assoc, List.cons_append] at h
  have ⟨hkey, hrest⟩ := quoted_append_inj h
  have ⟨hvalue, htail⟩ := quoted_append_inj (List.cons.inj hrest).2
  exact ⟨Prod.ext hkey hvalue, htail⟩

theorem jsonMember_append_ne (m : String × String) (t u : List Char) :
    jsonMember m ++ t ≠ '}' :: u := by
  intro h
  exact absurd (List.cons.inj h).1 (by decide)

theorem jsonMembers_append_inj {l l' : List (String × String)} {t u : List Char}
    (h : jsonMembers l ++ '}' :: t = jsonMembers l' ++ '}' :: u) : l = l' := by
  induction l using jsonMembers.induct generalizing l' with
  | case1 =>
      match l' with
      | [] => rfl
      | [m] => exact absurd h.symm (jsonMember_append_ne m _ _)
      | m :: n :: rest =>
          rw [jsonMembers, jsonMembers, List.append_assoc] at h
          exact absurd h.symm (jsonMember_append_ne m _ _)
  | case2 m =>
      match l' with
      | [] => exact absurd h (jsonMember_append_ne m _ _)
      | [n] => rw [(jsonMember_append_inj h).1]
      | n :: n' :: rest =>
          rw [jsonMembers, jsonMembers, List.append_assoc] at h
          have hnext := (jsonMember_append_inj h).2
          exact absurd (List.cons.inj hnext).1 (by decide)
  | case3 m m' rest ih =>
      rw [jsonMembers, List.append_assoc] at h
      match l' with
      | [] => exact absurd h (jsonMember_append_ne m _ _)
      | [n] =>
          have hnext := (jsonMember_append_inj h).2
          exact absurd (List.cons.inj hnext).1 (by decide)
      | n :: n' :: rest' =>
          rw [jsonMembers, List.append_assoc] at h
          have ⟨hfirst, hnext⟩ := jsonMember_append_inj h
          rw [hfirst, ih (List.cons.inj hnext).2]

theorem jsonDumps_inj {l l' : List (String × String)} : jsonDumps l = jsonDumps l' ↔ l = l' := by
  constructor
  · intro h
    have hchars := String.ofList_injective h
    exact jsonMembers_append_inj (List.cons.inj hchars).2
  · intro h
    rw [h]

end TradingPlatform.Base
