import Mathlib.Data.Nat.Notation
import Mathlib.Tactic.Common

/-! # Base64 texts and UTF-8 texts of bytes

Decoding is lenient: it skips the characters outside the alphabet, ends at the padding that
completes a group of four, and fails where the text ends inside a group.
-/

namespace TradingPlatform.Base

abbrev Bytes := List UInt8

/-! ## UTF-8 -/

def utf8Encode (text : String) : Bytes := text.toUTF8.data.toList

def utf8Decode (bytes : Bytes) : Option String := String.fromUTF8? ⟨bytes.toArray⟩

@[simp] theorem utf8Decode_utf8Encode (text : String) :
    utf8Decode (utf8Encode text) = some text := by
  simp [utf8Decode, utf8Encode, String.fromUTF8?, String.fromUTF8, text.isValidUTF8]

/-! ## Base64 -/

namespace Base64

def digit (n : ℕ) : Char :=
  if n < 26 then Char.ofNat (65 + n)
  else if n < 52 then Char.ofNat (71 + n)
  else if n < 62 then Char.ofNat (n - 4)
  else if n = 62 then '+' else '/'

def digitValue (c : Char) : Option ℕ :=
  if 'A' ≤ c ∧ c ≤ 'Z' then some (c.toNat - 65)
  else if 'a' ≤ c ∧ c ≤ 'z' then some (c.toNat - 71)
  else if '0' ≤ c ∧ c ≤ '9' then some (c.toNat + 4)
  else if c = '+' then some 62
  else if c = '/' then some 63
  else none

def encodeChars : Bytes → List Char
  | [] => []
  | [a] => [digit (a.toNat / 4), digit (a.toNat % 4 * 16), '=', '=']
  | [a, b] =>
      [digit (a.toNat / 4), digit (a.toNat % 4 * 16 + b.toNat / 16), digit (b.toNat % 16 * 4), '=']
  | a :: b :: c :: rest =>
      digit (a.toNat / 4) :: digit (a.toNat % 4 * 16 + b.toNat / 16) ::
        digit (b.toNat % 16 * 4 + c.toNat / 64) :: digit (c.toNat % 64) :: encodeChars rest

def encode (bytes : Bytes) : String := String.ofList (encodeChars bytes)

/-- `position` in the group of four, the bits left over from it, and the padding seen since its last
digit. -/
def decodeChars (position left pads : ℕ) : List Char → Option Bytes
  | [] => if position = 0 then some [] else none
  | c :: rest =>
      if c = '=' then
        if 2 ≤ position then
          if 4 ≤ position + (pads + 1) then some [] else decodeChars position left (pads + 1) rest
        else decodeChars position left pads rest
      else
        match digitValue c with
        | none => decodeChars position left pads rest
        | some value =>
            match position with
            | 0 => decodeChars 1 value 0 rest
            | 1 =>
                (decodeChars 2 (value % 16) 0 rest).map (UInt8.ofNat (left * 4 + value / 16) :: ·)
            | 2 =>
                (decodeChars 3 (value % 4) 0 rest).map (UInt8.ofNat (left * 16 + value / 4) :: ·)
            | _ => (decodeChars 0 0 0 rest).map (UInt8.ofNat (left * 64 + value) :: ·)

/-- A text with a character that is not ASCII is refused. -/
def decode (text : String) : Option Bytes :=
  if text.toList.all (·.toNat < 128) then decodeChars 0 0 0 text.toList else none

/-! ## What is encoded is decoded -/

theorem digit_spec {n : ℕ} (h : n < 64) :
    digit n ≠ '=' ∧ digitValue (digit n) = some n ∧ (digit n).toNat < 128 := by
  have hall : ∀ i : Fin 64, digit i ≠ '=' ∧ digitValue (digit i) = some i.val ∧
      (digit i).toNat < 128 := by decide
  exact hall ⟨n, h⟩

variable {left pads n : ℕ} {rest : List Char}

theorem decodeChars_digit_zero (h : n < 64) :
    decodeChars 0 left pads (digit n :: rest) = decodeChars 1 n 0 rest := by
  obtain ⟨hpad, hvalue, _⟩ := digit_spec h
  simp [decodeChars, hpad, hvalue]

theorem decodeChars_digit_one (h : n < 64) :
    decodeChars 1 left pads (digit n :: rest) =
      (decodeChars 2 (n % 16) 0 rest).map (UInt8.ofNat (left * 4 + n / 16) :: ·) := by
  obtain ⟨hpad, hvalue, _⟩ := digit_spec h
  simp [decodeChars, hpad, hvalue]

theorem decodeChars_digit_two (h : n < 64) :
    decodeChars 2 left pads (digit n :: rest) =
      (decodeChars 3 (n % 4) 0 rest).map (UInt8.ofNat (left * 16 + n / 4) :: ·) := by
  obtain ⟨hpad, hvalue, _⟩ := digit_spec h
  simp [decodeChars, hpad, hvalue]

theorem decodeChars_digit_three (h : n < 64) :
    decodeChars 3 left pads (digit n :: rest) =
      (decodeChars 0 0 0 rest).map (UInt8.ofNat (left * 64 + n) :: ·) := by
  obtain ⟨hpad, hvalue, _⟩ := digit_spec h
  simp [decodeChars, hpad, hvalue]

theorem ofNat_eq_of_toNat {a : UInt8} {m : ℕ} (h : m = a.toNat) : UInt8.ofNat m = a := by
  rw [h]
  exact UInt8.ofNat_toNat

theorem decodeChars_encodeChars (bytes : Bytes) :
    decodeChars 0 0 0 (encodeChars bytes) = some bytes := by
  induction bytes using encodeChars.induct with
  | case1 => rfl
  | case2 a =>
      have ha := a.toNat_lt
      rw [encodeChars, decodeChars_digit_zero (by omega), decodeChars_digit_one (by omega),
        ofNat_eq_of_toNat (a := a) (by omega)]
      simp [decodeChars]
  | case3 a b =>
      have ha := a.toNat_lt
      have hb := b.toNat_lt
      rw [encodeChars, decodeChars_digit_zero (by omega), decodeChars_digit_one (by omega),
        decodeChars_digit_two (by omega), ofNat_eq_of_toNat (a := a) (by omega),
        ofNat_eq_of_toNat (a := b) (by omega)]
      simp [decodeChars]
  | case4 a b c rest ih =>
      have ha := a.toNat_lt
      have hb := b.toNat_lt
      have hc := c.toNat_lt
      rw [encodeChars, decodeChars_digit_zero (by omega), decodeChars_digit_one (by omega),
        decodeChars_digit_two (by omega), decodeChars_digit_three (by omega), ih,
        ofNat_eq_of_toNat (a := a) (by omega), ofNat_eq_of_toNat (a := b) (by omega),
        ofNat_eq_of_toNat (a := c) (by omega)]
      simp

theorem encodeChars_ascii (bytes : Bytes) : ∀ c ∈ encodeChars bytes, c.toNat < 128 := by
  induction bytes using encodeChars.induct with
  | case1 => simp [encodeChars]
  | case2 a =>
      have ha := a.toNat_lt
      have hpad : ('=').toNat < 128 := by decide
      simp only [encodeChars, List.forall_mem_cons, List.not_mem_nil, false_implies, implies_true,
        and_true]
      exact ⟨(digit_spec (by omega)).2.2, (digit_spec (by omega)).2.2, hpad, hpad⟩
  | case3 a b =>
      have ha := a.toNat_lt
      have hb := b.toNat_lt
      have hpad : ('=').toNat < 128 := by decide
      simp only [encodeChars, List.forall_mem_cons, List.not_mem_nil, false_implies, implies_true,
        and_true]
      exact ⟨(digit_spec (by omega)).2.2, (digit_spec (by omega)).2.2,
        (digit_spec (by omega)).2.2, hpad⟩
  | case4 a b c rest ih =>
      have ha := a.toNat_lt
      have hb := b.toNat_lt
      have hc := c.toNat_lt
      simp only [encodeChars, List.forall_mem_cons]
      exact ⟨(digit_spec (by omega)).2.2, (digit_spec (by omega)).2.2,
        (digit_spec (by omega)).2.2, (digit_spec (by omega)).2.2, ih⟩

@[simp] theorem decode_encode (bytes : Bytes) : decode (encode bytes) = some bytes := by
  have hascii : (encodeChars bytes).all (·.toNat < 128) = true := by
    simpa using encodeChars_ascii bytes
  rw [decode, encode, String.toList_ofList, if_pos hascii]
  exact decodeChars_encodeChars bytes

end Base64

end TradingPlatform.Base
