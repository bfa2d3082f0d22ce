import Mathlib.Computability.RegularExpressions
import Mathlib.Data.List.TakeWhile
import Mathlib.Data.Nat.Notation
import Mathlib.Tactic.Common
import TradingPlatform.Base.ClassPattern

/-! # The export sanitizers

The spreadsheet export is sanitized in Python and the grid's CSV and clipboard exports in
JavaScript, by the same steps over two regular expression engines. No character beyond U+FFFF is
in a class of the JavaScript engine or compared with, so both read a text by code points.
-/

namespace TradingPlatform.Console

open Base Base.ClassPattern

/-! ## The two engines -/

/-- What `\s`, `\d` and `$` stand for. -/
structure RegexEngine where
  space : Char → Bool
  digit : Char → Bool
  dollarBeforeNewline : Bool

/-- The white space of both engines. -/
def commonSpace (c : Char) : Bool :=
  let n := c.toNat
  (0x09 ≤ n && n ≤ 0x0D) || n == 0x20 || n == 0xA0 || n == 0x1680 || (0x2000 ≤ n && n ≤ 0x200A)
    || n == 0x2028 || n == 0x2029 || n == 0x202F || n == 0x205F || n == 0x3000

/-- The zeros of the decimal digit blocks of Unicode 14. -/
def decimalZeros : List ℕ :=
  [0x30, 0x660, 0x6F0, 0x7C0, 0x966, 0x9E6, 0xA66, 0xAE6, 0xB66, 0xBE6, 0xC66, 0xCE6, 0xD66, 0xDE6,
   0xE50, 0xED0, 0xF20, 0x1040, 0x1090, 0x17E0, 0x1810, 0x1946, 0x19D0, 0x1A80, 0x1A90, 0x1B50,
   0x1BB0, 0x1C40, 0x1C50, 0xA620, 0xA8D0, 0xA900, 0xA9D0, 0xA9F0, 0xAA50, 0xABF0, 0xFF10, 0x104A0,
   0x10D30, 0x11066, 0x110F0, 0x11136, 0x111D0, 0x112F0, 0x11450, 0x114D0, 0x11650, 0x116C0,
   0x11730, 0x118E0, 0x11950, 0x11C50, 0x11D50, 0x11DA0, 0x16A60, 0x16AC0, 0x16B50, 0x1D7CE,
   0x1D7D8, 0x1D7E2, 0x1D7EC, 0x1D7F6, 0x1E140, 0x1E2F0, 0x1E950, 0x1FBF0]

def unicodeDigit (c : Char) : Bool :=
  decimalZeros.any fun first => first ≤ c.toNat && c.toNat ≤ first + 9

def asciiDigit (c : Char) : Bool := 0x30 ≤ c.toNat && c.toNat ≤ 0x39

/-- U+FEFF, white space in JavaScript alone. -/
def byteOrderMark : Char := '\uFEFF'

/-- U+0085, white space in Python alone. -/
def nextLine : Char := '\u0085'

def pythonEngine : RegexEngine where
  space c := commonSpace c || (0x1C ≤ c.toNat && c.toNat ≤ 0x1F) || c == nextLine
  digit := unicodeDigit
  dollarBeforeNewline := true

def ecmaScriptEngine : RegexEngine where
  space c := commonSpace c || c == byteOrderMark
  digit := asciiDigit
  dollarBeforeNewline := false

/-! ## The strict numeric pattern -/

/-- The classes of `^-?\d+(\.\d+)?([eE][+-]?\d+)?$`. -/
inductive NumericClass
  | minus
  | plus
  | dot
  | exponent
  | digit
  | other
  deriving DecidableEq, Repr

def RegexEngine.classify (engine : RegexEngine) (c : Char) : NumericClass :=
  if c = '-' then .minus
  else if c = '+' then .plus
  else if c = '.' then .dot
  else if c = 'e' ∨ c = 'E' then .exponent
  else if engine.digit c then .digit
  else .other

open RegularExpression in
def fractionPattern : RegularExpression NumericClass := char .dot * oneOrMore (char .digit)

open RegularExpression in
def exponentPattern : RegularExpression NumericClass :=
  char .exponent * (zeroOrOne (char .plus + char .minus) * oneOrMore (char .digit))

open RegularExpression in
def strictNumericRegex : RegularExpression NumericClass :=
  zeroOrOne (char .minus)
    * (oneOrMore (char .digit) * (zeroOrOne fractionPattern * zeroOrOne exponentPattern))

/-- A match up to `$`, which one of the engines also lets stand before a final newline. -/
def RegexEngine.StrictlyNumeric (engine : RegexEngine) (text : List Char) : Prop :=
  Accepts engine.classify strictNumericRegex text ∨
    engine.dollarBeforeNewline = true ∧ text.getLast? = some '\n' ∧
      Accepts engine.classify strictNumericRegex text.dropLast

instance (engine : RegexEngine) (text : List Char) : Decidable (engine.StrictlyNumeric text) :=
  inferInstanceAs (Decidable (_ ∨ _))

/-! ## The sanitizers -/

/-- The class `[\s\x00-\x1f]`. -/
def RegexEngine.stripped (engine : RegexEngine) (c : Char) : Bool :=
  engine.space c || c.toNat ≤ 0x1F

def dangerous : List Char := ['=', '+', '@', '\t', '\r', '\n']

/-- The steps that both sources write out. -/
def sanitizeWith (engine : RegexEngine) (value : String) : String :=
  match value.toList.dropWhile engine.stripped with
  | [] => value
  | firstChar :: rest =>
    if firstChar ∈ dangerous then "'" ++ value
    else if firstChar = '-' then
      if engine.StrictlyNumeric (firstChar :: rest) then value else "'" ++ value
    else value

/-- The function of `sanitization.py`. -/
def sanitizeForExport (value : String) : String := sanitizeWith pythonEngine value

/-- The function of `grid_export.js`. -/
def GridExport.sanitizeForExport (value : String) : String := sanitizeWith ecmaScriptEngine value

example : sanitizeForExport "-1.2E-5" = "-1.2E-5" := by decide
example : GridExport.sanitizeForExport "-1+1" = "'-1+1" := by decide

/-! ## What a sanitized export is -/

/-- The white space and control characters of either engine. -/
def leading (c : Char) : Bool := pythonEngine.stripped c || ecmaScriptEngine.stripped c

def IsDigits (text : List Char) : Prop := text ≠ [] ∧ ∀ c ∈ text, asciiDigit c = true

/-- A plain decimal number in ASCII, without its sign. -/
def PlainNumber (text : List Char) : Prop :=
  ∃ whole fraction exponent,
    text = whole ++ (fraction ++ exponent) ∧
    IsDigits whole ∧
    (fraction = [] ∨ ∃ digits, fraction = '.' :: digits ∧ IsDigits digits) ∧
    (exponent = [] ∨ ∃ mark sign digits,
      exponent = mark :: (sign ++ digits) ∧ (mark = 'e' ∨ mark = 'E') ∧
        (sign = [] ∨ sign = ['+'] ∨ sign = ['-']) ∧ IsDigits digits)

/-- No spreadsheet reads the text as a formula. -/
def Harmless (value : String) : Prop :=
  ∀ first rest, value.toList.dropWhile leading = first :: rest →
    first ≠ '=' ∧ first ≠ '+' ∧ first ≠ '@' ∧ (first = '-' → PlainNumber rest)

def Sanitized (value result : String) : Prop :=
  result = value ∧ Harmless value ∨ result = "'" ++ value

/-- One result from both, and a safe one. -/
def ExportParity (value : String) : Prop :=
  sanitizeForExport value = GridExport.sanitizeForExport value ∧
    Sanitized value (sanitizeForExport value)

/-- No white space of one engine alone stands in front. -/
def SharedFront (value : String) : Prop :=
  ∀ c ∈ value.toList.takeWhile leading, c ≠ byteOrderMark ∧ c ≠ nextLine

/-- A negative number in Python only: a digit beyond ASCII, or a final newline. -/
def PythonOnlyNumber (text : List Char) : Prop :=
  text.head? = some '-' ∧ pythonEngine.StrictlyNumeric text ∧ ∃ c ∈ text, 0x7F < c.toNat ∨ c = '\n'

/-! ## White space -/

theorem python_stripped {c : Char} (h : c ≠ byteOrderMark) :
    pythonEngine.stripped c = leading c := by
  have hb : (c == byteOrderMark) = false := by simpa using h
  cases hc : commonSpace c <;>
    simp [leading, RegexEngine.stripped, pythonEngine, ecmaScriptEngine, hc, hb]

theorem ecmaScript_stripped {c : Char} (h : c ≠ nextLine) :
    ecmaScriptEngine.stripped c = leading c := by
  have hn : (c == nextLine) = false := by simpa using h
  cases hc : commonSpace c <;> cases hb : c == byteOrderMark <;>
    simp [leading, RegexEngine.stripped, pythonEngine, ecmaScriptEngine, hc, hb, hn]

/-- A narrower class strips the same front, or stops inside it. -/
theorem dropWhile_narrower {α : Type} {narrow wide : α → Bool}
    (h : ∀ c, narrow c = true → wide c = true) (text : List α) :
    (text.dropWhile narrow = text.dropWhile wide ∧ ∀ c ∈ text.takeWhile wide, narrow c = true) ∨
      ∃ c rest, text.dropWhile narrow = c :: rest ∧ c ∈ text.takeWhile wide ∧ narrow c = false := by
  induction text with
  | nil => simp
  | cons c text ih =>
    cases hnarrow : narrow c with
    | true =>
      have hwide := h c hnarrow
      simp only [List.dropWhile_cons, List.takeWhile_cons, hnarrow, hwide, if_true]
      rcases ih with ⟨hsame, hall⟩ | ⟨d, rest, hd, hmem, hstop⟩
      · left
        exact ⟨hsame, by simpa [hnarrow] using hall⟩
      · right
        exact ⟨d, rest, hd, by simp [hmem], hstop⟩
    | false =>
      cases hwide : wide c with
      | true =>
        right
        exact ⟨c, text, by simp [hnarrow], by simp [hwide], hnarrow⟩
      | false =>
        left
        simp [hnarrow, hwide]

/-! ## Numbers -/

theorem unicodeDigit_of_asciiDigit {c : Char} (h : asciiDigit c = true) :
    unicodeDigit c = true := by
  have hbounds : 0x30 ≤ c.toNat ∧ c.toNat ≤ 0x39 := by simpa [asciiDigit] using h
  have hmem : 0x30 ∈ decimalZeros := by decide
  simp only [unicodeDigit, List.any_eq_true, Bool.and_eq_true, decide_eq_true_eq]
  exact ⟨0x30, hmem, hbounds⟩

theorem zero_eq_or_le {n : ℕ} (h : n ∈ decimalZeros) : n = 0x30 ∨ 0x660 ≤ n := by
  have hall : ∀ m ∈ decimalZeros, m = 0x30 ∨ 0x660 ≤ m := by decide
  exact hall n h

theorem asciiDigit_of_unicodeDigit {c : Char} (hascii : c.toNat ≤ 0x7F)
    (h : unicodeDigit c = true) : asciiDigit c = true := by
  simp only [unicodeDigit, List.any_eq_true, Bool.and_eq_true, decide_eq_true_eq] at h
  obtain ⟨first, hfirst, hlow, hhigh⟩ := h
  simp only [asciiDigit, Bool.and_eq_true, decide_eq_true_eq]
  rcases zero_eq_or_le hfirst with rfl | hfar <;> omega

theorem classify_congr {engine engine' : RegexEngine} {c : Char}
    (h : engine.digit c = engine'.digit c) : engine.classify c = engine'.classify c := by
  unfold RegexEngine.classify
  rw [h]

theorem classify_python_of_ne_other {c : Char} (h : ecmaScriptEngine.classify c ≠ .other) :
    pythonEngine.classify c = ecmaScriptEngine.classify c := by
  cases hdigit : ecmaScriptEngine.digit c with
  | true =>
    apply classify_congr
    rw [hdigit]
    exact unicodeDigit_of_asciiDigit hdigit
  | false =>
    unfold RegexEngine.classify at h ⊢
    rw [hdigit] at h
    split_ifs at h ⊢ <;> first | rfl | contradiction

theorem classify_of_ascii {c : Char} (h : c.toNat ≤ 0x7F) :
    pythonEngine.classify c = ecmaScriptEngine.classify c := by
  apply classify_congr
  rw [Bool.eq_iff_iff]
  exact ⟨asciiDigit_of_unicodeDigit h, unicodeDigit_of_asciiDigit⟩

theorem other_notMem_classes : NumericClass.other ∉ classes strictNumericRegex := by
  decide

theorem ecmaScript_strictlyNumeric {text : List Char} :
    ecmaScriptEngine.StrictlyNumeric text ↔
      Accepts ecmaScriptEngine.classify strictNumericRegex text := by
  simp [RegexEngine.StrictlyNumeric, ecmaScriptEngine]

theorem ne_other_of_ecmaScript {text : List Char} (h : ecmaScriptEngine.StrictlyNumeric text)
    {c : Char} (hc : c ∈ text) : ecmaScriptEngine.classify c ≠ .other := by
  intro hother
  have hmem := classify_mem_classes (ecmaScript_strictlyNumeric.mp h) hc
  rw [hother] at hmem
  exact other_notMem_classes hmem

/-- Python accepts every number that JavaScript does. -/
theorem python_of_ecmaScript {text : List Char} (h : ecmaScriptEngine.StrictlyNumeric text) :
    pythonEngine.StrictlyNumeric text := by
  left
  rw [accepts_congr fun c hc => classify_python_of_ne_other (ne_other_of_ecmaScript h hc)]
  exact ecmaScript_strictlyNumeric.mp h

theorem classify_other {c : Char} (h : 0x7F < c.toNat ∨ c = '\n') :
    ecmaScriptEngine.classify c = .other := by
  rcases h with hfar | rfl
  · have hdigit : asciiDigit c = false := by
      simp only [asciiDigit, Bool.and_eq_false_iff, decide_eq_false_iff_not]
      omega
    have hne : ∀ d : Char, d.toNat ≤ 0x7F → c ≠ d := by
      rintro d hd rfl
      omega
    simp [RegexEngine.classify, ecmaScriptEngine, hdigit, hne '-' (by decide),
      hne '+' (by decide), hne '.' (by decide), hne 'e' (by decide), hne 'E' (by decide)]
  · decide

/-- What Python accepts beyond JavaScript has a character outside ASCII or a newline. -/
theorem foreign_iff {text : List Char} (h : pythonEngine.StrictlyNumeric text) :
    (∃ c ∈ text, 0x7F < c.toNat ∨ c = '\n') ↔ ¬ ecmaScriptEngine.StrictlyNumeric text := by
  constructor
  · rintro ⟨c, hc, hforeign⟩ hecma
    exact ne_other_of_ecmaScript hecma hc (classify_other hforeign)
  · intro hecma
    by_contra hnone
    apply hecma
    rw [ecmaScript_strictlyNumeric]
    rcases h with haccepts | ⟨-, hlast, -⟩
    · rwa [← accepts_congr]
      intro c hc
      apply classify_of_ascii
      by_contra hfar
      exact hnone ⟨c, hc, Or.inl (by omega)⟩
    · exact absurd ⟨'\n', List.mem_of_getLast? hlast, Or.inr rfl⟩ hnone

/-! ## The pattern is the plain numbers -/

theorem classify_eq_minus {engine : RegexEngine} {c : Char} :
    engine.classify c = .minus ↔ c = '-' := by
  unfold RegexEngine.classify
  split_ifs <;> simp_all

theorem classify_eq_plus {engine : RegexEngine} {c : Char} :
    engine.classify c = .plus ↔ c = '+' := by
  unfold RegexEngine.classify
  split_ifs with hminus <;> simp_all

theorem classify_eq_dot {engine : RegexEngine} {c : Char} :
    engine.classify c = .dot ↔ c = '.' := by
  unfold RegexEngine.classify
  split_ifs <;> simp_all

theorem classify_eq_exponent {engine : RegexEngine} {c : Char} :
    engine.classify c = .exponent ↔ c = 'e' ∨ c = 'E' := by
  unfold RegexEngine.classify
  split_ifs with hminus hplus hdot <;> simp_all

theorem classify_eq_digit {c : Char} :
    ecmaScriptEngine.classify c = .digit ↔ asciiDigit c = true := by
  unfold RegexEngine.classify
  split_ifs with hminus hplus hdot hmark hdigit
  · subst hminus
    decide
  · subst hplus
    decide
  · subst hdot
    decide
  · rcases hmark with rfl | rfl <;> decide
  · exact iff_of_true rfl hdigit
  · exact iff_of_false (by simp) hdigit

theorem accepts_digits {text : List Char} :
    Accepts ecmaScriptEngine.classify (oneOrMore (.char .digit)) text ↔ IsDigits text := by
  rw [accepts_oneOrMore_char]
  simp [IsDigits, classify_eq_digit]

theorem accepts_fraction {text : List Char} :
    Accepts ecmaScriptEngine.classify fractionPattern text ↔
      ∃ digits, text = '.' :: digits ∧ IsDigits digits := by
  unfold fractionPattern
  rw [accepts_mul]
  simp only [accepts_char, accepts_digits, classify_eq_dot]
  constructor
  · rintro ⟨_, digits, rfl, ⟨c, rfl, rfl⟩, hdigits⟩
    exact ⟨digits, rfl, hdigits⟩
  · rintro ⟨digits, rfl, hdigits⟩
    exact ⟨['.'], digits, rfl, ⟨'.', rfl, rfl⟩, hdigits⟩

theorem accepts_sign {text : List Char} :
    Accepts ecmaScriptEngine.classify (zeroOrOne (.char .plus + .char .minus)) text ↔
      text = [] ∨ text = ['+'] ∨ text = ['-'] := by
  rw [accepts_zeroOrOne, accepts_add]
  simp only [accepts_char, classify_eq_plus, classify_eq_minus]
  simp

theorem accepts_exponent {text : List Char} :
    Accepts ecmaScriptEngine.classify exponentPattern text ↔
      ∃ mark sign digits, text = mark :: (sign ++ digits) ∧ (mark = 'e' ∨ mark = 'E') ∧
        (sign = [] ∨ sign = ['+'] ∨ sign = ['-']) ∧ IsDigits digits := by
  unfold exponentPattern
  rw [accepts_mul]
  simp only [accepts_char, accepts_mul, accepts_sign, accepts_digits, classify_eq_exponent]
  constructor
  · rintro ⟨_, _, rfl, ⟨mark, rfl, hmark⟩, sign, digits, rfl, hsign, hdigits⟩
    exact ⟨mark, sign, digits, rfl, hmark, hsign, hdigits⟩
  · rintro ⟨mark, sign, digits, rfl, hmark, hsign, hdigits⟩
    exact ⟨[mark], sign ++ digits, rfl, ⟨mark, rfl, hmark⟩, sign, digits, rfl, hsign, hdigits⟩

theorem accepts_unsigned {text : List Char} :
    Accepts ecmaScriptEngine.classify
        (oneOrMore (.char .digit) * (zeroOrOne fractionPattern * zeroOrOne exponentPattern)) text ↔
      PlainNumber text := by
  rw [accepts_mul]
  simp only [accepts_mul, accepts_zeroOrOne, accepts_fraction, accepts_exponent, accepts_digits]
  constructor
  · rintro ⟨whole, _, rfl, hwhole, fraction, exponent, rfl, hfraction, hexponent⟩
    exact ⟨whole, fraction, exponent, rfl, hwhole, hfraction, hexponent⟩
  · rintro ⟨whole, fraction, exponent, rfl, hwhole, hfraction, hexponent⟩
    exact ⟨whole, fraction ++ exponent, rfl, hwhole, fraction, exponent, rfl, hfraction, hexponent⟩

theorem not_plainNumber_minus {rest : List Char} : ¬ PlainNumber ('-' :: rest) := by
  rintro ⟨whole, fraction, exponent, htext, ⟨hne, hdigits⟩, -⟩
  obtain ⟨c, whole, rfl⟩ := List.exists_cons_of_ne_nil hne
  have hc : c = '-' := by simpa using (List.cons.inj htext).1.symm
  have hdigit := hdigits c (by simp)
  rw [hc] at hdigit
  exact absurd hdigit (by decide)

/-- After a minus sign JavaScript accepts the plain numbers. -/
theorem ecmaScript_minus {rest : List Char} :
    ecmaScriptEngine.StrictlyNumeric ('-' :: rest) ↔ PlainNumber rest := by
  rw [ecmaScript_strictlyNumeric]
  unfold strictNumericRegex
  rw [accepts_mul]
  simp only [accepts_zeroOrOne, accepts_char, accepts_unsigned, classify_eq_minus]
  constructor
  · rintro ⟨front, back, htext, rfl | ⟨c, rfl, rfl⟩, hback⟩
    · have hminus : '-' :: rest = back := htext
      exact absurd (hminus ▸ hback) not_plainNumber_minus
    · have hrest : rest = back := (List.cons.inj htext).2
      exact hrest ▸ hback
  · intro h
    exact ⟨['-'], rest, rfl, Or.inr ⟨'-', rfl, rfl⟩, h⟩

/-! ## What the sanitizers quote -/

/-- The sanitizer prefixes the value by a quote. -/
def RegexEngine.Suspicious (engine : RegexEngine) (value : String) : Prop :=
  ∃ first rest, value.toList.dropWhile engine.stripped = first :: rest ∧
    (first ∈ dangerous ∨ first = '-' ∧ ¬ engine.StrictlyNumeric (first :: rest))

theorem sanitizeWith_of_suspicious {engine : RegexEngine} {value : String}
    (h : engine.Suspicious value) : sanitizeWith engine value = "'" ++ value := by
  obtain ⟨first, rest, htrimmed, hdangerous | ⟨rfl, hnumber⟩⟩ := h
  · simp [sanitizeWith, htrimmed, hdangerous]
  · simp [sanitizeWith, htrimmed, hnumber]

theorem sanitizeWith_of_not_suspicious {engine : RegexEngine} {value : String}
    (h : ¬ engine.Suspicious value) : sanitizeWith engine value = value := by
  unfold sanitizeWith
  split
  · rfl
  · next first rest htrimmed =>
    have hsafe : ¬ (first ∈ dangerous ∨
        first = '-' ∧ ¬ engine.StrictlyNumeric (first :: rest)) :=
      fun hquoted => h ⟨first, rest, htrimmed, hquoted⟩
    rw [not_or, not_and_not_right] at hsafe
    split_ifs with hdangerous hminus hnumber
    · exact absurd hdangerous hsafe.1
    · rfl
    · exact absurd (hsafe.2 hminus) hnumber
    · rfl

theorem quoted_ne (value : String) : "'" ++ value ≠ value := by
  intro h
  have hlength := congrArg String.length h
  simp at hlength

theorem sanitizeWith_eq_iff {engine : RegexEngine} {value : String} :
    sanitizeWith engine value = value ↔ ¬ engine.Suspicious value := by
  constructor
  · intro h hsuspicious
    rw [sanitizeWith_of_suspicious hsuspicious] at h
    exact quoted_ne value h
  · exact sanitizeWith_of_not_suspicious

/-! ## Where the two agree -/

/-- The engine strips what either does, `foreign` apart. -/
structure StripsAllBut (engine : RegexEngine) (foreign : Char) : Prop where
  stripped_eq : ∀ c, c ≠ foreign → engine.stripped c = leading c
  not_stripped : engine.stripped foreign = false
  not_dangerous : foreign ∉ dangerous
  ne_minus : foreign ≠ '-'

theorem pythonEngine_stripsAllBut : StripsAllBut pythonEngine byteOrderMark where
  stripped_eq _ := python_stripped
  not_stripped := by decide
  not_dangerous := by decide
  ne_minus := by decide

theorem ecmaScriptEngine_stripsAllBut : StripsAllBut ecmaScriptEngine nextLine where
  stripped_eq _ := ecmaScript_stripped
  not_stripped := by decide
  not_dangerous := by decide
  ne_minus := by decide

section

variable {engine : RegexEngine} {foreign : Char} {value : String}

theorem StripsAllBut.eq_foreign (hengine : StripsAllBut engine foreign) {c : Char}
    (hleading : leading c = true) (hstop : engine.stripped c = false) : c = foreign := by
  by_contra hne
  have hsame := hengine.stripped_eq c hne
  simp [hleading, hstop] at hsame

theorem StripsAllBut.trimmed_or_stop (hengine : StripsAllBut engine foreign) (value : String) :
    (value.toList.dropWhile engine.stripped = value.toList.dropWhile leading ∧
        ∀ c ∈ value.toList.takeWhile leading, c ≠ foreign) ∨
      ∃ rest, value.toList.dropWhile engine.stripped = foreign :: rest ∧
        foreign ∈ value.toList.takeWhile leading := by
  have hwide : ∀ c, engine.stripped c = true → leading c = true := by
    intro c hc
    by_cases hforeign : c = foreign
    · rw [hforeign, hengine.not_stripped] at hc
      cases hc
    · rwa [← hengine.stripped_eq c hforeign]
  rcases dropWhile_narrower hwide value.toList with ⟨hsame, hall⟩ | ⟨c, rest, htrimmed, hmem, hstop⟩
  · left
    refine ⟨hsame, ?_⟩
    rintro c hc rfl
    exact absurd (hall c hc) (by simp [hengine.not_stripped])
  · right
    have hleading := List.mem_takeWhile_imp hmem
    obtain rfl := hengine.eq_foreign hleading hstop
    exact ⟨rest, htrimmed, hmem⟩

theorem StripsAllBut.trimmed (hengine : StripsAllBut engine foreign)
    (hshared : ∀ c ∈ value.toList.takeWhile leading, c ≠ foreign) :
    value.toList.dropWhile engine.stripped = value.toList.dropWhile leading := by
  rcases hengine.trimmed_or_stop value with ⟨hsame, -⟩ | ⟨rest, -, hmem⟩
  · exact hsame
  · exact absurd rfl (hshared foreign hmem)

/-- A sanitizer that stops in front of the text never quotes it. -/
theorem StripsAllBut.of_suspicious (hengine : StripsAllBut engine foreign)
    (h : engine.Suspicious value) :
    value.toList.dropWhile engine.stripped = value.toList.dropWhile leading ∧
      ∀ c ∈ value.toList.takeWhile leading, c ≠ foreign := by
  rcases hengine.trimmed_or_stop value with htrimmed | ⟨rest, hstop, -⟩
  · exact htrimmed
  · obtain ⟨first, rest', hfirst, hquoted⟩ := h
    obtain ⟨rfl, -⟩ := List.cons.inj (hstop.symm.trans hfirst)
    rcases hquoted with hdangerous | ⟨hminus, -⟩
    · exact absurd hdangerous hengine.not_dangerous
    · exact absurd hminus hengine.ne_minus

theorem not_leading_of_dropWhile {text rest : List Char} {first : Char}
    (h : text.dropWhile leading = first :: rest) : leading first = false := by
  have hhead := List.head?_dropWhile_not leading text
  simpa [h] using hhead

theorem dangerous_iff {first : Char} (h : leading first = false) :
    first ∈ dangerous ↔ first = '=' ∨ first = '+' ∨ first = '@' := by
  have hne : ∀ c : Char, leading c = true → first ≠ c := by
    rintro c hc rfl
    simp [hc] at h
  simp [dangerous, hne '\t' (by decide), hne '\r' (by decide), hne '\n' (by decide)]

theorem not_suspicious_of_harmless
    (hnumber : ∀ rest, PlainNumber rest → engine.StrictlyNumeric ('-' :: rest))
    (htrimmed : value.toList.dropWhile engine.stripped = value.toList.dropWhile leading)
    (h : Harmless value) : ¬ engine.Suspicious value := by
  rintro ⟨first, rest, hfirst, hquoted⟩
  rw [htrimmed] at hfirst
  obtain ⟨heq, hplus, hat, hminus⟩ := h first rest hfirst
  rcases hquoted with hdangerous | ⟨rfl, hnot⟩
  · rw [dangerous_iff (not_leading_of_dropWhile hfirst)] at hdangerous
    tauto
  · exact hnot (hnumber rest (hminus rfl))

theorem suspicious_of_not_harmless
    (hnumber : ∀ rest, value.toList.dropWhile leading = '-' :: rest →
      engine.StrictlyNumeric ('-' :: rest) → PlainNumber rest)
    (htrimmed : value.toList.dropWhile engine.stripped = value.toList.dropWhile leading)
    (h : ¬ Harmless value) : engine.Suspicious value := by
  unfold Harmless at h
  push Not at h
  obtain ⟨first, rest, hfirst, hharm⟩ := h
  refine ⟨first, rest, htrimmed.trans hfirst, ?_⟩
  rw [dangerous_iff (not_leading_of_dropWhile hfirst)]
  by_cases hminus : first = '-'
  · subst hminus
    right
    refine ⟨rfl, fun hnumeric => ?_⟩
    have hplain := hnumber rest hfirst hnumeric
    exact (hharm (by decide) (by decide) (by decide)).2 hplain
  · left
    by_contra hnone
    push Not at hnone
    exact hminus (hharm hnone.1 hnone.2.1 hnone.2.2).1

end

theorem python_not_suspicious {value : String} (h : Harmless value) :
    ¬ pythonEngine.Suspicious value := by
  intro hsuspicious
  have htrimmed := (pythonEngine_stripsAllBut.of_suspicious hsuspicious).1
  have hnumber : ∀ rest, PlainNumber rest → pythonEngine.StrictlyNumeric ('-' :: rest) :=
    fun rest hplain => python_of_ecmaScript (ecmaScript_minus.mpr hplain)
  exact not_suspicious_of_harmless hnumber htrimmed h hsuspicious

theorem ecmaScript_not_suspicious {value : String} (h : Harmless value) :
    ¬ ecmaScriptEngine.Suspicious value := by
  intro hsuspicious
  have htrimmed := (ecmaScriptEngine_stripsAllBut.of_suspicious hsuspicious).1
  exact not_suspicious_of_harmless (fun rest => ecmaScript_minus.mpr) htrimmed h hsuspicious

theorem python_suspicious {value : String} (hshared : SharedFront value)
    (hnumber : ¬ PythonOnlyNumber (value.toList.dropWhile leading)) (h : ¬ Harmless value) :
    pythonEngine.Suspicious value := by
  have htrimmed := pythonEngine_stripsAllBut.trimmed fun c hc => (hshared c hc).1
  refine suspicious_of_not_harmless (fun rest hrest hnumeric => ?_) htrimmed h
  rw [hrest] at hnumber
  rw [← ecmaScript_minus]
  by_contra hecma
  exact hnumber ⟨rfl, hnumeric, (foreign_iff hnumeric).mpr hecma⟩

theorem ecmaScript_suspicious {value : String} (hshared : SharedFront value)
    (h : ¬ Harmless value) : ecmaScriptEngine.Suspicious value := by
  have htrimmed := ecmaScriptEngine_stripsAllBut.trimmed fun c hc => (hshared c hc).2
  exact suspicious_of_not_harmless (fun rest _ => ecmaScript_minus.mp) htrimmed h

theorem not_pythonOnlyNumber {value : String} (h : pythonEngine.Suspicious value) :
    ¬ PythonOnlyNumber (value.toList.dropWhile leading) := by
  rintro ⟨hhead, hnumeric, -⟩
  have htrimmed := (pythonEngine_stripsAllBut.of_suspicious h).1
  obtain ⟨first, rest, hfirst, hquoted⟩ := h
  rw [htrimmed] at hfirst
  rw [hfirst] at hhead hnumeric
  obtain rfl : first = '-' := by simpa using hhead
  rcases hquoted with hdangerous | ⟨-, hnot⟩
  · exact absurd hdangerous (by decide)
  · exact hnot hnumeric

/-- The two agree on the harmless texts, and on the others unless white space of one engine stands
in front or Python alone reads a number. -/
theorem exportParity_iff (value : String) :
    ExportParity value ↔
      Harmless value ∨
        SharedFront value ∧ ¬ PythonOnlyNumber (value.toList.dropWhile leading) := by
  unfold ExportParity sanitizeForExport GridExport.sanitizeForExport
  by_cases hharmless : Harmless value
  · have hpython := sanitizeWith_of_not_suspicious (python_not_suspicious hharmless)
    have hecma := sanitizeWith_of_not_suspicious (ecmaScript_not_suspicious hharmless)
    simp [hpython, hecma, Sanitized, hharmless]
  · simp only [Sanitized, hharmless, and_false, false_or]
    constructor
    · rintro ⟨hsame, hquoted⟩
      have hpython : pythonEngine.Suspicious value := by
        by_contra hnot
        rw [sanitizeWith_of_not_suspicious hnot] at hquoted
        exact quoted_ne value hquoted.symm
      have hecma : ecmaScriptEngine.Suspicious value := by
        by_contra hnot
        rw [hquoted, sanitizeWith_of_not_suspicious hnot] at hsame
        exact quoted_ne value hsame
      have hmark := (pythonEngine_stripsAllBut.of_suspicious hpython).2
      have hnext := (ecmaScriptEngine_stripsAllBut.of_suspicious hecma).2
      exact ⟨fun c hc => ⟨hmark c hc, hnext c hc⟩, not_pythonOnlyNumber hpython⟩
    · rintro ⟨hshared, hnumber⟩
      have hpython := sanitizeWith_of_suspicious (python_suspicious hshared hnumber hharmless)
      have hecma := sanitizeWith_of_suspicious (ecmaScript_suspicious hshared hharmless)
      exact ⟨hpython.trans hecma.symm, hpython⟩

/-- Python stops at a byte order mark and lets the formula behind it through. -/
theorem exportParity_fails_byteOrderMark : ¬ ExportParity "\uFEFF=1" := by
  rintro ⟨hsame, -⟩
  revert hsame
  decide

end TradingPlatform.Console
