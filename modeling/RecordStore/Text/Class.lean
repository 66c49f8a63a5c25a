import RecordStore.Text.Alphabetic
import RecordStore.Text.Extending
import RecordStore.Text.Numeric
import RecordStore.Text.Unprintable

/-!
# Character classes

The classes that expression texts, configurations and messages ask about.  Each follows a property of
the Unicode standard; below 128 the standard's answer is spelled out, so that a statement about plain
text needs no table.

* `isWordChar_of_isPlain` — letters, digits and underscores of ASCII may stand in an identifier;
* `not_isWordChar_of_isBlank` — no blank may.
-/

namespace RecordStore.Text

/-- Whether a code point lies in one of the ranges of a table, both ends included. -/
def inRanges (table : List (Nat × Nat)) (point : Nat) : Bool :=
  table.any fun r => decide (r.1 ≤ point ∧ point ≤ r.2)

/-- Whether a character is white space. -/
def isBlank (c : Char) : Bool :=
  inRanges [(0x9, 0xd), (0x20, 0x20), (0x85, 0x85), (0xa0, 0xa0), (0x1680, 0x1680), (0x2000, 0x200a),
    (0x2028, 0x2029), (0x202f, 0x202f), (0x205f, 0x205f), (0x3000, 0x3000)] c.toNat

/-- Whether a code point is a letter of ASCII. -/
def isAsciiLetter (point : Nat) : Bool :=
  decide (0x41 ≤ point ∧ point ≤ 0x5a ∨ 0x61 ≤ point ∧ point ≤ 0x7a)

/-- Whether a code point is a digit of ASCII. -/
def isAsciiDigit (point : Nat) : Bool := decide (0x30 ≤ point ∧ point ≤ 0x39)

/-- Whether a character is a letter of any script. -/
def isLetter (c : Char) : Bool :=
  if c.toNat < 128 then isAsciiLetter c.toNat else inRanges alphabetic c.toNat

/-- Whether a character is a numeral of any script. -/
def isNumeral (c : Char) : Bool :=
  if c.toNat < 128 then isAsciiDigit c.toNat else inRanges numeric c.toNat

/-- Whether a character is a letter or a numeral of any script. -/
def isAlphanumeric (c : Char) : Bool := isLetter c || isNumeral c

/-- Whether a character may stand in an identifier. -/
def isWordChar (c : Char) : Bool := isAlphanumeric c || c = '_'

/-- Whether a character may open an identifier. -/
def isWordStart (c : Char) : Bool := isLetter c || c = '_'

/-- Whether a character is a letter or digit of ASCII or an underscore. -/
def isPlain (c : Char) : Bool := isAsciiLetter c.toNat || isAsciiDigit c.toNat || c = '_'

/-- Whether a character is shown as itself inside quotes: it has a shape and stands on its own. -/
def isShown (c : Char) : Bool :=
  if c.toNat < 128 then decide (0x20 ≤ c.toNat ∧ c.toNat < 0x7f)
  else !inRanges unprintable c.toNat && !inRanges extending c.toNat

theorem toNat_lt_of_isPlain {c : Char} (h : isPlain c) : c.toNat < 128 := by
  simp only [isPlain, isAsciiLetter, isAsciiDigit, Bool.or_eq_true, decide_eq_true_eq] at h
  rcases h with (h | h) | rfl
  · omega
  · omega
  · decide

/-- Letters, digits and underscores of ASCII may stand in an identifier. -/
theorem isWordChar_of_isPlain {c : Char} (h : isPlain c) : isWordChar c := by
  have hc := toNat_lt_of_isPlain h
  simp only [isPlain, Bool.or_eq_true] at h
  rcases h with (h | h) | h <;> simp [isWordChar, isAlphanumeric, isLetter, isNumeral, hc, h]

/-- No blank may stand in an identifier. -/
theorem not_isWordChar_of_isBlank {c : Char} (h : isBlank c) : isWordChar c = false := by
  have letters : ∀ n ∈ [0x9, 0xa, 0xb, 0xc, 0xd, 0x20, 0x85, 0xa0, 0x1680, 0x2000, 0x2001, 0x2002,
      0x2003, 0x2004, 0x2005, 0x2006, 0x2007, 0x2008, 0x2009, 0x200a, 0x2028, 0x2029, 0x202f,
      0x205f, 0x3000], isWordChar (Char.ofNat n) = false := by decide +kernel
  have point : c = Char.ofNat c.toNat := (Char.ofNat_toNat c).symm
  rw [point]
  apply letters
  simp only [isBlank, inRanges, List.any_cons, List.any_nil, Bool.or_false, Bool.or_eq_true,
    decide_eq_true_eq] at h
  simp only [List.mem_cons, List.not_mem_nil, or_false]
  omega

end RecordStore.Text
