import RecordStore.OrderedDict
import RecordStore.Text.Class
import RecordStore.Value.Basic

/-!
# Aliases and placeholders

An expression never spells a field name or a value itself.  It uses an *alias* such as `#city` for the
name and a *placeholder* such as `:city` for the value, and two tables say what they stand for.
Spellings are derived from field names, and `fresh` keeps apart the names that share a spelling.

* `isPlain_of_mem_spelling` — a spelling holds only letters, digits and underscores of ASCII;
* `spelling_ne_nil` — and it is never empty.
-/

namespace RecordStore

/-- Aliases with the field names that they stand for. -/
abbrev AliasTable := OrderedDict String

/-- Placeholders with the values that they stand for. -/
abbrev ValueTable := OrderedDict Value

namespace Naming

/-- Drops every character that is not plain, and capitalizes the first one after it. -/
def camel : Bool → List Char → List Char
  | _, [] => []
  | capital, c :: cs =>
    if Text.isPlain c then (if capital then c.toUpper else c) :: camel false cs else camel true cs

/-- The spelling of a field name or path: its plain characters in camel case, or a stock word if there
are none. -/
def spelling (path : String) : String :=
  match camel false (path.toList.dropWhile fun c => !Text.isPlain c) with
  | [] => "attr"
  | cs => String.ofList cs

/-- A spelling with a number after it. -/
def suffixed (base : String) (n : Nat) : String := base ++ "_" ++ toString n

/-- The first free one of the names numbered from `n`, among as many as given.  Here the count has no bound;
one in a signed integer of 32 bits gives the same as long as a table has fewer than 2^31 entries. -/
def firstFree {α : Type} (taken : OrderedDict α) (base : String) : Nat → Nat → String
  | 0, n => suffixed base n
  | tries + 1, n =>
    if taken.contains (suffixed base n) then firstFree taken base tries (n + 1)
    else suffixed base n

/-- A name that a table does not hold: the candidate itself, or the candidate with the least number
from 1 that makes it new.  A table with the candidate in it cannot hold as many numbered names as it
has entries, so the search ends in time. -/
def fresh {α : Type} (taken : OrderedDict α) (candidate : String) : String :=
  if taken.contains candidate then firstFree taken candidate taken.size 1 else candidate

/-- The alias of a field name, entered into the table if it has none yet. -/
def aliasOf (names : AliasTable) (field : String) : String × AliasTable :=
  match names.findKey? fun n => n = field with
  | some a => (a, names)
  | none =>
    let a := fresh names ("#" ++ spelling field)
    (a, names.insert a field)

/-- A new placeholder for a value, entered into the table. -/
def placeholderFor (values : ValueTable) (candidate : String) (v : Value) : String × ValueTable :=
  let p := fresh values candidate
  (p, values.insert p v)

theorem isPlain_toUpper {c : Char} (h : Text.isPlain c) : Text.isPlain c.toUpper := by
  have below := Text.toNat_lt_of_isPlain h
  have all : ∀ n < 128, Text.isPlain (Char.ofNat n) → Text.isPlain (Char.ofNat n).toUpper := by
    decide +kernel
  have := all c.toNat below
  rw [Char.ofNat_toNat] at this
  exact this h

theorem isPlain_of_mem_camel {capital : Bool} {cs : List Char} {c : Char}
    (h : c ∈ camel capital cs) : Text.isPlain c := by
  induction cs generalizing capital with
  | nil => simp [camel] at h
  | cons d cs ih =>
    by_cases hd : Text.isPlain d
    · simp only [camel, hd, if_true, List.mem_cons] at h
      rcases h with rfl | h
      · split
        · exact isPlain_toUpper hd
        · exact hd
      · exact ih h
    · simp only [camel, hd] at h
      exact ih h

/-- A spelling holds only letters, digits and underscores of ASCII. -/
theorem isPlain_of_mem_spelling {path : String} {c : Char} (h : c ∈ (spelling path).toList) :
    Text.isPlain c := by
  unfold spelling at h
  split at h
  · have stock : "attr".toList = ['a', 't', 't', 'r'] := rfl
    simp only [stock, List.mem_cons, List.not_mem_nil, or_false] at h
    rcases h with rfl | rfl | rfl | rfl <;> rfl
  · rw [String.toList_ofList] at h
    exact isPlain_of_mem_camel h

/-- A spelling is never empty. -/
theorem spelling_ne_nil (path : String) : (spelling path).toList ≠ [] := by
  unfold spelling
  split
  · decide
  · rename_i h
    rw [String.toList_ofList]
    exact h

end Naming

end RecordStore
