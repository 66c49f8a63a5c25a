import RecordStore.Dict
import RecordStore.Number.Shortest

/-!
# Values

A value of an attribute: a number, a text, bytes, a truth value, nothing, a list or a map.  A number
is kept as the text it was given as, so that no digit is lost; `toBinary64?` and `toInt64?` read it.

* `beq_iff_eq` — structural equality is decided by `Value.beq`.
-/

namespace RecordStore

/-- A typed value. -/
inductive Value where
  | number (text : String)
  | string (text : String)
  | bytes (content : List UInt8)
  | bool (truth : Bool)
  | null
  | list (items : List Value)
  | map (entries : Dict Value)
deriving Inhabited

/-- A record: attribute names bound to values. -/
abbrev Item := Dict Value

namespace Value

mutual

/-- Whether two values are the same. -/
def beq : Value → Value → Bool
  | .number s, .number t => s = t
  | .string s, .string t => s = t
  | .bytes s, .bytes t => s = t
  | .bool s, .bool t => s = t
  | .null, .null => true
  | .list xs, .list ys => beqList xs ys
  | .map ⟨xs⟩, .map ⟨ys⟩ => beqEntries xs ys
  | _, _ => false

/-- Whether two lists hold the same values. -/
def beqList : List Value → List Value → Bool
  | [], [] => true
  | x :: xs, y :: ys => beq x y && beqList xs ys
  | _, _ => false

/-- Whether two entry lists bind the same names to the same values. -/
def beqEntries : List (String × Value) → List (String × Value) → Bool
  | [], [] => true
  | (m, x) :: xs, (n, y) :: ys => decide (m = n) && beq x y && beqEntries xs ys
  | _, _ => false

end

mutual

/-- Structural equality is decided by `beq`. -/
theorem beq_iff_eq : ∀ a b : Value, beq a b = true ↔ a = b
  | .number s, b => by cases b <;> simp [beq]
  | .string s, b => by cases b <;> simp [beq]
  | .bytes s, b => by cases b <;> simp [beq]
  | .bool s, b => by cases b <;> simp [beq]
  | .null, b => by cases b <;> simp [beq]
  | .list xs, b => by cases b <;> simp [beq, beqList_iff_eq xs]
  | .map ⟨xs⟩, b => by
    cases b with
    | map ys => obtain ⟨ys⟩ := ys; simp [beq, beqEntries_iff_eq xs]
    | _ => simp [beq]

theorem beqList_iff_eq : ∀ xs ys : List Value, beqList xs ys = true ↔ xs = ys
  | [], ys => by cases ys <;> simp [beqList]
  | x :: xs, ys => by cases ys <;> simp [beqList, beq_iff_eq x, beqList_iff_eq xs]

theorem beqEntries_iff_eq : ∀ xs ys : List (String × Value), beqEntries xs ys = true ↔ xs = ys
  | [], ys => by cases ys <;> simp [beqEntries]
  | (m, x) :: xs, ys => by
    cases ys <;> simp [beqEntries, beq_iff_eq x, beqEntries_iff_eq xs, Prod.ext_iff]

end

instance : DecidableEq Value := fun a b => decidable_of_iff _ (beq_iff_eq a b)

/-- Numbers are written in full, without an exponent and without a mark after whole ones. -/
def numberStyle : NumberStyle := ⟨.upper, "", none⟩

/-- The number value of a whole number. -/
def ofInt (i : Int) : Value := .number (toString i)

/-- The number value of a floating-point number. -/
def ofBinary64 (x : Binary64) : Value := .number (numberStyle.write x)

/-- The text of a string value. -/
def text? : Value → Option String
  | .string s => some s
  | _ => none

/-- The entries of a map value. -/
def entries? : Value → Option (Dict Value)
  | .map d => some d
  | _ => none

/-- The floating-point number nearest to a number value. -/
def toBinary64? : Value → Option Binary64
  | .number s => Literal.binary64? s
  | _ => none

/-- A number value as a 64-bit integer: its digits if it is spelled so, else its whole part, clamped. -/
def toInt64? : Value → Option Int
  | .number s =>
    match Literal.int64? s with
    | some i => some i
    | none => (Literal.binary64? s).map (Binary64.truncateTo Literal.int64Min Literal.int64Max)
  | _ => none

end Value

end RecordStore
