import RecordStore.Document
import RecordStore.Proofs.Number.Rounding

/-!
# Documents as values, and back

A document that goes into a record and comes out again is the same one, but for its large integers: a
number is read back as an integer only if it is one of 64 bits with a sign.  An integer above 2^63 - 1
comes back as the real number nearest to it.

* `Document.Has` — a document is made of texts, truth values, null and integers that pass a test;
* `Document.rounded` — what a document comes back as;
* `Document.ofNumber_toString` — the case of one integer;
* `Document.comes_back_rounded` — all documents, as values and as records.
-/

namespace RecordStore

namespace Document

mutual

/-- A document has no real numbers, and all its integers pass a test. -/
def Has (test : Int → Prop) : Document → Prop
  | .null => True
  | .bool _ => True
  | .integer i => test i
  | .real _ => False
  | .text _ => True
  | .list xs => AllHave test xs
  | .object ⟨es⟩ => EntriesHave test es

/-- The same of every document in a list. -/
def AllHave (test : Int → Prop) : List Document → Prop
  | [] => True
  | x :: xs => Has test x ∧ AllHave test xs

/-- The same of every entry of an object. -/
def EntriesHave (test : Int → Prop) : List (String × Document) → Prop
  | [] => True
  | (_, x) :: es => Has test x ∧ EntriesHave test es

end

/-- An integer has 64 bits, with a sign or without one. -/
def Is64Bit (i : Int) : Prop := Literal.int64Min ≤ i ∧ i ≤ Literal.uint64Max

/-- An integer has 64 bits with a sign. -/
def IsSigned64Bit (i : Int) : Prop := Literal.int64Min ≤ i ∧ i ≤ Literal.int64Max

instance (i : Int) : Decidable (Is64Bit i) := inferInstanceAs (Decidable (_ ∧ _))

instance (i : Int) : Decidable (IsSigned64Bit i) := inferInstanceAs (Decidable (_ ∧ _))

mutual

/-- What a document comes back as: an integer above 2^63 - 1 as the nearest real number. -/
def rounded : Document → Document
  | .null => .null
  | .bool b => .bool b
  | .integer i => if i ≤ Literal.int64Max then .integer i else .real (Binary64.ofInt i)
  | .real x => .real x
  | .text s => .text s
  | .list xs => .list (allRounded xs)
  | .object ⟨es⟩ => .object ⟨entriesRounded es⟩

/-- What the documents of a list come back as. -/
def allRounded : List Document → List Document
  | [] => []
  | x :: xs => rounded x :: allRounded xs

/-- What the entries of an object come back as. -/
def entriesRounded : List (String × Document) → List (String × Document)
  | [] => []
  | (n, x) :: es => (n, rounded x) :: entriesRounded es

end

/-- An integer of 64 bits is read back from its digits, as a real number if it is above 2^63 - 1. -/
theorem ofNumber_toString {i : Int} (h : Is64Bit i) :
    ofNumber (toString i) = rounded (.integer i) := by
  obtain ⟨hlow, hhigh⟩ := h
  rw [ofNumber, Literal.int64?_toString, rounded]
  by_cases hmax : i ≤ Literal.int64Max
  · rw [if_pos ⟨hlow, hmax⟩, if_pos hmax]
  · have hread : Literal.binary64? (toString i) = some (Binary64.ofInt i) := Value.toBinary64?_ofInt i
    have hfinite : (Binary64.ofInt i).isFinite := by
      refine Binary64.isFinite_ofInt ?_
      unfold Literal.int64Max at hmax
      unfold Literal.uint64Max at hhigh
      omega
    rw [if_neg (fun hrange => hmax hrange.2), if_neg hmax]
    simp only [hread, hfinite, if_true]

mutual

/-- A value is read as the document that it stands for, with its large integers rounded. -/
theorem ofValue_ofDocument : ∀ {d : Document}, Has Is64Bit d → ofValue (.ofDocument d) = rounded d
  | .null, _ => rfl
  | .bool _, _ => rfl
  | .integer _, h => ofNumber_toString h
  | .real _, h => h.elim
  | .text _, _ => rfl
  | .list _, h => congrArg Document.list (ofValues_ofDocuments h)
  | .object ⟨_⟩, h => congrArg (fun es => Document.object ⟨es⟩) (ofEntries_ofDocumentEntries h)

theorem ofValues_ofDocuments :
    ∀ {xs : List Document}, AllHave Is64Bit xs → ofValues (Value.ofDocuments xs) = allRounded xs
  | [], _ => rfl
  | _ :: _, h => congrArg₂ List.cons (ofValue_ofDocument h.1) (ofValues_ofDocuments h.2)

theorem ofEntries_ofDocumentEntries :
    ∀ {es : List (String × Document)}, EntriesHave Is64Bit es →
      ofEntries (Value.ofDocumentEntries es) = entriesRounded es
  | [], _ => rfl
  | (n, _) :: _, h =>
    congrArg₂ (fun x es => (n, x) :: es) (ofValue_ofDocument h.1) (ofEntries_ofDocumentEntries h.2)

end

mutual

/-- Rounding keeps a document exactly if all its integers have 64 bits with a sign. -/
theorem rounded_eq_self_iff :
    ∀ {d : Document}, Has Is64Bit d → (rounded d = d ↔ Has IsSigned64Bit d)
  | .null, _ => iff_of_true rfl trivial
  | .bool _, _ => iff_of_true rfl trivial
  | .integer i, h => by
    rw [rounded, Has, IsSigned64Bit]
    split
    case isTrue hmax => exact iff_of_true rfl ⟨h.1, hmax⟩
    case isFalse hmax => exact iff_of_false Document.noConfusion (fun hsigned => hmax hsigned.2)
  | .real _, h => h.elim
  | .text _, _ => iff_of_true rfl trivial
  | .list xs, h => by
    rw [rounded, Document.list.injEq, Has]
    exact allRounded_eq_self_iff h
  | .object ⟨es⟩, h => by
    rw [rounded, Document.object.injEq, Dict.mk.injEq, Has]
    exact entriesRounded_eq_self_iff h

theorem allRounded_eq_self_iff :
    ∀ {xs : List Document}, AllHave Is64Bit xs → (allRounded xs = xs ↔ AllHave IsSigned64Bit xs)
  | [], _ => iff_of_true rfl trivial
  | x :: xs, h => by
    rw [allRounded, List.cons.injEq, AllHave, rounded_eq_self_iff h.1, allRounded_eq_self_iff h.2]

theorem entriesRounded_eq_self_iff :
    ∀ {es : List (String × Document)}, EntriesHave Is64Bit es →
      (entriesRounded es = es ↔ EntriesHave IsSigned64Bit es)
  | [], _ => iff_of_true rfl trivial
  | (n, x) :: es, h => by
    rw [entriesRounded, List.cons.injEq, Prod.mk.injEq, EntriesHave, rounded_eq_self_iff h.1,
      entriesRounded_eq_self_iff h.2]
    simp only [true_and]

end

/-- **Documents come back with their large integers rounded.**  This holds of every nesting of lists and
objects, of values and of records; a document comes back as itself exactly if none of its integers is above
2^63 - 1. -/
theorem comes_back_rounded (d : Document) (h : Has Is64Bit d) :
    ofValue (.ofDocument d) = rounded d ∧
      (ofValue (.ofDocument d) = d ↔ Has IsSigned64Bit d) ∧
      ∀ es, d = .object es →
        ofItem (.ofDocument d) = rounded d ∧ (ofItem (.ofDocument d) = d ↔ Has IsSigned64Bit d) := by
  have hback := ofValue_ofDocument h
  have hself : ofValue (.ofDocument d) = d ↔ Has IsSigned64Bit d := by
    rw [hback]
    exact rounded_eq_self_iff h
  refine ⟨hback, hself, ?_⟩
  rintro ⟨es⟩ rfl
  -- a record is the value of an object without its wrapping
  have hrecord : ofItem (.ofDocument (.object ⟨es⟩)) = ofValue (.ofDocument (.object ⟨es⟩)) := rfl
  rw [hrecord]
  exact ⟨hback, hself⟩

/-- An object with the greatest integer inside a list. -/
def counters : Document :=
  .object ⟨[("counts", .list [.integer Literal.uint64Max, .null]), ("low", .integer Literal.int64Min)]⟩

/-- The greatest integer is rounded where it stands, and everything else is kept. -/
theorem comes_back_rounded_counters :
    Has Is64Bit counters ∧
      ofItem (.ofDocument counters)
        = .object ⟨[("counts", .list [.real (Binary64.ofInt Literal.uint64Max), .null]),
            ("low", .integer Literal.int64Min)]⟩ ∧
      ¬ Has IsSigned64Bit counters := by
  have hhigh : Is64Bit Literal.uint64Max := by decide
  have hlow : Is64Bit Literal.int64Min := by decide
  have hlarge : ¬ IsSigned64Bit Literal.uint64Max := by decide
  have hplain : Has Is64Bit counters := ⟨⟨hhigh, trivial, trivial⟩, hlow, trivial⟩
  obtain ⟨-, -, hrecord⟩ := comes_back_rounded counters hplain
  exact ⟨hplain, (hrecord _ rfl).1, fun hsigned => hlarge hsigned.1.1⟩

/-- A document need not come back as itself, as a value or as a record: the greatest integer of 64 bits
becomes a real number. -/
theorem not_comes_back :
    (¬ ∀ d : Document, Has Is64Bit d → ofValue (.ofDocument d) = d) ∧
      ¬ ∀ es : Dict Document, Has Is64Bit (.object es) → ofItem (.ofDocument (.object es)) = .object es := by
  have hmax : Is64Bit Literal.uint64Max := by decide
  have hlarge : ¬ IsSigned64Bit Literal.uint64Max := by decide
  constructor
  · intro h
    have hplain : Has Is64Bit (.integer Literal.uint64Max) := hmax
    have hback := h _ hplain
    rw [ofValue_ofDocument hplain, rounded_eq_self_iff hplain] at hback
    exact hlarge hback
  · intro h
    have hplain : Has Is64Bit (.object ⟨[("a", .integer Literal.uint64Max)]⟩) := ⟨hmax, trivial⟩
    have hback : ofValue (.ofDocument (.object ⟨[("a", .integer Literal.uint64Max)]⟩)) = _ := h _ hplain
    rw [ofValue_ofDocument hplain, rounded_eq_self_iff hplain] at hback
    exact hlarge hback.1

end Document

end RecordStore
