import RecordStore.Value.Basic

/-!
# Documents

A document is what records exchange with the world outside: texts, truth values, integers, real
numbers, lists and objects.  `Document.ofValue` and `Value.ofDocument` lead from one to the other, and
`Document.Reader` reads an application's own type out of a document.
-/

namespace RecordStore

/-- A document. -/
inductive Document where
  | null
  | bool (truth : Bool)
  | integer (i : Int)
  | real (x : Binary64)
  | text (s : String)
  | list (items : List Document)
  | object (entries : Dict Document)
deriving Inhabited

namespace Document

/-- A real number of a document always shows that it is one, by a point or by an exponent.  The
exponent is written for magnitudes below 10^-5 and from 10^16 on. -/
def numberStyle : NumberStyle := ⟨.even, ".0", some (-5, 15)⟩

/-- The document form of a number's text: an integer if it is spelled as one of 64 bits, else the
nearest real number, else the text itself. -/
def ofNumber (s : String) : Document :=
  match Literal.int64? s with
  | some i => .integer i
  | none =>
    match Literal.binary64? s with
    | some x => if x.isFinite then .real x else .text s
    | none => .text s

mutual

/-- The document form of a value; bytes become a list of integers. -/
def ofValue : Value → Document
  | .number s => ofNumber s
  | .string s => .text s
  | .bytes b => .list (b.map fun x => .integer x.toNat)
  | .bool b => .bool b
  | .null => .null
  | .list xs => .list (ofValues xs)
  | .map ⟨es⟩ => .object ⟨ofEntries es⟩

/-- The document forms of a list of values. -/
def ofValues : List Value → List Document
  | [] => []
  | x :: xs => ofValue x :: ofValues xs

/-- The document forms of the entries of a map. -/
def ofEntries : List (String × Value) → List (String × Document)
  | [] => []
  | (n, x) :: es => (n, ofValue x) :: ofEntries es

end

/-- The document form of a record. -/
def ofItem (item : Item) : Document := .object ⟨ofEntries item.entries⟩

end Document

mutual

/-- The value that a document stands for. -/
def Value.ofDocument : Document → Value
  | .null => .null
  | .bool b => .bool b
  | .integer i => .ofInt i
  | .real x => .number (Document.numberStyle.write x)
  | .text s => .string s
  | .list xs => .list (Value.ofDocuments xs)
  | .object ⟨es⟩ => .map ⟨Value.ofDocumentEntries es⟩

/-- The values that a list of documents stands for. -/
def Value.ofDocuments : List Document → List Value
  | [] => []
  | x :: xs => Value.ofDocument x :: Value.ofDocuments xs

/-- The values that the entries of an object stand for. -/
def Value.ofDocumentEntries : List (String × Document) → List (String × Value)
  | [] => []
  | (n, x) :: es => (n, Value.ofDocument x) :: Value.ofDocumentEntries es

end

/-- The record that an object stands for; any other document gives the empty record. -/
def Item.ofDocument : Document → Item
  | .object ⟨es⟩ => ⟨Value.ofDocumentEntries es⟩
  | _ => .empty

namespace Document

/-- Reads a value of some type out of a document, if the document has its form. -/
abbrev Reader (α : Type) := Document → Option α

/-- Reads a text. -/
def readText : Reader String
  | .text s => some s
  | _ => none

/-- Reads a 64-bit signed integer; a real number is none, even a whole one. -/
def readInt64 : Reader Int
  | .integer i => if Literal.int64Min ≤ i ∧ i ≤ Literal.int64Max then some i else none
  | _ => none

/-- Reads a field that an object has to have. -/
def readField {α : Type} (name : String) (read : Reader α) : Reader α
  | .object d => (d.get? name).bind read
  | _ => none

/-- Reads a field that an object may lack; a null counts as lacking. -/
def readOptionalField {α : Type} (name : String) (read : Reader α) : Reader (Option α)
  | .object d =>
    match d.get? name with
    | none | some .null => some none
    | some x => (read x).map some
  | _ => none

end Document

end RecordStore
