import RecordStore.Text.Quoted
import RecordStore.Value.Basic

/-!
# Values in messages

How a message shows a value: the letter or word of its type, then its content in parentheses.
-/

namespace RecordStore.Value

mutual

/-- The form of a value in messages. -/
def written : Value → String
  | .number s => "N(" ++ Text.quoted s ++ ")"
  | .string s => "S(" ++ Text.quoted s ++ ")"
  | .bytes b => "B(" ++ Text.quotedBytes b ++ ")"
  | .bool b => "Bool(" ++ (if b then "true" else "false") ++ ")"
  | .null => "Null"
  | .list xs => "L([" ++ ", ".intercalate (writtenList xs) ++ "])"
  | .map ⟨es⟩ => "M(\x7b" ++ ", ".intercalate (writtenEntries es) ++ "\x7d)"

/-- The forms of the members of a list. -/
def writtenList : List Value → List String
  | [] => []
  | x :: xs => written x :: writtenList xs

/-- The forms of the entries of a map: a quoted name, a colon and a value. -/
def writtenEntries : List (String × Value) → List String
  | [] => []
  | (n, x) :: es => (Text.quoted n ++ ": " ++ written x) :: writtenEntries es

end

end RecordStore.Value
