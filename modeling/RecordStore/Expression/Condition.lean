import RecordStore.Expression.Operand

/-!
# Conditions

A condition says what has to hold of a record.  `Condition.text` writes one as an expression, with
parentheses where the reader would otherwise group differently: `NOT` binds tighter than `AND`, `AND`
tighter than `OR`, and both group to the left.
-/

namespace RecordStore

/-- What has to hold of a record. -/
inductive Condition where
  | compare (op : Comparison) (left right : Operand)
  | between (subject low high : Operand)
  | and (left right : Condition)
  | or (left right : Condition)
  | not (inner : Condition)
  /-- The attribute is there. -/
  | present (path : Path)
  /-- The attribute is not there. -/
  | absent (path : Path)
  | beginsWith (subject beginning : Operand)
deriving DecidableEq

namespace Condition

/-- A text between parentheses. -/
def grouped (text : String) : String := "(" ++ text ++ ")"

/-- Whether a condition is a conjunction. -/
def isAnd : Condition → Bool
  | .and .. => true
  | _ => false

/-- A condition as an expression. -/
def text : Condition → String
  | .compare op left right => left.text ++ " " ++ op.text ++ " " ++ right.text
  | .between subject low high => subject.text ++ " BETWEEN " ++ low.text ++ " AND " ++ high.text
  | .and left right =>
    left.text ++ " AND " ++ (if right.isAnd then grouped right.text else right.text)
  | .or left right => grouped (left.text ++ " OR " ++ right.text)
  | .not inner => "NOT " ++ (if inner.isAnd then grouped inner.text else inner.text)
  | .present path => "attribute_exists" ++ grouped path.text
  | .absent path => "attribute_not_exists" ++ grouped path.text
  | .beginsWith subject beginning =>
    "begins_with" ++ grouped (subject.text ++ ", " ++ beginning.text)

end Condition

end RecordStore
