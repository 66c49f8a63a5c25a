import RecordStore.Text.Quoted

/-!
# Tokens of expressions

The words of the expression dialect.  A list of tokens has no end mark: the end of the list is the end
of the text.
-/

namespace RecordStore

/-- A comparison of two operands. -/
inductive Comparison where
  | equal
  | notEqual
  | lessThan
  | lessOrEqual
  | greaterThan
  | greaterOrEqual
deriving DecidableEq

namespace Comparison

/-- The sign of a comparison in an expression. -/
def text : Comparison → String
  | .equal => "="
  | .notEqual => "<>"
  | .lessThan => "<"
  | .lessOrEqual => "<="
  | .greaterThan => ">"
  | .greaterOrEqual => ">="

/-- The name of a comparison in messages. -/
def written : Comparison → String
  | .equal => "Equal"
  | .notEqual => "NotEqual"
  | .lessThan => "LessThan"
  | .lessOrEqual => "LessOrEqual"
  | .greaterThan => "GreaterThan"
  | .greaterOrEqual => "GreaterOrEqual"

end Comparison

/-- A word or sign of an expression. -/
inductive Token where
  | comparison (op : Comparison)
  | and
  | or
  | not
  | between
  | set
  | plus
  | minus
  | identifier (name : String)
  /-- An alias, with its leading `#`. -/
  | name (label : String)
  /-- A placeholder of a value, with its leading `:`. -/
  | value (label : String)
  | leftParen
  | rightParen
  | comma
  | dot
deriving DecidableEq

namespace Token

/-- The form of a token in messages. -/
def written : Token → String
  | .comparison op => "Compare(" ++ op.written ++ ")"
  | .and => "And"
  | .or => "Or"
  | .not => "Not"
  | .between => "Between"
  | .set => "Set"
  | .plus => "Plus"
  | .minus => "Minus"
  | .identifier s => "Identifier(" ++ Text.quoted s ++ ")"
  | .name s => "NamePlaceholder(" ++ Text.quoted s ++ ")"
  | .value s => "ValuePlaceholder(" ++ Text.quoted s ++ ")"
  | .leftParen => "LeftParen"
  | .rightParen => "RightParen"
  | .comma => "Comma"
  | .dot => "Dot"

/-- The form in messages of what comes next: a token, or the end. -/
def writtenNext : Option Token → String
  | some t => t.written
  | none => "Eof"

end Token

end RecordStore
