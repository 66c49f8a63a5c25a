import RecordStore.Expression.Token
import RecordStore.Fields

/-!
# Errors

Every way in which an operation can fail, as its cause.  `Error.kind` sorts the causes, and a kind has
a stable code, a heading that opens its messages, and says whether another attempt may help.
-/

namespace RecordStore

/-- What is wrong with an expression, in its text or on a record. -/
inductive ExpressionFault where
  | unexpectedCharacter (c : Char)
  | emptyPlaceholder (sigil : Char)
  | expected (wanted : Token) (next : Option Token)
  | trailing (next : Token)
  | expectedPath (next : Option Token)
  | expectedComparison (next : Option Token)
  | unknownFunction (name : String)
  | undefinedName (segment : String)
  | undefinedValue (placeholder : String)
  | emptyPath
  | missingAttribute (path : List String)
  | notNumbers
  | parentNotMap (path : List String)
deriving DecidableEq

namespace ExpressionFault

/-- The segments of a path with dots between them. -/
def dotted (path : List String) : String := ".".intercalate path

/-- What the message says. -/
def detail : ExpressionFault → String
  | .unexpectedCharacter c => "unexpected character '" ++ c.toString ++ "'"
  | .emptyPlaceholder sigil => "empty placeholder after '" ++ sigil.toString ++ "'"
  | .expected wanted next => "expected " ++ wanted.written ++ ", got " ++ Token.writtenNext next
  | .trailing next => "unexpected trailing token " ++ next.written
  | .expectedPath next => "expected attribute path, got " ++ Token.writtenNext next
  | .expectedComparison next => "expected comparison operator, got " ++ Token.writtenNext next
  | .unknownFunction name => "unknown function '" ++ name ++ "'"
  | .undefinedName segment => "undefined attribute name '" ++ segment ++ "'"
  | .undefinedValue placeholder => "undefined value placeholder '" ++ placeholder ++ "'"
  | .emptyPath => "empty attribute path"
  | .missingAttribute path => "update refers to missing attribute '" ++ dotted path ++ "'"
  | .notNumbers => "arithmetic requires numbers"
  | .parentNotMap path => "parent of '" ++ dotted path ++ "' is not a map"

end ExpressionFault

/-- What is wrong with a configuration. -/
inductive ConfigFault where
  | blankTableName
  | alphanumericDelimiter
deriving DecidableEq

/-- What the message says. -/
def ConfigFault.detail : ConfigFault → String
  | .blankTableName => "table_name must not be empty"
  | .alphanumericDelimiter => "key_delimiter must not be alphanumeric"

/-- What is wrong with a request. -/
inductive ArgumentFault where
  | unassignable (field : String) (descriptor : Descriptor)
  | missingKeyAttribute (name table : String)
  | unknownIndex (table index : String)
  | noUpdateExpression
  | noKeyCondition
  | keyChanged
  | config (fault : ConfigFault)
deriving DecidableEq

/-- What the message says. -/
def ArgumentFault.detail : ArgumentFault → String
  | .unassignable field descriptor =>
    "field '" ++ field ++ "' cannot be assigned with " ++ descriptor.written
  | .missingKeyAttribute name table =>
    "missing key attribute '" ++ name ++ "' for table '" ++ table ++ "'"
  | .unknownIndex table index => "table '" ++ table ++ "' has no index '" ++ index ++ "'"
  | .noUpdateExpression => "update request has no update expression"
  | .noKeyCondition => "query requires a key condition"
  | .keyChanged => "update must not change key attributes"
  | .config fault => fault.detail

/-- A sort of failure. -/
inductive ErrorKind where
  | invalidExpression
  | invalidArgument
  | conditionFailed
  | tableNotFound
  | malformedEntity
  | serialization
  | store
  | internal
deriving DecidableEq

namespace ErrorKind

/-- The stable code of a kind. -/
def code : ErrorKind → String
  | .invalidExpression => "INVALID_EXPRESSION"
  | .invalidArgument => "INVALID_ARGUMENT"
  | .conditionFailed => "CONDITIONAL_CHECK_FAILED"
  | .tableNotFound => "TABLE_NOT_FOUND"
  | .malformedEntity => "MALFORMED_ENTITY"
  | .serialization => "SERIALIZATION_ERROR"
  | .store => "STORE_ERROR"
  | .internal => "INTERNAL_ERROR"

/-- What opens a message; a failure of the store speaks for itself. -/
def heading : ErrorKind → String
  | .invalidExpression => "Invalid expression: "
  | .invalidArgument => "Invalid argument: "
  | .conditionFailed => "Conditional check failed: "
  | .tableNotFound => "Table not found: "
  | .malformedEntity => "Malformed entity: "
  | .serialization => "Serialization error: "
  | .store => ""
  | .internal => "Internal error: "

/-- Whether another attempt may help, as the caller of a failing store has to decide. -/
def retryable : ErrorKind → Bool
  | .store => true
  | _ => false

/-- A message of a kind. -/
def message (kind : ErrorKind) (detail : String) : String := kind.heading ++ detail

end ErrorKind

/-- A failure, by its cause. -/
inductive Error where
  | expression (fault : ExpressionFault)
  | argument (fault : ArgumentFault)
  /-- The guard of an update did not hold. -/
  | conditionFailed (condition : String)
  | tableNotFound (table : String)
  /-- A record lacks a key attribute, or has one that is no text. -/
  | malformedEntity (name : String)
  /-- A record does not have the form of an application's type. -/
  | undecodable
  /-- A store reports a failure of its own. -/
  | store (report : String)
  /-- A read in several pages met no last page within a number of fetches. -/
  | endlessPages (fetches : Nat)
deriving DecidableEq

namespace Error

/-- The sort of a failure. -/
def kind : Error → ErrorKind
  | .expression _ => .invalidExpression
  | .argument _ => .invalidArgument
  | .conditionFailed _ => .conditionFailed
  | .tableNotFound _ => .tableNotFound
  | .malformedEntity _ => .malformedEntity
  | .undecodable => .serialization
  | .store _ => .store
  | .endlessPages _ => .internal

/-- What the message says after its heading. -/
def detail : Error → String
  | .expression fault => fault.detail
  | .argument fault => fault.detail
  | .conditionFailed condition => "condition '" ++ condition ++ "' not met"
  | .tableNotFound table => table
  | .malformedEntity name => "missing string attribute '" ++ name ++ "'"
  | .undecodable => "the record does not have the requested form"
  | .store report => report
  | .endlessPages fetches => "no last page within " ++ toString fetches ++ " fetches"

/-- The message of a failure. -/
def message (e : Error) : String := e.kind.message e.detail

/-- The stable code of a failure. -/
def code (e : Error) : String := e.kind.code

end Error

end RecordStore
