import RowFilter.Parser.Basic

/-!
# Errors

What can go wrong when a filter is read or built, with the one-line message of each error. The
category tells a text that breaks the grammar from one that is well formed and means nothing.
-/

set_option autoImplicit false

namespace RowFilter

/-- The categories of errors. -/
inductive ErrorKind where
  /-- The text breaks the grammar. -/
  | grammar
  /-- The text keeps the grammar and describes no predicate. -/
  | meaning
  /-- The parts of a predicate do not fit together. -/
  | typing
  deriving DecidableEq, Repr

/-- The name of a category. -/
def ErrorKind.name : ErrorKind → String
  | .grammar => "SyntaxError"
  | .meaning => "SemanticError"
  | .typing => "TypeError"

/-- The category of a type error. -/
def TypeError.kind (_ : TypeError) : ErrorKind :=
  .typing

/-- Why a text is no filter. -/
inductive ParseError where
  /-- A token stands where another one was expected. -/
  | unexpectedToken (expected : Expected) (found : Token)
  /-- A piece of text is no token. -/
  | invalidToken (error : LexicalError) (position : Position)
  /-- Negations and parentheses are nested more deeply than allowed. -/
  | nestingTooDeep (limit : Nat) (position : Position)
  /-- The literals of a membership test make up no set. -/
  | invalidSet (cause : TypeError)
  /-- A pattern has a wildcard before its end. -/
  | invalidPattern (raw : String)
  deriving DecidableEq

/-- The place of an error as it ends a message. -/
def Position.note (p : Position) : String :=
  " (line " ++ Text.intText p.line ++ ", column " ++ Text.intText p.column ++ ")"

namespace ParseError

/-- The wording of a parse error. -/
def message : ParseError → String
  | unexpectedToken expected found =>
    "Expected " ++ expected.text ++ ", found " ++ found.describe ++ found.position.note
  | invalidToken error position => error.message ++ position.note
  | nestingTooDeep limit position =>
    "Expression nested deeper than " ++ Text.intText limit ++ " levels" ++ position.note
  | invalidSet cause => "Invalid IN list: " ++ cause.message
  | invalidPattern _ =>
    "LIKE expressions only supports wildcard, '%', at the end of a string"

/-- The category of a parse error. -/
def kind : ParseError → ErrorKind
  | unexpectedToken _ _ => .grammar
  | invalidToken _ _ => .grammar
  | nestingTooDeep _ _ => .grammar
  | invalidSet _ => .meaning
  | invalidPattern _ => .meaning

/-- The error that a fault is when the token is the next one to read. -/
def ofFault (limit : Nat) (token : Token) : Fault → ParseError
  | .unexpected expected => unexpectedToken expected token
  | .tooDeep => nestingTooDeep limit token.position
  | .invalidSet cause => invalidSet cause
  | .invalidPattern raw => invalidPattern raw

end ParseError

/-- Any error of the library. -/
inductive Error where
  | parse (error : ParseError)
  | type (error : TypeError)
  deriving DecidableEq

namespace Error

/-- The wording, with the activity that failed in front. -/
def message : Error → String
  | parse error => "Parse error: " ++ error.message
  | type error => "Type error: " ++ error.message

/-- The category of an error. -/
def kind : Error → ErrorKind
  | parse error => error.kind
  | type error => error.kind

end Error

end RowFilter
