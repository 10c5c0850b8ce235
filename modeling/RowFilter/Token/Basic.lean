import RowFilter.Keyword
import RowFilter.Literal.Basic

/-!
# Tokens

A token is a piece of filter text together with its kind and the position of its first character.
What cannot be a token of the language is a token of kind `invalid`, so that every text has tokens
and the error can be reported with its position.
-/

set_option autoImplicit false

namespace RowFilter

/-- A place in a text; lines and columns count from one. -/
structure Position where
  line : Nat
  column : Nat
  deriving DecidableEq, Repr, Inhabited

namespace Position

/-- The place of the first character of a text. -/
def start : Position :=
  ⟨1, 1⟩

/-- The place after a character: a line feed begins a new line. -/
def next (p : Position) (c : Char) : Position :=
  if c = '\n' then ⟨p.line + 1, 1⟩ else ⟨p.line, p.column + 1⟩

/-- The place after some characters. -/
def advance (p : Position) (cs : List Char) : Position :=
  cs.foldl next p

/-- The position after two runs of characters is reached in two steps. -/
theorem advance_append (p : Position) (cs ds : List Char) :
    p.advance (cs ++ ds) = (p.advance cs).advance ds :=
  List.foldl_append

end Position

/-- Why a piece of text is no token of the language. -/
inductive LexicalError where
  /-- A single quote is not closed on its line. -/
  | unterminatedString
  /-- A double quote is not closed on its line. -/
  | unterminatedName
  /-- An integer is out of range. -/
  | integerRange (text : String)
  /-- A character begins no token. -/
  | strayCharacter (c : Char)
  deriving DecidableEq, Repr

/-- The wording of a lexical error. -/
def LexicalError.message : LexicalError → String
  | .unterminatedString => "Unterminated string literal"
  | .unterminatedName => "Unterminated quoted identifier"
  | .integerRange text => "Invalid integer literal: " ++ text
  | .strayCharacter c => "Unexpected character: " ++ String.ofList [c]

/-- The kinds of tokens, with what the token says. -/
inductive Kind where
  | keyword (word : Keyword)
  | comparison (op : Comparison)
  /-- Single-quoted text with its escapes in place. -/
  | string (raw : String)
  | integer (value : Int64)
  | decimal (value : Decimal)
  /-- A word that is no keyword. -/
  | word (name : String)
  /-- A name in double quotes, taken as it stands. -/
  | quotedName (name : String)
  | comma
  | dot
  | leftParen
  | rightParen
  /-- The end of the text. -/
  | eof
  | invalid (error : LexicalError)
  deriving DecidableEq

namespace Kind

/-- The kind is a comparison sign. -/
def isComparison : Kind → Bool
  | comparison _ => true
  | _ => false

/-- The lexical error of an invalid token. -/
def error? : Kind → Option LexicalError
  | invalid error => some error
  | _ => none

/-- The usual spelling of a token of this kind. -/
def text : Kind → String
  | keyword k => k.text
  | comparison op => op.text
  | string raw => "'" ++ raw ++ "'"
  | integer n => Text.intText n.toInt
  | decimal d => d.plain
  | word name => name
  | quotedName name => "\"" ++ name ++ "\""
  | comma => ","
  | dot => "."
  | leftParen => "("
  | rightParen => ")"
  | eof => "end of text"
  | invalid error => "Error: " ++ error.message

end Kind

/-- A piece of text with its kind and place. -/
structure Token where
  kind : Kind
  text : String
  position : Position
  deriving DecidableEq

/-- How a message names a token: by its text, in quotes unless it has its own. -/
def Token.describe (t : Token) : String :=
  match t.kind with
  | .eof => "end of text"
  | .string _ => t.text
  | _ => "'" ++ t.text ++ "'"

end RowFilter
