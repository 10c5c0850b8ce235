import RowFilter.Decimal.Printer
import RowFilter.Text.Written

/-!
# Literals

The values that a filter compares columns with. Literals of different types are never equal; the
types come in the order boolean, integer, decimal, string, and literals of one type are ordered by
value.
-/

set_option autoImplicit false

namespace RowFilter

/-- The types of literals. -/
inductive LiteralType where
  | boolean
  | integer
  | decimal
  | string
  deriving DecidableEq, Repr

namespace LiteralType

/-- The name used in messages. -/
def name : LiteralType → String
  | boolean => "boolean"
  | integer => "integer"
  | decimal => "decimal"
  | string => "string"

/-- The place of the type in the order of literals. -/
def rank : LiteralType → Nat
  | boolean => 0
  | integer => 1
  | decimal => 2
  | string => 3

/-- Literals of the two types may stand in one set; no type is widened to another. -/
def isCompatibleWith (a b : LiteralType) : Bool :=
  a = b

end LiteralType

/-- A typed value. -/
inductive Literal where
  | boolean (value : Bool)
  | integer (value : Int64)
  | decimal (value : Decimal)
  | string (value : String)
  deriving DecidableEq

namespace Literal

/-- The type of a literal. -/
def type : Literal → LiteralType
  | boolean _ => .boolean
  | integer _ => .integer
  | decimal _ => .decimal
  | string _ => .string

/-- The text of a string literal. -/
def string? : Literal → Option String
  | string s => some s
  | _ => none

/-- By type first, then by value: `false` before `true`, decimals regardless of scale, strings by
code points. -/
instance : Ord Literal where
  compare
    | boolean a, boolean b => compare a b
    | integer a, integer b => compare a.toInt b.toInt
    | decimal a, decimal b => compare a b
    | string a, string b => compare a b
    | a, b => compare a.type.rank b.type.rank

/-- The literals have the same type and value; decimals may differ in scale. -/
def same (a b : Literal) : Bool :=
  compare a b == .eq

/-- The literal as it is written in a filter. -/
def render : Literal → String
  | boolean true => "true"
  | boolean false => "false"
  | integer n => Text.intText n.toInt
  | decimal d => d.plain
  | string s => Text.quote s

end Literal

end RowFilter
