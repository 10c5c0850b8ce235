import RowFilter.Literal.Basic
import RowFilter.Operator

/-!
# Type errors

The ways in which the parts of a predicate do not fit together, found when it is built.
-/

set_option autoImplicit false

namespace RowFilter

/-- Why a predicate cannot be built from its parts. -/
inductive TypeError where
  /-- A set needs a literal. -/
  | emptySet
  /-- The literals of a set have different types. -/
  | mixedTypes (expected found : LiteralType)
  /-- A chain needs two operands. -/
  | tooFewOperands (op : Connective) (count : Nat)
  deriving DecidableEq, Repr

/-- The wording of a type error. -/
def TypeError.message : TypeError → String
  | .emptySet => "IN/NOT IN requires at least one literal"
  | .mixedTypes expected found =>
    "Literals must share one type: expected " ++ expected.name ++ ", found " ++ found.name
  | .tooFewOperands op count =>
    op.text ++ " requires at least two operands, got " ++ Text.intText count

end RowFilter
