/-!
# Operators

The tests that a predicate makes on a column, and the connectives that join predicates. Every family
is closed under logical negation, and comparisons can also be read from the right.
-/

set_option autoImplicit false

namespace RowFilter

/-- A test of a column on its own. -/
inductive ColumnTest where
  | isNull
  | notNull
  | isNaN
  | notNaN
  deriving DecidableEq, Repr

namespace ColumnTest

/-- The text that follows the column. -/
def text : ColumnTest → String
  | isNull => "IS NULL"
  | notNull => "IS NOT NULL"
  | isNaN => "IS NAN"
  | notNaN => "IS NOT NAN"

/-- The complementary test. -/
def negated : ColumnTest → ColumnTest
  | isNull => notNull
  | notNull => isNull
  | isNaN => notNaN
  | notNaN => isNaN

end ColumnTest

/-- A comparison of a column, on the left, with a literal. -/
inductive Comparison where
  | equal
  | notEqual
  | less
  | lessOrEqual
  | greater
  | greaterOrEqual
  deriving DecidableEq, Repr

namespace Comparison

/-- The sign between the two sides. -/
def text : Comparison → String
  | equal => "="
  | notEqual => "!="
  | less => "<"
  | lessOrEqual => "<="
  | greater => ">"
  | greaterOrEqual => ">="

/-- The comparison that says the same with the two sides exchanged. -/
def flipped : Comparison → Comparison
  | equal => equal
  | notEqual => notEqual
  | less => greater
  | lessOrEqual => greaterOrEqual
  | greater => less
  | greaterOrEqual => lessOrEqual

/-- The complementary comparison. -/
def negated : Comparison → Comparison
  | equal => notEqual
  | notEqual => equal
  | less => greaterOrEqual
  | lessOrEqual => greater
  | greater => lessOrEqual
  | greaterOrEqual => less

end Comparison

/-- A test of a column against a set of literals. -/
inductive Membership where
  | inSet
  | notInSet
  deriving DecidableEq, Repr

namespace Membership

/-- The text between the column and the set. -/
def text : Membership → String
  | inSet => "IN"
  | notInSet => "NOT IN"

/-- The complementary test. -/
def negated : Membership → Membership
  | inSet => notInSet
  | notInSet => inSet

end Membership

/-- A test of how the text in a column begins. -/
inductive StartTest where
  | startsWith
  | notStartsWith
  deriving DecidableEq, Repr

namespace StartTest

/-- The text between the column and the pattern. -/
def text : StartTest → String
  | startsWith => "LIKE"
  | notStartsWith => "NOT LIKE"

/-- The complementary test. -/
def negated : StartTest → StartTest
  | startsWith => notStartsWith
  | notStartsWith => startsWith

end StartTest

/-- What joins the operands of a chain. -/
inductive Connective where
  | and
  | or
  deriving DecidableEq, Repr

namespace Connective

/-- The keyword between two operands. -/
def text : Connective → String
  | and => "AND"
  | or => "OR"

/-- The connective that De Morgan's laws put in its place. -/
def negated : Connective → Connective
  | and => or
  | or => and

end Connective

end RowFilter
