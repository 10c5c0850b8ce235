import RowFilter.Column
import RowFilter.Literal.Set

/-!
# Predicates

A predicate says which rows of a table to keep. Its leaves are constants and tests of one column; a
negation has one operand and a chain joins its operands, in the order in which they were written, by
one connective. A chain is built from two operands or more, and a membership test from a checked
set.
-/

set_option autoImplicit false

namespace RowFilter

/-- A condition on the columns of a row. -/
inductive Predicate where
  /-- Always true or always false. -/
  | const (value : Bool)
  /-- A test of a column on its own. -/
  | test (op : ColumnTest) (column : Column)
  /-- A column compared with a literal. -/
  | compare (op : Comparison) (column : Column) (value : Literal)
  /-- A column looked up in a set of literals. -/
  | member (op : Membership) (column : Column) (values : LiteralSet)
  /-- A column whose text begins with the stem, or does not. -/
  | starts (op : StartTest) (column : Column) (stem : String)
  /-- The negation of a predicate. -/
  | not (operand : Predicate)
  /-- Predicates joined by a connective. -/
  | chain (op : Connective) (operands : List Predicate)

namespace Predicate

/-- The predicate joins others by a connective. -/
def isChain : Predicate → Bool
  | chain _ _ => true
  | _ => false

/-- The predicate is a negation. -/
def isNot : Predicate → Bool
  | not _ => true
  | _ => false

/-- The predicate has no predicates below it. -/
def isLeaf (p : Predicate) : Bool :=
  !p.isNot && !p.isChain

/-- The column that a leaf tests. -/
def column? : Predicate → Option Column
  | test _ column => some column
  | compare _ column _ => some column
  | member _ column _ => some column
  | starts _ column _ => some column
  | _ => none

/-- A membership test, if the literals make up a set. -/
def ofMembers (op : Membership) (column : Column) (values : List Literal) :
    Except TypeError Predicate :=
  (LiteralSet.ofList values).map (member op column)

/-- A chain of two operands or more. -/
def ofOperands (op : Connective) (operands : List Predicate) : Except TypeError Predicate :=
  if operands.length < 2 then .error (.tooFewOperands op operands.length)
  else .ok (chain op operands)

mutual

/-- The logical complement: leaves take the complementary test, a negation is dropped, and chains
follow De Morgan's laws. -/
def negate : Predicate → Predicate
  | const value => const (!value)
  | test op column => test op.negated column
  | compare op column value => compare op.negated column value
  | member op column values => member op.negated column values
  | starts op column stem => starts op.negated column stem
  | not operand => operand
  | chain op operands => chain op.negated (negateAll operands)

/-- The complements of all the predicates. -/
def negateAll : List Predicate → List Predicate
  | [] => []
  | p :: ps => negate p :: negateAll ps

end

mutual

/-- The columns of the leaves from left to right, each as often as it occurs. -/
def columns : Predicate → List Column
  | not operand => columns operand
  | chain _ operands => columnsAll operands
  | p => p.column?.toList

/-- The columns of all the predicates, one after the other. -/
def columnsAll : List Predicate → List Column
  | [] => []
  | p :: ps => columns p ++ columnsAll ps

end

mutual

/-- The predicates are equal up to the scales of their decimals. -/
def same : Predicate → Predicate → Bool
  | const a, const b => a = b
  | test op column, test op' column' => op = op' && column = column'
  | compare op column value, compare op' column' value' =>
    op = op' && column = column' && value.same value'
  | member op column values, member op' column' values' =>
    op = op' && column = column' && values.same values'
  | starts op column stem, starts op' column' stem' => op = op' && column = column' && stem = stem'
  | not p, not q => same p q
  | chain op ps, chain op' qs => op = op' && sameAll ps qs
  | _, _ => false

/-- The lists of predicates agree member by member. -/
def sameAll : List Predicate → List Predicate → Bool
  | [], [] => true
  | p :: ps, q :: qs => same p q && sameAll ps qs
  | _, _ => false

end

/-- The complements of operands are taken one by one. -/
theorem negateAll_eq_map (ps : List Predicate) : negateAll ps = ps.map negate := by
  induction ps with
  | nil => rfl
  | cons p ps ih => simp [negateAll, ih]

/-- The columns of operands stand one after the other. -/
theorem columnsAll_eq_flatMap (ps : List Predicate) : columnsAll ps = ps.flatMap columns := by
  induction ps with
  | nil => rfl
  | cons p ps ih => simp [columnsAll, ih]

end Predicate

end RowFilter
