import RowFilter.Predicate.Basic

/-!
# Traversals

A traversal walks a predicate once, from left to right. It reports when it enters and leaves each
predicate, and between the two the column and the literals of a leaf, or what lies below. The caller
chooses the predicates below which the walk goes on.
-/

set_option autoImplicit false

namespace RowFilter

/-- What a traversal reports. -/
inductive Event where
  | enter (predicate : Predicate)
  | leave (predicate : Predicate)
  | column (column : Column)
  | literal (value : Literal)

/-- The column of a column event. -/
def Event.column? : Event → Option Column
  | .column c => some c
  | _ => none

/-- The literal of a literal event. -/
def Event.literal? : Event → Option Literal
  | .literal v => some v
  | _ => none

namespace Predicate

/-- The events of one predicate around those of its parts, which are left out unless the walk goes
below it. -/
def bracket (descend : Predicate → Bool) (p : Predicate) (parts : List Event) : List Event :=
  [.enter p] ++ (if descend p then parts else []) ++ [.leave p]

mutual

/-- The events of a traversal that goes below the chosen predicates. -/
def events (descend : Predicate → Bool) : Predicate → List Event
  | const value => bracket descend (const value) []
  | test op column => bracket descend (test op column) [.column column]
  | compare op column value =>
    bracket descend (compare op column value) [.column column, .literal value]
  | member op column values =>
    bracket descend (member op column values) (.column column :: values.members.map .literal)
  | starts op column stem => bracket descend (starts op column stem) [.column column]
  | not operand => bracket descend (not operand) (events descend operand)
  | chain op operands => bracket descend (chain op operands) (eventsAll descend operands)

/-- The events of all the predicates, one after the other. -/
def eventsAll (descend : Predicate → Bool) : List Predicate → List Event
  | [] => []
  | p :: ps => events descend p ++ eventsAll descend ps

end

/-- The events of the complete traversal. -/
def allEvents (p : Predicate) : List Event :=
  p.events fun _ => true

/-- The events of the traversal that does not go below negations. -/
def eventsOutsideNot (p : Predicate) : List Event :=
  p.events fun q => !q.isNot

/-- The columns that the complete traversal reports. -/
def visitedColumns (p : Predicate) : List Column :=
  p.allEvents.filterMap Event.column?

/-- The literals that the complete traversal reports. -/
def visitedLiterals (p : Predicate) : List Literal :=
  p.allEvents.filterMap Event.literal?

/-- The events of operands stand one after the other. -/
theorem eventsAll_eq_flatMap (descend : Predicate → Bool) (ps : List Predicate) :
    eventsAll descend ps = ps.flatMap (events descend) := by
  induction ps with
  | nil => rfl
  | cons p ps ih => simp [eventsAll, ih]

end Predicate

end RowFilter
