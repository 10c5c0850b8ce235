import RowFilter.Predicate.Traversal

/-!
# Visitors

A visitor walks a predicate with a state of its own. It has a hook for predicates, one for columns
and one for literals. The hook for predicates decides whether the walk goes on below a predicate,
and what happens before and after; the hooks of a visitor are those that it was given, at every
depth. A hook that is not given leaves the state as it is, and the one for predicates walks on.
-/

set_option autoImplicit false

namespace RowFilter

/-- The hooks of a visitor whose state has the type `σ`. The hook for predicates is given the walk
of what lies in the predicate. -/
structure Visitor (σ : Type) where
  onPredicate : Predicate → (σ → σ) → σ → σ := fun _ walk => walk
  onColumn : Column → σ → σ := fun _ s => s
  onLiteral : Literal → σ → σ := fun _ s => s

namespace Visitor

variable {σ : Type}

mutual

/-- The walk of what lies in a predicate: the column and then the literals of a leaf, or the
predicates below from left to right. -/
def walk (v : Visitor σ) : Predicate → σ → σ
  | .const _ => id
  | .test _ column => v.onColumn column
  | .compare _ column value => fun s => v.onLiteral value (v.onColumn column s)
  | .member _ column values => fun s =>
    values.members.foldl (fun s value => v.onLiteral value s) (v.onColumn column s)
  | .starts _ column _ => v.onColumn column
  | .not operand => v.onPredicate operand (v.walk operand)
  | .chain _ operands => v.visitAll operands

/-- The visits of all the predicates, one after the other. -/
def visitAll (v : Visitor σ) : List Predicate → σ → σ
  | [] => id
  | p :: ps => fun s => v.visitAll ps (v.onPredicate p (v.walk p) s)

end

/-- The visit of a predicate. -/
def visit (v : Visitor σ) (p : Predicate) : σ → σ :=
  v.onPredicate p (v.walk p)

/-- A visitor goes through operands from left to right. -/
theorem visitAll_eq_foldl (v : Visitor σ) (ps : List Predicate) (s : σ) :
    v.visitAll ps s = ps.foldl (fun s p => v.visit p s) s := by
  induction ps generalizing s with
  | nil => rfl
  | cons p ps ih => exact ih _

/-- The visitor that does something at each predicate before and after the walk, which goes below
the chosen predicates. -/
def around (descend : Predicate → Bool) (enter leave : Predicate → σ → σ)
    (onColumn : Column → σ → σ) (onLiteral : Literal → σ → σ) : Visitor σ where
  onPredicate p walk s := leave p (if descend p then walk (enter p s) else enter p s)
  onColumn := onColumn
  onLiteral := onLiteral

end Visitor

/-- What is done at an event. -/
def Event.handle {σ : Type} (enter leave : Predicate → σ → σ) (onColumn : Column → σ → σ)
    (onLiteral : Literal → σ → σ) (s : σ) : Event → σ
  | .enter p => enter p s
  | .leave p => leave p s
  | .column c => onColumn c s
  | .literal v => onLiteral v s

end RowFilter
