import RowFilter.Predicate.Basic

/-!
# Predicates as text

A predicate is written with as few parentheses as the grammar allows: only a chain below a negation
or below another chain is put in parentheses.
-/

set_option autoImplicit false

namespace RowFilter.Predicate

/-- The text, in parentheses if the predicate is a chain. -/
def grouped (p : Predicate) (text : String) : String :=
  if p.isChain then "(" ++ text ++ ")" else text

/-- A pattern for texts that begin with the stem: the stem and a wildcard, in single quotes. -/
def stemPattern (stem : String) : String :=
  String.ofList (['\''] ++ Text.escape true stem.toList ++ ['%', '\''])

mutual

/-- The predicate as it is written in a filter. -/
def render : Predicate → String
  | const true => "TRUE"
  | const false => "FALSE"
  | test op column => column.render ++ " " ++ op.text
  | compare op column value => column.render ++ " " ++ op.text ++ " " ++ value.render
  | member op column values => column.render ++ " " ++ op.text ++ " " ++ values.render
  | starts op column stem => column.render ++ " " ++ op.text ++ " " ++ stemPattern stem
  | not operand => "NOT " ++ grouped operand (render operand)
  | chain op operands => Text.join (" " ++ op.text ++ " ") (renderOperands operands)

/-- The operands of a chain as they are written. -/
def renderOperands : List Predicate → List String
  | [] => []
  | p :: ps => grouped p (render p) :: renderOperands ps

end

/-- Operands are printed one by one, each of them grouped as its own form demands. -/
theorem renderOperands_eq_map (ps : List Predicate) :
    renderOperands ps = ps.map fun p => grouped p p.render := by
  induction ps with
  | nil => rfl
  | cons p ps ih => simp [renderOperands, ih]

end RowFilter.Predicate
