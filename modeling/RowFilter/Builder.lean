import RowFilter.Session

/-!
# Building predicates step by step

Predicates can be built bottom-up on a stack: a step puts a leaf on the stack, or replaces
predicates on top by one that is made of them. A step that fails leaves the stack as it was.
-/

set_option autoImplicit false

namespace RowFilter.Builder

/-- One step of building. -/
inductive Step where
  /-- Puts a constant on the stack. -/
  | const (value : Bool)
  /-- Puts a column test on the stack. -/
  | test (op : ColumnTest) (column : Column)
  /-- Puts a comparison on the stack. -/
  | compare (op : Comparison) (column : Column) (value : Literal)
  /-- Puts a membership test on the stack, if the literals make up a set. -/
  | member (op : Membership) (column : Column) (values : List Literal)
  /-- Puts a start test on the stack. -/
  | starts (op : StartTest) (column : Column) (stem : String)
  /-- Puts the predicate of a filter on the stack. -/
  | parse (config : Config) (text : String)
  /-- Replaces the top by its negation. -/
  | not
  /-- Replaces the top by its complement. -/
  | negate
  /-- Replaces so many predicates on top, the deepest first, by their chain. -/
  | chain (op : Connective) (count : Nat)
  /-- Puts a copy of the top on the stack. -/
  | duplicate
  /-- Exchanges the two on top. -/
  | swap
  /-- Takes the top away. -/
  | drop

/-- Why a step fails. -/
inductive StepError where
  /-- The stack holds fewer predicates than the step needs. -/
  | underflow
  | type (error : TypeError)
  | parse (error : ParseError)

/-- The predicates built so far, the last one first. -/
abbrev Stack := List Predicate

/-- The stack after a step. -/
def step : Step → Stack → Except StepError Stack
  | .const value, stack => .ok (.const value :: stack)
  | .test op column, stack => .ok (.test op column :: stack)
  | .compare op column value, stack => .ok (.compare op column value :: stack)
  | .member op column values, stack =>
    match Predicate.ofMembers op column values with
    | .ok p => .ok (p :: stack)
    | .error e => .error (.type e)
  | .starts op column stem, stack => .ok (.starts op column stem :: stack)
  | .parse config text, stack =>
    match parseWith config text with
    | .ok p => .ok (p :: stack)
    | .error e => .error (.parse e)
  | .not, p :: stack => .ok (.not p :: stack)
  | .negate, p :: stack => .ok (p.negate :: stack)
  | .chain op count, stack =>
    if stack.length < count then .error .underflow
    else
      match Predicate.ofOperands op (stack.take count).reverse with
      | .ok p => .ok (p :: stack.drop count)
      | .error e => .error (.type e)
  | .duplicate, p :: stack => .ok (p :: p :: stack)
  | .swap, p :: q :: stack => .ok (q :: p :: stack)
  | .drop, _ :: stack => .ok stack
  | _, _ => .error .underflow

/-- Compares the two predicates on top, up to the scales of their decimals. -/
def sameOnTop : Stack → Except StepError Bool
  | p :: q :: _ => .ok (q.same p)
  | _ => .error .underflow

/-- The stack after all the steps; those that fail change nothing. -/
def run (steps : List Step) (stack : Stack) : Stack :=
  steps.foldl (fun s st => (step st s).toOption.getD s) stack

end RowFilter.Builder
