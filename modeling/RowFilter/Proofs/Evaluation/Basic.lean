import Mathlib.Order.Lattice
import RowFilter.Predicate.Basic

/-!
# Predicates on rows

A row has in each column a value or NULL, and a predicate says of it yes, no or that this is not
known. Nothing is known of how NULL compares, whether it is in a set or how it begins; the test for
NULL itself always has an answer. The connectives and the negation go on from there: a conjunction
is false once an operand is, a disjunction is true once an operand is, and negation leaves open what
is not known.

What the values are is left open. They have places in an order, in which the literals have places
too, and two tests that may be any at all.
-/

set_option autoImplicit false

namespace RowFilter

/-- What a predicate may say of a row. -/
inductive Truth where
  | no
  | unknown
  | yes
  deriving DecidableEq, Repr

namespace Truth

/-- What is known to hold or not to hold. -/
def ofBool : Bool → Truth
  | false => no
  | true => yes

/-- What a test says of a value; of NULL nothing is known. -/
def ofValue? {V : Type} (f : V → Bool) : Option V → Truth
  | none => unknown
  | some x => ofBool (f x)

/-- The truth value of a negation; what is unknown stays unknown. -/
def not : Truth → Truth
  | no => yes
  | unknown => unknown
  | yes => no

/-- False if one side is, true if both are. -/
def and : Truth → Truth → Truth
  | no, _ => no
  | _, no => no
  | yes, yes => yes
  | _, _ => unknown

/-- True if one side is, false if both are. -/
def or : Truth → Truth → Truth
  | yes, _ => yes
  | _, yes => yes
  | no, no => no
  | _, _ => unknown

/-- The negation of what is known is known. -/
theorem not_ofBool (b : Bool) : (ofBool b).not = ofBool !b := by
  cases b <;> rfl

/-- The negation of a test on a value that may be missing is the negated test on it. -/
theorem not_ofValue? {V : Type} (f : V → Bool) (x : Option V) :
    (ofValue? f x).not = ofValue? (fun v => !f v) x := by
  cases x with
  | none => rfl
  | some v => exact not_ofBool (f v)

/-- Two negations cancel out, also of the unknown. -/
theorem not_not (t : Truth) : t.not.not = t := by
  cases t <;> rfl

/-- De Morgan's law for a conjunction of two. -/
theorem not_and (s t : Truth) : (s.and t).not = s.not.or t.not := by
  cases s <;> cases t <;> rfl

/-- De Morgan's law for a disjunction of two. -/
theorem not_or (s t : Truth) : (s.or t).not = s.not.and t.not := by
  cases s <;> cases t <;> rfl

/-- What is known is the truth exactly if it holds. -/
theorem ofBool_eq_yes_iff {b : Bool} : ofBool b = yes ↔ b = true := by
  cases b <;> simp [ofBool]

end Truth

namespace Connective

/-- What a chain says, from what its operands say. -/
def join : Connective → List Truth → Truth
  | and, ts => ts.foldr Truth.and .yes
  | or, ts => ts.foldr Truth.or .no

/-- De Morgan's laws for any number of operands. -/
theorem not_join (op : Connective) (ts : List Truth) :
    (op.join ts).not = op.negated.join (ts.map Truth.not) := by
  induction ts with
  | nil => cases op <;> rfl
  | cons t ts ih =>
    cases op with
    | and => exact (Truth.not_and t _).trans (congrArg _ ih)
    | or => exact (Truth.not_or t _).trans (congrArg _ ih)

end Connective

/-- What values and literals mean to the tests. -/
structure Interpretation (V K : Type) where
  /-- The place of a value in the order. -/
  key : V → K
  /-- The place of a literal in the order. -/
  literal : Literal → K
  isNaN : V → Bool
  beginsWith : V → String → Bool
  /-- Whether NULL counts as NaN, which may be unknown. -/
  nullIsNaN : Truth

section

variable {V K : Type} [LinearOrder K]

/-- Two places are related as the comparison says. -/
def Comparison.holds : Comparison → K → K → Bool
  | equal, a, b => a = b
  | notEqual, a, b => a ≠ b
  | less, a, b => a < b
  | lessOrEqual, a, b => a ≤ b
  | greater, a, b => b < a
  | greaterOrEqual, a, b => b ≤ a

/-- A comparison that is turned round says the same of exchanged sides. -/
theorem Comparison.holds_flipped (op : Comparison) (a b : K) :
    op.flipped.holds a b = op.holds b a := by
  cases op <;> simp only [flipped, holds, eq_comm, ne_comm]

/-- The complementary comparison holds where the comparison does not. -/
theorem Comparison.holds_negated (op : Comparison) (a b : K) :
    op.negated.holds a b = !op.holds a b := by
  cases op <;> simp only [negated, holds, ← decide_not, not_lt, not_le, ne_eq, Decidable.not_not]

namespace Interpretation

variable (I : Interpretation V K)

/-- What a test says of a column. -/
def test : ColumnTest → Option V → Truth
  | .isNull, x => .ofBool x.isNone
  | .notNull, x => .ofBool x.isSome
  | .isNaN, none => I.nullIsNaN
  | .isNaN, some v => .ofBool (I.isNaN v)
  | .notNaN, none => I.nullIsNaN.not
  | .notNaN, some v => .ofBool !(I.isNaN v)

/-- The value equals some member of the set, or none of them. -/
def member (values : LiteralSet) : Membership → V → Bool
  | .inSet, v => values.members.any fun w => I.key v = I.literal w
  | .notInSet, v => values.members.all fun w => I.key v ≠ I.literal w

/-- The value begins with the stem, or does not. -/
def starts (stem : String) : StartTest → V → Bool
  | .startsWith, v => I.beginsWith v stem
  | .notStartsWith, v => !I.beginsWith v stem

mutual

/-- What a predicate says of a row. -/
def truth (row : Column → Option V) : Predicate → Truth
  | .const b => .ofBool b
  | .test op c => I.test op (row c)
  | .compare op c value => .ofValue? (fun v => op.holds (I.key v) (I.literal value)) (row c)
  | .member op c values => .ofValue? (I.member values op) (row c)
  | .starts op c stem => .ofValue? (I.starts stem op) (row c)
  | .not p => (truth row p).not
  | .chain op ps => op.join (truthAll row ps)

/-- What the predicates say of a row. -/
def truthAll (row : Column → Option V) : List Predicate → List Truth
  | [] => []
  | p :: ps => truth row p :: truthAll row ps

end

/-- The operands of a chain are evaluated one by one. -/
theorem truthAll_eq_map (row : Column → Option V) (ps : List Predicate) :
    I.truthAll row ps = ps.map (I.truth row) := by
  induction ps with
  | nil => rfl
  | cons p ps ih => rw [truthAll, ih, List.map_cons]

end Interpretation

end

end RowFilter
