import RowFilter.Proofs.Evaluation.Basic
import RowFilter.Proofs.Predicate.WellFormed

/-!
# The complement of a predicate

The complement says of every row the opposite of what the predicate says, and nothing is known of
the one exactly where nothing is known of the other. So it is as good as the predicate below a
`NOT`.
-/

set_option autoImplicit false

namespace RowFilter.Interpretation

variable {V K : Type} (I : Interpretation V K)

/-! ## Leaves -/

/-- The complementary column test says the opposite, and it is as unknown as the test. -/
theorem test_negated (op : ColumnTest) (x : Option V) :
    I.test op.negated x = (I.test op x).not := by
  cases op with
  | isNull => cases x <;> rfl
  | notNull => cases x <;> rfl
  | isNaN =>
    cases x with
    | none => rfl
    | some v => exact (Truth.not_ofBool _).symm
  | notNaN =>
    cases x with
    | none => exact (Truth.not_not _).symm
    | some v =>
      show Truth.ofBool (I.isNaN v) = (Truth.ofBool !I.isNaN v).not
      rw [Truth.not_ofBool, Bool.not_not]

/-- The complementary start test says the opposite. -/
theorem starts_negated (stem : String) (op : StartTest) (v : V) :
    I.starts stem op.negated v = !I.starts stem op v := by
  cases op with
  | startsWith => rfl
  | notStartsWith => exact (Bool.not_not _).symm

variable [LinearOrder K]

/-- No member is equal to a value exactly if each of them differs from it. -/
theorem member_negated (values : LiteralSet) (op : Membership) (v : V) :
    I.member values op.negated v = !I.member values op v := by
  cases op with
  | inSet => simp [member, Membership.negated, List.not_any_eq_all_not]
  | notInSet => simp [member, Membership.negated, List.not_all_eq_any_not]

/-! ## Predicates -/

/-- The induction is on the predicate. A leaf has the complementary test, a negation is dropped
because two of them cancel out, and a chain follows De Morgan's laws. -/
theorem truth_negate_eq_not (row : Column → Option V) (p : Predicate) :
    I.truth row p.negate = (I.truth row p).not := by
  induction p with
  | const b => exact (Truth.not_ofBool b).symm
  | test op c => exact I.test_negated op (row c)
  | compare op c value =>
    simp only [Predicate.negate, truth, Truth.not_ofValue?, Comparison.holds_negated]
  | member op c values =>
    simp only [Predicate.negate, truth, Truth.not_ofValue?, ← I.member_negated]
  | starts op c stem =>
    simp only [Predicate.negate, truth, Truth.not_ofValue?, ← I.starts_negated]
  | not p _ => exact (Truth.not_not _).symm
  | chain op ps ih =>
    simp only [Predicate.negate, truth, truthAll_eq_map, Predicate.negateAll_eq_map,
      Connective.not_join, List.map_map]
    congr 1
    exact List.map_congr_left ih

/-- The complement of a predicate is its negation, whatever the values of the rows are: it has the
opposite truth value on every row, which is the value of the predicate below a `NOT`. -/
theorem truth_negate (row : Column → Option V) (p : Predicate) :
    I.truth row p.negate = (I.truth row p).not ∧
      I.truth row p.negate = I.truth row p.not :=
  ⟨I.truth_negate_eq_not row p, I.truth_negate_eq_not row p⟩

end RowFilter.Interpretation
