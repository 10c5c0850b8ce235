import RowFilter.Predicate.Basic
import RowFilter.Proofs.Literal.Set

/-!
# Well-formed predicates

In a well-formed predicate every chain has two operands or more and every set of literals is valid,
at whatever depth they stand. The checked constructors yield well-formed predicates from well-formed
operands, and so does the complement, which builds its chains without a check: De Morgan's laws keep
the number of operands.
-/

set_option autoImplicit false

namespace RowFilter.Predicate

/-! ## Induction -/

/-- Induction on predicates: a chain has what is proved of all its operands. -/
@[induction_eliminator]
theorem inductOn {P : Predicate → Prop} (const : ∀ b, P (.const b))
    (test : ∀ op column, P (.test op column))
    (compare : ∀ op column value, P (.compare op column value))
    (member : ∀ op column values, P (.member op column values))
    (starts : ∀ op column stem, P (.starts op column stem))
    (not : ∀ p, P p → P (.not p))
    (chain : ∀ op ps, (∀ p ∈ ps, P p) → P (.chain op ps)) (p : Predicate) : P p := by
  refine @Predicate.rec P (fun ps => ∀ p ∈ ps, P p) const test compare member starts not chain
    ?_ ?_ p
  · intro p hp
    contradiction
  · intro p ps hp hps
    exact List.forall_mem_cons.mpr ⟨hp, hps⟩

/-! ## Well-formedness -/

mutual

/-- Every chain has two operands or more and every set is valid, at every depth. -/
def WellFormed : Predicate → Prop
  | const _ => True
  | test _ _ => True
  | compare _ _ _ => True
  | member _ _ values => values.Valid
  | starts _ _ _ => True
  | not operand => WellFormed operand
  | chain _ operands => 2 ≤ operands.length ∧ WellFormedAll operands

/-- All the predicates are well formed. -/
def WellFormedAll : List Predicate → Prop
  | [] => True
  | p :: ps => WellFormed p ∧ WellFormedAll ps

end

/-- A constant is well formed. -/
@[simp] theorem wellFormed_const (b : Bool) : (const b).WellFormed := trivial

/-- A column test is well formed. -/
@[simp] theorem wellFormed_test (op : ColumnTest) (c : Column) : (test op c).WellFormed := trivial

/-- A comparison is well formed. -/
@[simp] theorem wellFormed_compare (op : Comparison) (c : Column) (v : Literal) :
    (compare op c v).WellFormed := trivial

/-- A start test is well formed. -/
@[simp] theorem wellFormed_starts (op : StartTest) (c : Column) (stem : String) :
    (starts op c stem).WellFormed := trivial

/-- A membership test is well formed exactly if its set is valid. -/
@[simp] theorem wellFormed_member {op : Membership} {c : Column} {s : LiteralSet} :
    (member op c s).WellFormed ↔ s.Valid := Iff.rfl

/-- A negation is well formed exactly if its operand is. -/
@[simp] theorem wellFormed_not {p : Predicate} : p.not.WellFormed ↔ p.WellFormed := Iff.rfl

/-- Operands are well formed exactly if each of them is. -/
theorem wellFormedAll_iff {ps : List Predicate} : WellFormedAll ps ↔ ∀ p ∈ ps, p.WellFormed := by
  induction ps with
  | nil => simp [WellFormedAll]
  | cons p ps ih => simp [WellFormedAll, ih]

/-- A chain is well formed exactly if it has two operands or more and these are well formed. -/
theorem wellFormed_chain {op : Connective} {ps : List Predicate} :
    (chain op ps).WellFormed ↔ 2 ≤ ps.length ∧ ∀ p ∈ ps, p.WellFormed := by
  rw [← wellFormedAll_iff]
  exact Iff.rfl

/-- The operands of a well-formed chain are a first one and others, all of them well formed. -/
theorem WellFormed.exists_cons {op : Connective} {ps : List Predicate}
    (h : (chain op ps).WellFormed) : ∃ q qs, ps = q :: qs ∧ ∀ r ∈ q :: qs, r.WellFormed := by
  obtain ⟨hlength, hps⟩ := wellFormed_chain.mp h
  obtain ⟨q, qs, rfl⟩ := List.exists_cons_of_length_pos (Nat.lt_of_lt_of_le Nat.zero_lt_two hlength)
  exact ⟨q, qs, rfl, hps⟩

/-! ## Constructors -/

/-- A membership test is built exactly on the sets of literals. -/
theorem ofMembers_eq_ok_iff {op : Membership} {c : Column} {vs : List Literal} {p : Predicate} :
    ofMembers op c vs = .ok p ↔ ∃ s, LiteralSet.ofList vs = .ok s ∧ p = member op c s := by
  rw [ofMembers]
  cases LiteralSet.ofList vs with
  | error e => simp [Except.map]
  | ok s => simp [Except.map, eq_comm]

/-- A chain is built exactly of two operands or more. -/
theorem ofOperands_eq_ok_iff {op : Connective} {ps : List Predicate} {p : Predicate} :
    ofOperands op ps = .ok p ↔ 2 ≤ ps.length ∧ p = chain op ps := by
  rw [ofOperands]
  split
  · rename_i h
    simp only [reduceCtorEq, false_iff, not_and]
    omega
  · rename_i h
    simp only [Except.ok.injEq]
    constructor
    · rintro rfl
      exact ⟨by omega, rfl⟩
    · rintro ⟨-, rfl⟩
      rfl

/-- A membership test that is made of literals is well formed. -/
theorem wellFormed_of_ofMembers {op : Membership} {c : Column} {vs : List Literal} {p : Predicate}
    (h : ofMembers op c vs = .ok p) : p.WellFormed := by
  obtain ⟨s, hs, rfl⟩ := ofMembers_eq_ok_iff.mp h
  exact LiteralSet.valid_of_ofList hs

/-- A chain that is made of well-formed operands is well formed. -/
theorem wellFormed_of_ofOperands {op : Connective} {ps : List Predicate} {p : Predicate}
    (hps : ∀ q ∈ ps, q.WellFormed) (h : ofOperands op ps = .ok p) : p.WellFormed := by
  obtain ⟨hlength, rfl⟩ := ofOperands_eq_ok_iff.mp h
  exact wellFormed_chain.mpr ⟨hlength, hps⟩

/-! ## Complements -/

/-- The complement of a well-formed predicate is well formed. -/
theorem wellFormed_negate {p : Predicate} (h : p.WellFormed) : p.negate.WellFormed := by
  induction p with
  | const b => exact wellFormed_const _
  | test op c => exact wellFormed_test _ _
  | compare op c v => exact wellFormed_compare _ _ _
  | member op c s => exact h
  | starts op c stem => exact wellFormed_starts _ _ _
  | not p ih => exact h
  | chain op ps ih =>
    obtain ⟨hlength, hps⟩ := wellFormed_chain.mp h
    rw [negate, negateAll_eq_map, wellFormed_chain, List.length_map, List.forall_mem_map]
    refine ⟨hlength, ?_⟩
    intro p hp
    exact ih p hp (hps p hp)

end RowFilter.Predicate
