import Mathlib.Algebra.Order.BigOperators.Group.List
import RowFilter.Proofs.Predicate.Nodes
import RowFilter.Proofs.RoundTrip.Reparse

/-!
# What complements keep

The complement of a predicate has the columns and the literals of the predicate in the same places.
Its tree is never larger, since all that happens to it is that a negation is dropped. So taking the
complement twice gives the predicate back exactly if there is no negation in it: where there is one
the result is smaller than the predicate. For the same reason the printed complement nests no more
deeply than the printed predicate, although `AND` and `OR` are exchanged in it, and can be read
wherever that one can.
-/

set_option autoImplicit false

namespace RowFilter

/-! ## Operators -/

/-- The complement of the complement is the column test itself. -/
theorem ColumnTest.negated_negated (op : ColumnTest) : op.negated.negated = op := by
  cases op <;> rfl

/-- The complement of the complement is the comparison itself. -/
theorem Comparison.negated_negated (op : Comparison) : op.negated.negated = op := by
  cases op <;> rfl

/-- The complement of the complement is the membership test itself. -/
theorem Membership.negated_negated (op : Membership) : op.negated.negated = op := by
  cases op <;> rfl

/-- The complement of the complement is the start test itself. -/
theorem StartTest.negated_negated (op : StartTest) : op.negated.negated = op := by
  cases op <;> rfl

/-- The connectives are exchanged by De Morgan's laws. -/
theorem Connective.negated_negated (op : Connective) : op.negated.negated = op := by
  cases op <;> rfl

namespace Predicate

/-! ## Parts -/

/-- What is listed leaf by leaf does not change if it does not in a leaf. -/
theorem LeafWise.negate {α : Type} {f : Predicate → List α} (hf : LeafWise f)
    (hleaf : ∀ p, p.isLeaf = true → f p.negate = f p) (p : Predicate) : f p.negate = f p := by
  induction p with
  | not p _ => exact (hf.not p).symm
  | chain op ps ih =>
    rw [Predicate.negate, negateAll_eq_map, hf.chain, hf.chain, List.flatMap_map]
    exact List.flatMap_congr ih
  | _ => exact hleaf _ rfl

/-- The complement has the same columns in the same order. -/
theorem columns_negate (p : Predicate) : p.negate.columns = p.columns := by
  refine leafWise_columns.negate (fun q hq => ?_) p
  cases q with
  | not _ | chain _ _ => contradiction
  | _ => rfl

/-- The complement has the same literals in the same order. -/
theorem literals_negate (p : Predicate) : p.negate.literals = p.literals := by
  refine leafWise_literals.negate (fun q hq => ?_) p
  cases q with
  | not _ | chain _ _ => contradiction
  | _ => rfl

/-- The complement has the same stems in the same order. -/
theorem stems_negate (p : Predicate) : p.negate.stems = p.stems := by
  refine leafWise_stems.negate (fun q hq => ?_) p
  cases q with
  | not _ | chain _ _ => contradiction
  | _ => rfl

/-- The complement has no line feed if there is none in the predicate. -/
theorem oneLine_negate {p : Predicate} (h : p.OneLine) : p.negate.OneLine := by
  rw [OneLine, texts, columns_negate, literals_negate, stems_negate]
  exact h

/-- The decimals of the complement have places if those of the predicate have. -/
theorem scaled_negate {p : Predicate} (h : p.Scaled) : p.negate.Scaled := by
  rw [Scaled, literals_negate]
  exact h

/-! ## Size -/

/-- The nodes of operands are counted one by one. -/
theorem length_nodesAll (ps : List Predicate) :
    (nodesAll ps).length = (ps.map fun p => p.nodes.length).sum := by
  rw [nodesAll_eq_flatMap, List.length_flatMap]

/-- The complement has no more nodes, and fewer where a negation is taken off. -/
theorem length_nodes_negate_le (p : Predicate) : p.negate.nodes.length ≤ p.nodes.length := by
  induction p with
  | not p ih => exact Nat.le_succ _
  | chain op ps ih =>
    show (nodesAll (negateAll ps)).length + 1 ≤ (nodesAll ps).length + 1
    rw [length_nodesAll, length_nodesAll, negateAll_eq_map, List.map_map]
    exact Nat.succ_le_succ (List.sum_le_sum ih)
  | _ => exact Nat.le_refl _

/-- Operands that are the same have equally many nodes, if each of them has. -/
theorem length_nodesAll_of_sameAll {ps qs : List Predicate}
    (h : ∀ p ∈ ps, ∀ q, p.same q = true → p.nodes.length = q.nodes.length)
    (hsame : sameAll ps qs = true) : (nodesAll ps).length = (nodesAll qs).length := by
  induction ps generalizing qs with
  | nil =>
    cases qs with
    | nil => rfl
    | cons q qs => contradiction
  | cons p ps ih =>
    cases qs with
    | nil => contradiction
    | cons q qs =>
      obtain ⟨hp, hps⟩ := List.forall_mem_cons.mp h
      rw [sameAll, Bool.and_eq_true] at hsame
      rw [nodesAll, nodesAll, List.length_append, List.length_append, hp q hsame.1,
        ih hps hsame.2]

/-- Predicates that are equal up to scales have equally many nodes. -/
theorem length_nodes_of_same {p q : Predicate} (h : p.same q = true) :
    p.nodes.length = q.nodes.length := by
  induction p generalizing q with
  | not p ih =>
    cases q with
    | not q => exact congrArg Nat.succ (ih h)
    | _ => contradiction
  | chain op ps ih =>
    cases q with
    | chain op' qs =>
      rw [same, Bool.and_eq_true] at h
      exact congrArg Nat.succ (length_nodesAll_of_sameAll (fun p hp q => ih p hp) h.2)
    | _ => contradiction
  | _ =>
    cases q with
    | not q => contradiction
    | chain op' qs => contradiction
    | _ => rfl

/-! ## Complements of complements -/

/-- No node of the predicate is a negation. -/
def NotFree (p : Predicate) : Prop :=
  ∀ q ∈ p.nodes, q.isNot = false

/-- Whether there is no negation in a predicate can be decided by going through its nodes. -/
instance (p : Predicate) : Decidable p.NotFree :=
  inferInstanceAs (Decidable (∀ q ∈ p.nodes, q.isNot = false))

/-- There is no negation in a chain exactly if there is none in its operands. -/
theorem notFree_chain {op : Connective} {ps : List Predicate} :
    (chain op ps).NotFree ↔ ∀ p ∈ ps, p.NotFree := by
  show (∀ q ∈ chain op ps :: nodesAll ps, _) ↔ _
  rw [List.forall_mem_cons, nodesAll_eq_flatMap, List.forall_mem_flatMap]
  exact and_iff_right rfl

/-- There is no negation in a leaf. -/
theorem notFree_of_isLeaf {p : Predicate} (h : p.isLeaf = true) : p.NotFree := by
  rw [NotFree, nodes_of_isLeaf h, List.forall_mem_singleton]
  rw [isLeaf, Bool.and_eq_true, Bool.not_eq_true'] at h
  exact h.1

/-- Without negations the complement of the complement is the predicate itself. -/
theorem negate_negate {p : Predicate} (h : p.NotFree) : p.negate.negate = p := by
  induction p with
  | const b => rw [negate, negate, Bool.not_not]
  | test op c => rw [negate, negate, op.negated_negated]
  | compare op c v => rw [negate, negate, op.negated_negated]
  | member op c s => rw [negate, negate, op.negated_negated]
  | starts op c stem => rw [negate, negate, op.negated_negated]
  | not p _ => exact absurd (h p.not List.mem_cons_self) Bool.noConfusion
  | chain op ps ih =>
    have hps : ps.map (negate ∘ negate) = ps := by
      calc ps.map (negate ∘ negate) = ps.map id :=
            List.map_congr_left fun p hp => ih p hp (notFree_chain.mp h p hp)
        _ = ps := List.map_id ps
    rw [negate, negate, op.negated_negated, negateAll_eq_map, negateAll_eq_map, List.map_map, hps]

/-- If all results are the same as their operands, each of them is. -/
theorem same_of_sameAll_map {f : Predicate → Predicate} {ps : List Predicate}
    (h : sameAll (ps.map f) ps = true) : ∀ p ∈ ps, (f p).same p = true := by
  induction ps with
  | nil => exact List.forall_mem_nil _
  | cons p ps ih =>
    rw [List.map_cons, sameAll, Bool.and_eq_true] at h
    exact List.forall_mem_cons.mpr ⟨h.1, ih h.2⟩

/-- The complement of the complement of a negation is the complement of its operand, which has fewer
nodes than the negation. -/
theorem notFree_of_same_negate_negate {p : Predicate} (h : p.negate.negate.same p = true) :
    p.NotFree := by
  induction p with
  | not p _ =>
    have hlength : p.negate.nodes.length = p.nodes.length + 1 := length_nodes_of_same h
    have hle := p.length_nodes_negate_le
    omega
  | chain op ps ih =>
    rw [negate, negate, negateAll_eq_map, negateAll_eq_map, List.map_map, same,
      Bool.and_eq_true] at h
    exact notFree_chain.mpr fun p hp => ih p hp (same_of_sameAll_map h.2 p hp)
  | _ => exact notFree_of_isLeaf rfl

/-- The complement of the complement is the same predicate only if there is no negation in it. -/
theorem same_negate_negate_iff {p : Predicate} : p.negate.negate.same p = true ↔ p.NotFree := by
  constructor
  · exact notFree_of_same_negate_negate
  · intro h
    rw [negate_negate h]
    exact p.same_refl

/-! ## Nesting -/

/-- Around a negation that is dropped the printer writes one level less; a chain stays a chain. -/
theorem nesting_negate_le (p : Predicate) :
    p.negate.nesting ≤ p.nesting ∧
      groupedNesting p.negate p.negate.nesting ≤ groupedNesting p p.nesting := by
  induction p with
  | not p ih =>
    have hle := le_groupedNesting p p.nesting
    show p.nesting ≤ groupedNesting p p.nesting + 1 ∧
      groupedNesting p p.nesting ≤ groupedNesting p p.nesting + 1
    exact ⟨Nat.le_succ_of_le hle, Nat.le_succ _⟩
  | chain op ps ih =>
    have hnesting : nestingAll (negateAll ps) ≤ nestingAll ps := by
      have hps := nestingAll_le_iff.mp (Nat.le_refl (nestingAll ps))
      rw [nestingAll_le_iff, negateAll_eq_map, List.forall_mem_map]
      exact fun p hp => Nat.le_trans (ih p hp).2 (hps p hp)
    exact ⟨hnesting, Nat.succ_le_succ hnesting⟩
  | _ => exact ⟨Nat.le_refl _, Nat.le_refl _⟩

/-- The complement keeps the columns and the literals in their order, and taken twice it gives the
predicate back exactly if there is no negation in it. If a well-formed predicate is read back from
its printed form, with some limit of nesting, then so is its complement, with the same limit. -/
theorem negate_keeps (p : Predicate) :
    (p.negate.negate = p ↔ p.NotFree) ∧ (p.negate.negate.same p = true ↔ p.NotFree) ∧
    p.negate.columns = p.columns ∧ p.negate.visitedLiterals = p.visitedLiterals ∧
    ∀ limit, p.WellFormed → (∃ q, parseWith ⟨limit⟩ p.render = .ok q ∧ q.same p = true) →
      parseWith ⟨limit⟩ p.negate.render = .ok p.negate := by
  refine ⟨⟨?_, negate_negate⟩, same_negate_negate_iff, columns_negate p, ?_, ?_⟩
  · intro h
    rw [← same_negate_negate_iff, h]
    exact p.same_refl
  · rw [visitedLiterals_eq_literals, visitedLiterals_eq_literals, literals_negate]
  · rintro limit hp ⟨q, hq, hsame⟩
    obtain ⟨hline, hscaled, hnesting⟩ := conditions_of_parseWith_render hp hq hsame
    exact parseWith_render (wellFormed_negate hp) (oneLine_negate hline) (scaled_negate hscaled)
      (Nat.le_trans p.nesting_negate_le.1 hnesting)

/-- `NOT (a = 1 OR NOT b LIKE 'x%') AND c IS NULL` nests three levels deep, and its complement drops
a negation for good. -/
theorem negate_keeps_three_levels :
    let p : Predicate := .chain .and
      [.not (.chain .or [.compare .equal ⟨"a"⟩ (.integer 1), .not (.starts .startsWith ⟨"b"⟩ "x")]),
        .test .isNull ⟨"c"⟩]
    p.WellFormed ∧ (∃ q, parseWith ⟨3⟩ p.render = .ok q ∧ q.same p = true) ∧
      parseWith ⟨3⟩ p.negate.render = .ok p.negate ∧ p.negate.negate ≠ p := by
  intro p
  have hp : p.WellFormed := by
    simp [p, wellFormed_chain]
  have hread : ∃ q, parseWith ⟨3⟩ p.render = .ok q ∧ q.same p = true :=
    (exists_parseWith_render_iff hp ⟨3⟩).mpr
      ⟨by unfold OneLine; decide, scaled_iff.mpr (by decide), by decide⟩
  exact ⟨hp, hread, (negate_keeps p).2.2.2.2 3 hp hread, mt (negate_keeps p).1.mp (by decide)⟩

end Predicate

end RowFilter
