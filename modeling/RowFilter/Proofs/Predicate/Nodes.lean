import Mathlib.Data.List.Basic
import RowFilter.Predicate.Traversal
import RowFilter.Proofs.Predicate.Parts

/-!
# The nodes of a predicate

All the predicates in a predicate, each in front of those below it, and among them the leaves. The
columns and the literals of a predicate are those of its leaves, from left to right, and these are
what the complete traversal reports.
-/

set_option autoImplicit false

namespace RowFilter.Predicate

mutual

/-- The predicate and all those below it: each one in front of what is below it, and from left to
right. -/
def nodes : Predicate → List Predicate
  | not p => not p :: nodes p
  | chain op ps => chain op ps :: nodesAll ps
  | p => [p]

/-- The nodes of all the predicates, one after the other. -/
def nodesAll : List Predicate → List Predicate
  | [] => []
  | p :: ps => nodes p ++ nodesAll ps

end

/-- The nodes of operands stand one after the other. -/
theorem nodesAll_eq_flatMap (ps : List Predicate) : nodesAll ps = ps.flatMap nodes := by
  induction ps with
  | nil => rfl
  | cons p ps ih => simp [nodesAll, ih]

/-- The leaves from left to right. -/
def leaves (p : Predicate) : List Predicate :=
  p.nodes.filter isLeaf

/-- The literals that a leaf compares its column with. -/
def leafLiterals : Predicate → List Literal
  | compare _ _ value => [value]
  | member _ _ values => values.members
  | _ => []

/-- A negation has the leaves of its operand. -/
theorem leaves_not (p : Predicate) : p.not.leaves = p.leaves := rfl

/-- A chain has the leaves of its operands, one after the other. -/
theorem leaves_chain (op : Connective) (ps : List Predicate) :
    (chain op ps).leaves = ps.flatMap leaves := by
  show (nodesAll ps).filter isLeaf = _
  rw [nodesAll_eq_flatMap, List.filter_flatMap]
  rfl

/-- A leaf is its only node. -/
theorem nodes_of_isLeaf {p : Predicate} (h : p.isLeaf = true) : p.nodes = [p] := by
  cases p with
  | not p => contradiction
  | chain op ps => contradiction
  | _ => rfl

/-- A leaf is its only leaf. -/
theorem leaves_of_isLeaf {p : Predicate} (h : p.isLeaf = true) : p.leaves = [p] := by
  rw [leaves, nodes_of_isLeaf h, List.filter_cons_of_pos h, List.filter_nil]

/-! ## What leaves hold -/

/-- The lists do not change under a negation, and a chain has those of its operands, one after the
other. -/
structure LeafWise {α : Type} (f : Predicate → List α) : Prop where
  not : ∀ p, f p.not = f p
  chain : ∀ op ps, f (chain op ps) = ps.flatMap f

/-- Columns are listed leaf by leaf. -/
theorem leafWise_columns : LeafWise columns where
  not _ := rfl
  chain _ ps := columnsAll_eq_flatMap ps

/-- Literals are listed leaf by leaf. -/
theorem leafWise_literals : LeafWise literals where
  not _ := rfl
  chain _ ps := literalsAll_eq_flatMap ps

/-- Stems are listed leaf by leaf. -/
theorem leafWise_stems : LeafWise stems where
  not _ := rfl
  chain _ ps := stemsAll_eq_flatMap ps

/-- Such a list is put together from those of the leaves. -/
theorem LeafWise.eq_leaves {α : Type} {f : Predicate → List α} (hf : LeafWise f) (p : Predicate) :
    f p = p.leaves.flatMap f := by
  have hleaf {q : Predicate} (hq : q.isLeaf = true) : f q = q.leaves.flatMap f := by
    rw [leaves_of_isLeaf hq, List.flatMap_singleton]
  induction p with
  | not p ih => rw [hf.not, leaves_not, ← ih]
  | chain op ps ih =>
    rw [hf.chain, leaves_chain, List.flatMap_assoc]
    exact List.flatMap_congr ih
  | _ => exact hleaf rfl

/-- The leaves of a predicate are leaves. -/
theorem isLeaf_of_mem_leaves {p q : Predicate} (h : q ∈ p.leaves) : q.isLeaf = true :=
  (List.mem_filter.mp h).2

/-- The columns of a predicate are those of its leaves. -/
theorem columns_eq_leaves (p : Predicate) : p.columns = p.leaves.filterMap column? := by
  rw [leafWise_columns.eq_leaves, List.filterMap_eq_flatMap_toList]
  refine List.flatMap_congr fun q hq => ?_
  have hleaf := isLeaf_of_mem_leaves hq
  cases q with
  | not _ | chain _ _ => contradiction
  | _ => rfl

/-- The literals of a predicate are those of its leaves. -/
theorem literals_eq_leaves (p : Predicate) : p.literals = p.leaves.flatMap leafLiterals := by
  rw [leafWise_literals.eq_leaves]
  refine List.flatMap_congr fun q hq => ?_
  have hleaf := isLeaf_of_mem_leaves hq
  cases q with
  | not _ | chain _ _ => contradiction
  | _ => rfl

/-! ## What the traversal reports -/

/-- What the traversal reports of a leaf: its column, then its literals. -/
def parts (p : Predicate) : List Event :=
  p.column?.toList.map .column ++ p.leafLiterals.map .literal

/-- A leaf is entered, its parts are reported, and it is left. -/
theorem allEvents_of_isLeaf {p : Predicate} (h : p.isLeaf = true) :
    p.allEvents = .enter p :: (p.parts ++ [.leave p]) := by
  cases p with
  | not p => contradiction
  | chain op ps => contradiction
  | _ => rfl

/-- A negation is entered and left around its operand. -/
theorem allEvents_not (p : Predicate) :
    p.not.allEvents = .enter p.not :: (p.allEvents ++ [.leave p.not]) := rfl

/-- A chain is entered and left around its operands. -/
theorem allEvents_chain (op : Connective) (ps : List Predicate) :
    (chain op ps).allEvents =
      .enter (chain op ps) :: (ps.flatMap allEvents ++ [.leave (chain op ps)]) := by
  show bracket (fun _ => true) (chain op ps) (eventsAll (fun _ => true) ps) = _
  rw [eventsAll_eq_flatMap]
  rfl

/-- But for entering and leaving the traversal reports the parts of the leaves. -/
theorem filterMap_allEvents {α : Type} {f : Event → Option α} (henter : ∀ q, f (.enter q) = none)
    (hleave : ∀ q, f (.leave q) = none) (p : Predicate) :
    p.allEvents.filterMap f = p.leaves.flatMap fun q => q.parts.filterMap f := by
  have hinside (q : Predicate) (es : List Event) :
      (.enter q :: (es ++ [.leave q])).filterMap f = es.filterMap f := by
    simp [henter, hleave]
  have hf : LeafWise fun q => q.allEvents.filterMap f := by
    constructor
    · intro q
      rw [allEvents_not, hinside]
    · intro op ps
      rw [allEvents_chain, hinside, List.filterMap_flatMap]
  rw [hf.eq_leaves p]
  refine List.flatMap_congr fun q hq => ?_
  rw [allEvents_of_isLeaf (isLeaf_of_mem_leaves hq), hinside]

/-- The traversal reports the columns of the predicate in their order. -/
theorem visitedColumns_eq_columns (p : Predicate) : p.visitedColumns = p.columns := by
  have hparts (q : Predicate) : q.parts.filterMap Event.column? = q.column?.toList := by
    cases hcolumn : q.column? <;> simp [parts, hcolumn, Event.column?]
  rw [visitedColumns, filterMap_allEvents (fun _ => rfl) (fun _ => rfl), columns_eq_leaves,
    List.filterMap_eq_flatMap_toList]
  exact List.flatMap_congr fun q _ => hparts q

/-- The traversal reports the literals of the predicate in their order. -/
theorem visitedLiterals_eq_literals (p : Predicate) : p.visitedLiterals = p.literals := by
  have hparts (q : Predicate) : q.parts.filterMap Event.literal? = q.leafLiterals := by
    have hliterals : (q.leafLiterals.map Event.literal).filterMap Event.literal? =
        q.leafLiterals := by
      rw [List.filterMap_map]
      exact List.filterMap_some
    rw [parts, List.filterMap_append, hliterals]
    cases q.column? <;> rfl
  rw [visitedLiterals, filterMap_allEvents (fun _ => rfl) (fun _ => rfl), literals_eq_leaves]
  exact List.flatMap_congr fun q _ => hparts q

end RowFilter.Predicate
