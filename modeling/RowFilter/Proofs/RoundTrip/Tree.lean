import Mathlib.Data.List.Forall2
import RowFilter.Proofs.Grammar.Phrase
import RowFilter.Proofs.RoundTrip.Leaf

/-!
# The tree of a predicate

A predicate is printed along a tree of the grammar: a negation is a negation, a chain below another
predicate is a group, and each operand of an `OR` stands alone in its `AND`. The depth of the tree
is the nesting of the printed predicate, and the printed predicate spells the tree if it is legible.
-/

set_option autoImplicit false

namespace RowFilter

/-! ## Trees of chains -/

namespace Grammar

/-- An operand as an operand of a chain. -/
def Phrase.single : (op : Connective) → Phrase .operand → Phrase (.below op)
  | .and, t => t
  | .or, t => .chain t .done

/-- A chain as a whole filter. -/
def Phrase.whole : (op : Connective) → Phrase (.chain op) → Phrase (.chain .or)
  | .or, t => t
  | .and, t => .chain t .done

/-- The repetition of operands in a chain. -/
def Rest.ofList (op : Connective) : List (Phrase .operand) → Rest op
  | [] => .done
  | t :: ts => .next (.single op t) (ofList op ts)

/-- The filter that is a chain of operands. -/
def Phrase.ofOperands (op : Connective) (first : Phrase .operand) (more : List (Phrase .operand)) :
    Phrase (.chain .or) :=
  .whole op (.chain (.single op first) (.ofList op more))

/-- The filter that is one operand. -/
def Phrase.alone (t : Phrase .operand) : Phrase (.chain .or) :=
  .chain (.single .or t) .done

section Chain

variable (op : Connective) (t : Phrase .operand) (ts : List (Phrase .operand))

/-- As an operand of a chain a phrase keeps its tokens. -/
@[simp] theorem Phrase.kinds_single : (single op t).kinds = t.kinds := by
  cases op with
  | and => rfl
  | or => exact List.append_nil _

/-- As an operand of a chain a phrase keeps its depth. -/
@[simp] theorem Phrase.depth_single : (single op t).depth = t.depth := by
  cases op with
  | and => rfl
  | or => exact Nat.max_zero _

/-- A chain of one operand stands for what the operand stands for. -/
theorem Phrase.meaning_chain_done {op : Connective} (t : Phrase (.below op)) :
    (Phrase.chain t .done).meaning = t.meaning := by
  rw [meaning, Rest.meaning]
  cases t.meaning <;> rfl

/-- As an operand of a chain a phrase keeps its meaning. -/
@[simp] theorem Phrase.meaning_single : (single op t).meaning = t.meaning := by
  cases op with
  | and => rfl
  | or => exact @meaning_chain_done .and t

/-- As a whole filter a phrase keeps its tokens. -/
@[simp] theorem Phrase.kinds_alone : t.alone.kinds = t.kinds := by
  rw [alone, kinds, kinds_single, Rest.kinds, List.append_nil]

/-- As a whole filter a phrase keeps its depth. -/
@[simp] theorem Phrase.depth_alone : t.alone.depth = t.depth := by
  rw [alone, depth, depth_single, Rest.depth, Nat.max_zero]

/-- As a whole filter a phrase keeps its meaning. -/
@[simp] theorem Phrase.meaning_alone : t.alone.meaning = t.meaning := by
  rw [alone, meaning_chain_done, meaning_single]

/-- As a whole filter a chain keeps its tokens. -/
@[simp] theorem Phrase.kinds_whole (t : Phrase (.chain op)) : (whole op t).kinds = t.kinds := by
  cases op with
  | and => exact List.append_nil _
  | or => rfl

/-- As a whole filter a chain keeps its depth. -/
@[simp] theorem Phrase.depth_whole (t : Phrase (.chain op)) : (whole op t).depth = t.depth := by
  cases op with
  | and => exact Nat.max_zero _
  | or => rfl

/-- As a whole filter a chain keeps its meaning. -/
@[simp] theorem Phrase.meaning_whole (t : Phrase (.chain op)) :
    (whole op t).meaning = t.meaning := by
  cases op with
  | and => exact @meaning_chain_done .or t
  | or => rfl

/-- A repetition stands for the predicates that its operands stand for. -/
theorem Rest.meaning_ofList_eq_ok_iff {ps : List Predicate} :
    (ofList op ts).meaning = .ok ps ↔ List.Forall₂ (fun t p => t.meaning = .ok p) ts ps := by
  induction ts generalizing ps with
  | nil =>
    rw [List.forall₂_nil_left_iff]
    show Except.ok [] = Except.ok ps ↔ _
    rw [Except.ok.injEq, eq_comm]
  | cons t ts ih =>
    rw [List.forall₂_cons_left_iff, ofList, meaning, bind_eq_ok, Phrase.meaning_single]
    constructor
    · rintro ⟨p, hp, h⟩
      obtain ⟨qs, hqs, h⟩ := bind_eq_ok.mp h
      cases h
      exact ⟨p, qs, hp, ih.mp hqs, rfl⟩
    · rintro ⟨p, qs, hp, hqs, rfl⟩
      exact ⟨p, hp, bind_eq_ok.mpr ⟨qs, ih.mpr hqs, rfl⟩⟩

/-- A filter of operands stands for what these stand for, joined. -/
theorem Phrase.meaning_ofOperands_eq_ok_iff {q : Predicate} :
    (ofOperands op t ts).meaning = .ok q ↔
      ∃ p ps, t.meaning = .ok p ∧ List.Forall₂ (fun t p => t.meaning = .ok p) ts ps ∧
        q = joined op p ps := by
  rw [ofOperands, meaning_whole, meaning, bind_eq_ok, meaning_single]
  constructor
  · rintro ⟨p, hp, h⟩
    obtain ⟨ps, hps, h⟩ := bind_eq_ok.mp h
    cases h
    exact ⟨p, ps, hp, (Rest.meaning_ofList_eq_ok_iff op ts).mp hps, rfl⟩
  · rintro ⟨p, ps, hp, hps, rfl⟩
    exact ⟨p, hp, bind_eq_ok.mpr ⟨ps, (Rest.meaning_ofList_eq_ok_iff op ts).mpr hps, rfl⟩⟩

/-- A repetition is as deep as its deepest operand. -/
theorem Rest.depth_ofList_le_iff {n : Nat} :
    (ofList op ts).depth ≤ n ↔ ∀ t ∈ ts, t.depth ≤ n := by
  induction ts with
  | nil => simp [ofList, depth]
  | cons t ts ih => rw [ofList, depth, Phrase.depth_single, Nat.max_le, ih, List.forall_mem_cons]

/-- A filter of operands is as deep as its deepest operand. -/
theorem Phrase.depth_ofOperands_le_iff {n : Nat} :
    (ofOperands op t ts).depth ≤ n ↔ ∀ u ∈ t :: ts, u.depth ≤ n := by
  rw [ofOperands, depth_whole, depth, depth_single, Nat.max_le, Rest.depth_ofList_le_iff,
    List.forall_mem_cons]

end Chain

end Grammar

open Grammar

/-- Pieces that spell operands, with a connective between neighbours, spell the chain of the
operands. -/
theorem Spells.ofOperands (op : Connective) {α : Type} {legible : α → Prop} (text : α → String)
    {tree : α → Phrase .operand} {a : α} {as : List α}
    (h : ∀ b ∈ a :: as, Spells (legible b) (text b).toList (tree b).kinds) :
    Spells (∀ b ∈ a :: as, legible b)
      (Text.join (" " ++ op.text ++ " ") ((a :: as).map text)).toList
      (Phrase.ofOperands op (tree a) (as.map tree)).kinds := by
  rw [Phrase.ofOperands, Phrase.kinds_whole, Phrase.kinds, Phrase.kinds_single]
  induction as generalizing a with
  | nil =>
    rw [List.map_nil, Rest.ofList, Rest.kinds, List.append_nil]
    apply (h a List.mem_cons_self).congr
    simp
  | cons b bs ih =>
    obtain ⟨ha, hbs⟩ := List.forall_mem_cons.mp h
    have hspells := ha.append_blank ((Spells.keyword (.connective op)).prepend (ih hbs))
    have htext : (Text.join (" " ++ op.text ++ " ") ((a :: b :: bs).map text)).toList =
        (text a).toList ++ ' ' :: (op.text.toList ++
          ' ' :: (Text.join (" " ++ op.text ++ " ") ((b :: bs).map text)).toList) := by
      rw [List.map_cons, Text.join_cons_of_ne_nil _ _ (by simp)]
      simp
    have hkinds : (Rest.ofList op ((b :: bs).map tree)).kinds = .keyword (.connective op) ::
        ((tree b).kinds ++ (Rest.ofList op (bs.map tree)).kinds) := by
      rw [List.map_cons, Rest.ofList, Rest.kinds, Phrase.kinds_single]
    rw [htext, hkinds]
    exact hspells.congr List.forall_mem_cons.symm

/-! ## Trees of predicates -/

/-- The list of a membership test as a leaf. A valid set has a member, so the leaf of the empty list
does not matter. -/
def Grammar.Leaf.ofMembers (op : Membership) (column : Column) : List Literal → Leaf
  | [] => .const true
  | v :: vs => .member (.ofColumn column) op (.ofLiteral v) (vs.map .ofLiteral)

namespace Predicate

mutual

/-- The tree of a predicate as an operand. A well-formed chain has operands, so the tree of the
empty chain does not matter. -/
def operand : Predicate → Phrase .operand
  | const b => .leaf (.const b)
  | test op column => .leaf (.test (.ofColumn column) op)
  | compare op column value => .leaf (.compare (.ofColumn column) op (.ofLiteral value))
  | member op column values => .leaf (.ofMembers op column values.members)
  | starts op column stem =>
    .leaf (.like (.ofColumn column) op.isNegated
      (String.ofList (Text.escape true stem.toList ++ ['%'])))
  | not p => .not (operand p)
  | chain _ [] => .leaf (.const true)
  | chain op (p :: ps) => .group (.ofOperands op (operand p) (operands ps))

/-- The trees of all the predicates. -/
def operands : List Predicate → List (Phrase .operand)
  | [] => []
  | p :: ps => operand p :: operands ps

end

/-- Trees of operands are made one by one. -/
theorem operands_eq_map (ps : List Predicate) : operands ps = ps.map operand := by
  induction ps with
  | nil => rfl
  | cons p ps ih => simp [operands, ih]

/-- The tree of a predicate as a whole filter. -/
def tree : Predicate → Phrase (.chain .or)
  | chain op (p :: ps) => .ofOperands op (operand p) (operands ps)
  | p => .alone (operand p)

/-- One more level for a chain, which is printed in parentheses. -/
def groupedNesting (p : Predicate) (levels : Nat) : Nat :=
  if p.isChain then levels + 1 else levels

mutual

/-- How many prefix negations and parentheses the printer writes around a place of the predicate, at
most. -/
def nesting : Predicate → Nat
  | not p => groupedNesting p (nesting p) + 1
  | chain _ ps => nestingAll ps
  | _ => 0

/-- The same for the operands of a chain. -/
def nestingAll : List Predicate → Nat
  | [] => 0
  | p :: ps => max (groupedNesting p (nesting p)) (nestingAll ps)

end

/-- Parentheses cost at most one level. -/
theorem groupedNesting_le (p : Predicate) (levels : Nat) :
    groupedNesting p levels ≤ levels + 1 := by
  unfold groupedNesting
  split
  · exact Nat.le_refl _
  · exact Nat.le_succ _

/-- Parentheses save no level. -/
theorem le_groupedNesting (p : Predicate) (levels : Nat) : levels ≤ groupedNesting p levels := by
  unfold groupedNesting
  split
  · exact Nat.le_succ _
  · exact Nat.le_refl _

/-- The operands of a chain are as deep as the deepest one with its parentheses. -/
theorem nestingAll_le_iff {ps : List Predicate} {n : Nat} :
    nestingAll ps ≤ n ↔ ∀ p ∈ ps, groupedNesting p p.nesting ≤ n := by
  induction ps with
  | nil => simp [nestingAll]
  | cons p ps ih => rw [nestingAll, Nat.max_le, ih, List.forall_mem_cons]

/-- A predicate that is no chain is a filter of one operand. -/
theorem tree_of_not_isChain {p : Predicate} (h : p.isChain = false) :
    tree p = .alone (operand p) := by
  cases p with
  | chain op ps => contradiction
  | _ => rfl

/-! ## Depth -/

/-- The operands behind the first one are as deep as they are printed. -/
theorem depth_rest (op : Connective) {ps : List Predicate}
    (h : ∀ q ∈ ps, (operand q).depth = groupedNesting q q.nesting) :
    (Rest.ofList op (operands ps)).depth = nestingAll ps := by
  induction ps with
  | nil => rfl
  | cons q qs ih =>
    obtain ⟨hq, hqs⟩ := List.forall_mem_cons.mp h
    rw [operands, Rest.ofList, Rest.depth, Phrase.depth_single, hq, ih hqs, nestingAll]

/-- A filter of operands is as deep as its operands are printed. -/
theorem depth_ofOperands (op : Connective) {p : Predicate} {ps : List Predicate}
    (h : ∀ q ∈ p :: ps, (operand q).depth = groupedNesting q q.nesting) :
    (Phrase.ofOperands op (operand p) (operands ps)).depth = nestingAll (p :: ps) := by
  obtain ⟨hp, hps⟩ := List.forall_mem_cons.mp h
  rw [Phrase.ofOperands, Phrase.depth_whole, Phrase.depth, Phrase.depth_single, hp,
    depth_rest op hps, nestingAll]

/-- The tree of an operand is as deep as the printer nests it, parentheses included. -/
theorem depth_operand {p : Predicate} (hp : p.WellFormed) :
    (operand p).depth = groupedNesting p p.nesting := by
  induction p with
  | const b => rfl
  | test op c => rfl
  | compare op c v => rfl
  | member op c s => rfl
  | starts op c stem => rfl
  | not p ih =>
    rw [operand, Phrase.depth, ih hp]
    rfl
  | chain op ps ih =>
    obtain ⟨p, ps, rfl, hps⟩ := hp.exists_cons
    rw [operand, Phrase.depth, depth_ofOperands op fun q hq => ih q hq (hps q hq)]
    rfl

/-- The tree of a predicate is as deep as the printer nests it. -/
theorem depth_tree {p : Predicate} (hp : p.WellFormed) : (tree p).depth = p.nesting := by
  cases hchain : p.isChain with
  | false =>
    rw [tree_of_not_isChain hchain, Phrase.depth_alone, depth_operand hp, groupedNesting, hchain]
    rfl
  | true =>
    cases p with
    | chain op ps =>
      obtain ⟨p, ps, rfl, hps⟩ := hp.exists_cons
      exact depth_ofOperands op fun q hq => depth_operand (hps q hq)
    | _ => contradiction

/-! ## Spelling -/

section Leaf

variable (column : Column)

/-- A printed column test spells its leaf. -/
theorem spells_test (op : ColumnTest) :
    Spells (test op column).Legible (test op column).render.toList
      (Leaf.test (.ofColumn column) op).kinds := by
  have htext : (test op column).render.toList = column.render.toList ++ ' ' :: op.text.toList := by
    simp [render]
  rw [htext]
  apply ((Spells.column column).append_blank (Spells.columnTest op)).congr
  simp [Legible, columns, column?, literals, stems]

/-- A printed comparison spells its leaf. -/
theorem spells_compare (op : Comparison) (v : Literal) :
    Spells (compare op column v).Legible (compare op column v).render.toList
      (Leaf.compare (.ofColumn column) op (.ofLiteral v)).kinds := by
  have htext : (compare op column v).render.toList =
      column.render.toList ++ ' ' :: (op.text.toList ++ ' ' :: v.render.toList) := by
    simp [render]
  rw [htext]
  have hvalue := (Spells.comparison op).prepend (Spells.literal v)
  apply ((Spells.column column).append_blank hvalue).congr
  simp [Legible, columns, column?, literals, stems]

/-- A printed membership test spells its leaf. -/
theorem spells_member (op : Membership) {s : LiteralSet} (hs : s.Valid) :
    Spells (member op column s).Legible (member op column s).render.toList
      (Leaf.ofMembers op column s.members).kinds := by
  obtain ⟨v, vs, hmembers⟩ := List.exists_cons_of_ne_nil hs.nonempty
  have htext : (member op column s).render.toList =
      column.render.toList ++ ' ' :: (op.text.toList ++ ' ' :: s.render.toList) := by
    simp [render]
  have hkinds : (Leaf.ofMembers op column s.members).kinds = (ColumnPhrase.ofColumn column).kinds ++
      (membershipKinds op ++ .leftParen ::
        (LiteralPhrase.listKinds (.ofLiteral v) (vs.map .ofLiteral) ++ [.rightParen])) := by
    rw [hmembers]
    simp [Leaf.ofMembers, Leaf.kinds]
  rw [htext, hkinds]
  have hset := (Spells.membership op).prepend (Spells.set hmembers)
  apply ((Spells.column column).append_blank hset).congr
  simp [Legible, columns, column?, literals, stems]

/-- A printed start test spells its leaf. -/
theorem spells_starts (op : StartTest) (stem : String) :
    Spells (starts op column stem).Legible (starts op column stem).render.toList
      (Leaf.like (.ofColumn column) op.isNegated
        (String.ofList (Text.escape true stem.toList ++ ['%']))).kinds := by
  have htext : (starts op column stem).render.toList =
      column.render.toList ++ ' ' :: (op.text.toList ++ ' ' :: (stemPattern stem).toList) := by
    simp [render]
  rw [htext, Leaf.kinds, List.append_assoc]
  have hpattern := (Spells.startTest op).prepend (Spells.stemPattern stem)
  apply ((Spells.column column).append_blank hpattern).congr
  simp [Legible, columns, column?, literals, stems]

end Leaf

/-- A printed chain spells its tree, if its printed operands spell theirs. -/
theorem spells_chain (op : Connective) {p : Predicate} {ps : List Predicate}
    (h : ∀ q ∈ p :: ps, Spells q.Legible (grouped q q.render).toList (operand q).kinds) :
    Spells (chain op (p :: ps)).Legible (chain op (p :: ps)).render.toList
      (Phrase.ofOperands op (operand p) (operands ps)).kinds := by
  have hspells := Spells.ofOperands op (fun q => grouped q q.render) h
  rw [render, renderOperands_eq_map, operands_eq_map]
  exact hspells.congr legible_chain.symm

/-- What is no chain is printed without parentheses. -/
theorem grouped_of_not_isChain {p : Predicate} (h : p.isChain = false) (text : String) :
    grouped p text = text := by
  simp [grouped, h]

/-- A printed operand spells its tree. -/
theorem spells_operand {p : Predicate} (hp : p.WellFormed) :
    Spells p.Legible (grouped p p.render).toList (operand p).kinds := by
  induction p with
  | const b =>
    rw [grouped_of_not_isChain rfl]
    have hkeyword := Spells.keyword (.bool b)
    cases b with
    | false => exact hkeyword.congr (by simp [Legible, columns, column?, literals, stems])
    | true => exact hkeyword.congr (by simp [Legible, columns, column?, literals, stems])
  | test op c =>
    rw [grouped_of_not_isChain rfl]
    exact spells_test c op
  | compare op c v =>
    rw [grouped_of_not_isChain rfl]
    exact spells_compare c op v
  | member op c s =>
    rw [grouped_of_not_isChain rfl]
    exact spells_member c op hp
  | starts op c stem =>
    rw [grouped_of_not_isChain rfl]
    exact spells_starts c op stem
  | not p ih =>
    have htext : (grouped p.not p.not.render).toList =
        (Keyword.not).text.toList ++ ' ' :: (grouped p p.render).toList := by
      rw [grouped_of_not_isChain rfl, render, String.toList_append]
      rfl
    rw [htext, operand, Phrase.kinds]
    exact (Spells.keyword .not).prepend (ih hp)
  | chain op ps ih =>
    obtain ⟨p, ps, rfl, hps⟩ := hp.exists_cons
    have hchain := spells_chain op fun q hq => ih q hq (hps q hq)
    have htext : (grouped (chain op (p :: ps)) (chain op (p :: ps)).render).toList =
        '(' :: ((chain op (p :: ps)).render.toList ++ [')']) := by
      show ("(" ++ (chain op (p :: ps)).render ++ ")").toList = _
      rw [String.toList_append, String.toList_append]
      rfl
    rw [htext, operand, Phrase.kinds]
    exact hchain.parens

/-- A printed predicate spells its tree. -/
theorem spells_tree {p : Predicate} (hp : p.WellFormed) :
    Spells p.Legible p.render.toList (tree p).kinds := by
  cases hchain : p.isChain with
  | false =>
    have hspells := spells_operand hp
    rw [grouped_of_not_isChain hchain] at hspells
    rw [tree_of_not_isChain hchain, Phrase.kinds_alone]
    exact hspells
  | true =>
    cases p with
    | chain op ps =>
      obtain ⟨p, ps, rfl, hps⟩ := hp.exists_cons
      exact spells_chain op fun q hq => spells_operand (hps q hq)
    | _ => contradiction

end Predicate

end RowFilter
