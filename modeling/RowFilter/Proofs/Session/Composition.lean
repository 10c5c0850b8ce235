import RowFilter.Proofs.Grammar.Exactness
import RowFilter.Proofs.RoundTrip.Tree
import RowFilter.Proofs.Token.Seam

/-!
# Filters put together

A filter in parentheses is a filter with the same meaning, a filter in parentheses after `NOT` is
its negation, and filters in parentheses with a connective between neighbours are the chain of all
of them. What is in the parentheses does not matter: their tokens stay the same, since a parenthesis
is a break after every token, and their trees become groups in the tree of the whole. Parentheses
cost one level of nesting and a negation another one.
-/

set_option autoImplicit false

namespace RowFilter

open Grammar

/-- A filter under a limit of nesting, with the tree along which it is read. -/
structure Accepted (limit : Nat) where
  text : String
  tree : Phrase (.chain .or)
  predicate : Predicate
  kinds_eq : Text.kinds text.toList = tree.kinds
  depth_le : tree.depth ≤ limit
  meaning_eq : tree.meaning = .ok predicate

namespace Accepted

variable {limit : Nat} (f : Accepted limit)

/-- The text of an accepted filter is read as its predicate. -/
theorem parseWith_text : parseWith ⟨limit⟩ f.text = .ok f.predicate := by
  have hkinds : f.tree.kinds = (TokenStream.ofText f.text).kinds := by
    rw [TokenStream.kinds_ofText, f.kinds_eq]
  rw [parseWith_eq_ok_iff]
  refine ⟨?_, f.tree, hkinds, Phrase.read_eq_ok_iff.mpr ⟨f.depth_le, f.meaning_eq⟩⟩
  rw [TokenStream.clean_iff, ← hkinds]
  exact f.tree.error?_of_mem_kinds

/-- Every text that is read has a tree along which it is read. -/
theorem exists_of_parseWith {text : String} {p : Predicate} (h : parseWith ⟨limit⟩ text = .ok p) :
    ∃ f : Accepted limit, f.text = text ∧ f.predicate = p := by
  obtain ⟨-, t, hkinds, hread⟩ := parseWith_eq_ok_iff.mp h
  obtain ⟨hdepth, hmeaning⟩ := Phrase.read_eq_ok_iff.mp hread
  rw [TokenStream.kinds_ofText] at hkinds
  exact ⟨⟨text, t, p, hkinds.symm, hdepth, hmeaning⟩, rfl, rfl⟩

/-- Texts that are accepted one by one come with a tree each. -/
theorem exists_all_of_parseWith {texts : List String} {ps : List Predicate}
    (h : List.Forall₂ (fun text p => parseWith ⟨limit⟩ text = .ok p) texts ps) :
    ∃ fs : List (Accepted limit), fs.map text = texts ∧ fs.map predicate = ps := by
  induction h with
  | nil => exact ⟨[], rfl, rfl⟩
  | cons htext _ ih =>
    obtain ⟨f, rfl, rfl⟩ := exists_of_parseWith htext
    obtain ⟨fs, rfl, rfl⟩ := ih
    exact ⟨f :: fs, rfl, rfl⟩

/-! ## In parentheses -/

/-- A filter in parentheses as an operand. -/
def group : Phrase .operand :=
  .group f.tree

/-- Parentheses around a filter nest it one level deeper. -/
theorem depth_group_le : f.group.depth ≤ limit + 1 :=
  Nat.succ_le_succ f.depth_le

/-- Parentheses around a filter do not change its predicate. -/
theorem meaning_group : f.group.meaning = .ok f.predicate :=
  f.meaning_eq

/-- In parentheses a filter keeps its tokens, whatever stands after them. -/
theorem spells_group : Spells True ("(" ++ f.text ++ ")").toList f.group.kinds := by
  have hvalid : ∀ k ∈ Text.kinds f.text.toList, k.error? = none := by
    rw [f.kinds_eq]
    exact f.tree.error?_of_mem_kinds
  have htext : ("(" ++ f.text ++ ")").toList = '(' :: (f.text.toList ++ [')']) := by
    rw [String.toList_append, String.toList_append]
    rfl
  rw [htext, group, Phrase.kinds, ← f.kinds_eq]
  exact (Spells.of_valid hvalid).parens

/-- The filter that is one operand. -/
def ofOperand (text : String) (t : Phrase .operand) (p : Predicate)
    (hspells : Spells True text.toList t.kinds) (hdepth : t.depth ≤ limit)
    (hmeaning : t.meaning = .ok p) : Accepted limit where
  text := text
  tree := t.alone
  predicate := p
  kinds_eq := by
    rw [Phrase.alone, Phrase.kinds, Phrase.kinds_single, Rest.kinds, List.append_nil]
    exact hspells.kinds_eq trivial
  depth_le := by
    rw [Phrase.alone, Phrase.depth, Phrase.depth_single, Rest.depth, Nat.max_zero]
    exact hdepth
  meaning_eq := by
    rw [Phrase.alone, Phrase.meaning_chain_done, Phrase.meaning_single]
    exact hmeaning

/-- The filter in parentheses. -/
def grouped : Accepted (limit + 1) :=
  ofOperand ("(" ++ f.text ++ ")") f.group f.predicate f.spells_group f.depth_group_le
    f.meaning_group

/-- After `NOT` a filter in parentheses keeps its tokens too. -/
theorem spells_negated : Spells True ("NOT (" ++ f.text ++ ")").toList f.group.not.kinds := by
  have htext : ("NOT (" ++ f.text ++ ")").toList =
      (Keyword.not).text.toList ++ ' ' :: ("(" ++ f.text ++ ")").toList := by
    simp only [String.toList_append]
    rfl
  rw [htext, Phrase.kinds]
  exact (Spells.keyword .not).prepend f.spells_group

/-- The filter in parentheses after `NOT`. -/
def negated : Accepted (limit + 2) :=
  ofOperand ("NOT (" ++ f.text ++ ")") f.group.not f.predicate.not f.spells_negated
    (Nat.succ_le_succ f.depth_group_le) (by rw [Phrase.meaning, meaning_group]; rfl)

/-- Filters in parentheses with the connective between neighbours. -/
def chain (op : Connective) (f g : Accepted limit) (fs : List (Accepted limit)) :
    Accepted (limit + 1) where
  text := Text.join (" " ++ op.text ++ " ") ((f :: g :: fs).map fun h => "(" ++ h.text ++ ")")
  tree := .ofOperands op f.group ((g :: fs).map group)
  predicate := .chain op ((f :: g :: fs).map predicate)
  kinds_eq := by
    have hspells := Spells.ofOperands op (fun h : Accepted limit => "(" ++ h.text ++ ")")
      fun h (_ : h ∈ f :: g :: fs) => h.spells_group
    exact hspells.kinds_eq fun _ _ => trivial
  depth_le := by
    rw [Phrase.depth_ofOperands_le_iff]
    intro t ht
    obtain ⟨h, -, rfl⟩ := List.mem_map.mp (show t ∈ (f :: g :: fs).map group from ht)
    exact h.depth_group_le
  meaning_eq := by
    rw [Phrase.meaning_ofOperands_eq_ok_iff]
    refine ⟨f.predicate, (g :: fs).map predicate, f.meaning_group, ?_, rfl⟩
    rw [List.forall₂_map_left_iff, List.forall₂_map_right_iff, List.forall₂_same]
    intro h _
    exact h.meaning_group

end Accepted

/-! ## Composition -/

/-- Filters compose. For at least two filters that are read under a limit of nesting, the text with
each of them in parentheses and a connective between neighbours is read under the next limit, as the
chain of their predicates. A filter in parentheses is read under the next limit as the predicate
itself, and `NOT` before it under the limit after that as the negation. -/
theorem parseWith_compose (limit : Nat) :
    (∀ (op : Connective) (texts : List String) (ps : List Predicate), 2 ≤ texts.length →
      List.Forall₂ (fun text p => parseWith ⟨limit⟩ text = .ok p) texts ps →
      parseWith ⟨limit + 1⟩
          (Text.join (" " ++ op.text ++ " ") (texts.map fun text => "(" ++ text ++ ")")) =
        .ok (.chain op ps)) ∧
    ∀ text p, parseWith ⟨limit⟩ text = .ok p →
      parseWith ⟨limit + 1⟩ ("(" ++ text ++ ")") = .ok p ∧
      parseWith ⟨limit + 2⟩ ("NOT (" ++ text ++ ")") = .ok (.not p) := by
  constructor
  · intro op texts ps hlength hall
    obtain ⟨fs, rfl, rfl⟩ := Accepted.exists_all_of_parseWith hall
    rw [List.length_map] at hlength
    match fs, hlength with
    | f :: g :: fs, _ =>
      rw [List.map_map]
      exact (Accepted.chain op f g fs).parseWith_text
  · intro text p h
    obtain ⟨f, rfl, rfl⟩ := Accepted.exists_of_parseWith h
    exact ⟨f.grouped.parseWith_text, f.negated.parseWith_text⟩

/-- The chain in the first text would bind less tightly than the `AND` without its parentheses. -/
theorem parseWith_compose_two :
    parseWith ⟨2⟩ "(a = 1 OR b IS NULL) AND ( not c is nan)" =
        .ok (.chain .and
          [.chain .or [.compare .equal ⟨"a"⟩ (.integer 1), .test .isNull ⟨"b"⟩],
            .not (.test .isNaN ⟨"c"⟩)]) ∧
      parseWith ⟨2⟩ "(a = 1 OR b IS NULL)" =
        .ok (.chain .or [.compare .equal ⟨"a"⟩ (.integer 1), .test .isNull ⟨"b"⟩]) ∧
      parseWith ⟨3⟩ "NOT ( not c is nan)" = .ok (.not (.not (.test .isNaN ⟨"c"⟩))) := by
  let a : Phrase .operand := .leaf (.compare (.path "a" []) .equal (.integer 1))
  let b : Phrase .operand := .leaf (.test (.path "b" []) .isNull)
  let c : Phrase .operand := .not (.leaf (.test (.path "c" []) .isNaN))
  have hor : parseWith ⟨1⟩ "a = 1 OR b IS NULL" =
      .ok (.chain .or [.compare .equal ⟨"a"⟩ (.integer 1), .test .isNull ⟨"b"⟩]) :=
    Accepted.parseWith_text ⟨_, .ofOperands .or a [b], _, by decide +kernel, by decide, rfl⟩
  have hnot : parseWith ⟨1⟩ " not c is nan" = .ok (.not (.test .isNaN ⟨"c"⟩)) :=
    Accepted.parseWith_text ⟨_, c.alone, _, by decide +kernel, by decide, rfl⟩
  obtain ⟨hchain, hone⟩ := parseWith_compose 1
  have hand := hchain .and _ _ (show 2 ≤ [_, _].length from Nat.le_refl 2)
    (.cons hor (.cons hnot .nil))
  have htext : Text.join (" " ++ Connective.text .and ++ " ")
      (["a = 1 OR b IS NULL", " not c is nan"].map fun text => "(" ++ text ++ ")") =
        "(a = 1 OR b IS NULL) AND ( not c is nan)" := by
    decide +kernel
  rw [htext] at hand
  exact ⟨hand, (hone _ _ hor).1, (hone _ _ hnot).2⟩

end RowFilter
