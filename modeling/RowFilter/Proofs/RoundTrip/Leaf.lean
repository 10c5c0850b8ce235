import RowFilter.Proofs.Predicate.Parts
import RowFilter.Proofs.RoundTrip.Column

/-!
# Written literals and operators

Every literal has a phrase as which it is written, and the printed literal spells this phrase if it
is legible. The phrase has the value of the literal if the literal is scaled; a decimal without a
positive scale comes back as an integer, which is never the same. The texts of the operators spell
the keywords that the grammar asks for, and a printed list spells the list of the grammar.
-/

set_option autoImplicit false

namespace RowFilter

/-! ## Phrases of literals -/

namespace Grammar.LiteralPhrase

/-- The phrase as which a literal is written. -/
def ofLiteral : Literal → LiteralPhrase
  | .boolean b => .boolean b
  | .integer n => .integer n
  | .decimal d => if 0 < d.scale then .decimal d else .integer (Int64.ofInt d.whole)
  | .string s => .text (String.ofList (Text.escape false s.toList))

/-- The phrase of a literal stands for the literal, unless it is a decimal without places. -/
theorem value_ofLiteral {v : Literal} (h : v.Scaled) : (ofLiteral v).value = v := by
  cases v with
  | boolean b => rfl
  | integer n => rfl
  | decimal d =>
    rw [ofLiteral, if_pos (h d rfl)]
    rfl
  | string s =>
    rw [ofLiteral, value, unescaped_escape]

/-- A literal that comes back with its type is scaled. -/
theorem scaled_of_type_eq {v : Literal} (h : (ofLiteral v).value.type = v.type) : v.Scaled := by
  rintro d rfl
  by_cases hscale : 0 < d.scale
  · exact hscale
  · rw [ofLiteral, if_neg hscale] at h
    contradiction

end Grammar.LiteralPhrase

open Grammar

namespace Spells

/-- A printed literal spells its phrase. -/
theorem literal (v : Literal) :
    Spells v.Legible v.render.toList [(LiteralPhrase.ofLiteral v).kind] := by
  cases v with
  | boolean b => exact boolean b
  | integer n => exact int64 n
  | decimal d =>
    rw [LiteralPhrase.ofLiteral]
    split
    · rename_i hscale
      apply (decimal hscale).congr
      exact ⟨fun _ => Or.inl hscale, fun _ => trivial⟩
    · rename_i hscale
      apply (wholeDecimal (Int.not_lt.mp hscale)).congr
      constructor
      · exact Or.inr
      · rintro (h | h)
        · exact absurd h hscale
        · exact h
  | string s => exact quote s

/-! ## Lists -/

/-- Printed literals with commas between them spell the list of their phrases. -/
theorem literals (v : Literal) (vs : List Literal) :
    Spells (∀ w ∈ v :: vs, w.Legible) (Text.join ", " ((v :: vs).map Literal.render)).toList
      (LiteralPhrase.listKinds (.ofLiteral v) (vs.map .ofLiteral)) := by
  induction vs generalizing v with
  | nil =>
    apply (literal v).congr
    simp
  | cons w ws ih =>
    have hspells := (literal v).append_comma (ih w)
    have htext : (Text.join ", " ((v :: w :: ws).map Literal.render)).toList =
        v.render.toList ++
          ',' :: ' ' :: (Text.join ", " ((w :: ws).map Literal.render)).toList := by
      rw [List.map_cons, Text.join_cons_of_ne_nil _ _ (by simp), String.toList_append,
        String.toList_append, List.append_assoc]
      rfl
    rw [htext]
    exact hspells.congr List.forall_mem_cons.symm

/-- A printed set spells the list of its members in parentheses. -/
theorem set {s : LiteralSet} {v : Literal} {vs : List Literal} (h : s.members = v :: vs) :
    Spells (∀ w ∈ s.members, w.Legible) s.render.toList
      (.leftParen :: (LiteralPhrase.listKinds (.ofLiteral v) (vs.map .ofLiteral) ++
        [.rightParen])) := by
  have htext : s.render.toList =
      '(' :: ((Text.join ", " (s.members.map Literal.render)).toList ++ [')']) := by
    rw [LiteralSet.render, String.toList_append, String.toList_append]
    rfl
  rw [htext, h]
  exact (literals v vs).parens

/-! ## Operators -/

/-- The text of a column test spells its keywords. -/
theorem columnTest (op : ColumnTest) : Spells True op.text.toList (testKinds op) := by
  cases op with
  | isNull => exact (keyword .is).prepend (keyword .null)
  | notNull => exact (keyword .is).prepend ((keyword .not).prepend (keyword .null))
  | isNaN => exact (keyword .is).prepend (keyword .nan)
  | notNaN => exact (keyword .is).prepend ((keyword .not).prepend (keyword .nan))

/-- The text of a membership test spells its keywords. -/
theorem membership (op : Membership) : Spells True op.text.toList (membershipKinds op) := by
  cases op with
  | inSet => exact keyword .inSet
  | notInSet => exact (keyword .not).prepend (keyword .inSet)

end Spells

namespace StartTest

/-- The test asks for the absence of the stem. -/
def isNegated : StartTest → Bool
  | startsWith => false
  | notStartsWith => true

end StartTest

/-- The text of a start test spells its keywords. -/
theorem Spells.startTest (op : StartTest) :
    Spells True op.text.toList (likeKinds op.isNegated) := by
  cases op with
  | startsWith => exact keyword .like
  | notStartsWith => exact (keyword .not).prepend (keyword .like)

end RowFilter
