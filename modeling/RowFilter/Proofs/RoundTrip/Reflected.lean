import RowFilter.Proofs.Pattern.Units
import RowFilter.Proofs.RoundTrip.Reparse

/-!
# Comparisons from both sides

A comparison may be written with its column in front, as the printer does it, or with its literal in
front and the comparison turned round. Both are read as the same predicate. The only thing in the
way is single-quoted text on both sides, of which the left one is always the column: a column is
printed in single quotes if there is a double quote in its name, and a literal if it is a string.
-/

set_option autoImplicit false

namespace RowFilter

/-- A comparison that is turned round twice is itself again. -/
theorem Comparison.flipped_flipped (op : Comparison) : op.flipped.flipped = op := by
  cases op <;> rfl

namespace Grammar

/-! ## Quotes -/

/-- A column is written in single quotes only if there is a double quote in its name. -/
theorem ColumnPhrase.isText_ofColumn {c : Column} (h : '"' ∉ c.name.toList) :
    (ofColumn c).isText = false := by
  obtain ⟨s, ss, hsegments, -⟩ := c.exists_segments
  unfold ofColumn
  rw [hsegments]
  split
  · rfl
  · split
    · rename_i hquote
      exact absurd (List.contains_iff_mem.mp hquote) h
    · rfl

/-- Only strings are written in single quotes. -/
theorem LiteralPhrase.exists_string_of_isText {v : Literal} (h : (ofLiteral v).isText = true) :
    ∃ s, v = .string s := by
  cases v with
  | string s => exact ⟨s, rfl⟩
  | decimal d =>
    rw [ofLiteral] at h
    split at h <;> contradiction
  | boolean b => contradiction
  | integer n => contradiction

/-- The sides of a comparison are not both in single quotes. -/
theorem distinct_of_quotes {c : Column} {v : Literal}
    (h : ∀ s, v = .string s → '"' ∉ c.name.toList) :
    ((LiteralPhrase.ofLiteral v).isText && (ColumnPhrase.ofColumn c).isText) = false := by
  cases htext : (LiteralPhrase.ofLiteral v).isText with
  | false => rfl
  | true =>
    obtain ⟨s, hs⟩ := LiteralPhrase.exists_string_of_isText htext
    rw [ColumnPhrase.isText_ofColumn (h s hs), Bool.and_false]

end Grammar

open Grammar

/-! ## Both sides -/

/-- A comparison that is written with its literal in front spells the reflected leaf. -/
theorem spells_literalFirst (c : Column) (op : Comparison) (v : Literal)
    (distinct : ((LiteralPhrase.ofLiteral v).isText && (ColumnPhrase.ofColumn c).isText) = false) :
    Spells (v.Legible ∧ '\n' ∉ c.name.toList)
      (v.render ++ " " ++ op.text ++ " " ++ c.render).toList
      (Leaf.reflected (.ofLiteral v) op (.ofColumn c) distinct).kinds := by
  have htext : (v.render ++ " " ++ op.text ++ " " ++ c.render).toList =
      v.render.toList ++ ' ' :: (op.text.toList ++ ' ' :: c.render.toList) := by
    simp
  rw [htext]
  exact (Spells.literal v).append_blank ((Spells.comparison op).prepend (Spells.column c))

/-- A comparison is read alike from both sides, whatever the limit of nesting: with the column in
front, and with the literal in front and the comparison flipped. The name and a string hold no line
feed, a decimal has a positive scale, and the name has no double quote if the literal is a string.
-/
theorem parseWith_compare_both_ways {c : Column} {v : Literal} (hname : '\n' ∉ c.name.toList)
    (hline : v.OneLine) (hscaled : v.Scaled) (hquote : ∀ s, v = .string s → '"' ∉ c.name.toList)
    (op : Comparison) (config : Config) :
    parseWith config (c.render ++ " " ++ op.text ++ " " ++ v.render) = .ok (.compare op c v) ∧
      parseWith config (v.render ++ " " ++ op.flipped.text ++ " " ++ c.render) =
        .ok (.compare op c v) := by
  constructor
  · have hcompare : (Predicate.compare op c v).OneLine :=
      Predicate.oneLine_iff.mpr ⟨List.forall_mem_singleton.mpr hname,
        List.forall_mem_singleton.mpr hline, List.forall_mem_nil _⟩
    exact parseWith_render (Predicate.wellFormed_compare op c v) hcompare
      (List.forall_mem_singleton.mpr hscaled) (Nat.zero_le _)
  · have hspells := spells_literalFirst c op.flipped v (distinct_of_quotes hquote)
    have hkinds := hspells.kinds_eq ⟨hline.legible hscaled, hname⟩
    rw [← TokenStream.kinds_ofText] at hkinds
    rw [parseWith_of_leaf hkinds, Leaf.meaning, ColumnPhrase.column_ofColumn,
      LiteralPhrase.value_ofLiteral hscaled, ← flipped_eq_mirrored, op.flipped_flipped]
    rfl

/-- A name with both quotes stands beside a decimal, and a name with a single quote beside a
string. -/
theorem parseWith_compare_both_ways_quotes :
    (parseWith ⟨0⟩ "'say \"it\\'s\"' < -1.50" =
        .ok (.compare .less ⟨"say \"it's\""⟩ (.decimal ⟨-150, 2⟩)) ∧
      parseWith ⟨0⟩ "-1.50 > 'say \"it\\'s\"'" =
        .ok (.compare .less ⟨"say \"it's\""⟩ (.decimal ⟨-150, 2⟩))) ∧
    parseWith ⟨0⟩ "\"it's\" != 'a\\\\'" = .ok (.compare .notEqual ⟨"it's"⟩ (.string "a\\")) ∧
      parseWith ⟨0⟩ "'a\\\\' != \"it's\"" = .ok (.compare .notEqual ⟨"it's"⟩ (.string "a\\")) := by
  constructor
  · have hscaled : (Literal.decimal ⟨-150, 2⟩).Scaled := by
      rintro d hd
      cases hd
      decide
    exact @parseWith_compare_both_ways ⟨"say \"it's\""⟩ (.decimal ⟨-150, 2⟩) (by decide)
      (by intro s hs; contradiction) hscaled (by intro s hs; contradiction) .less ⟨0⟩
  · have hline : (Literal.string "a\\").OneLine := by
      rintro s hs
      cases hs
      decide
    exact @parseWith_compare_both_ways ⟨"it's"⟩ (.string "a\\") (by decide) hline
      (by intro d hd; contradiction) (by intro s _; decide) .notEqual ⟨0⟩

end RowFilter
