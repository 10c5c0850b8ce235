import RowFilter.Proofs.Predicate.Buildable
import RowFilter.Proofs.RoundTrip.Meaning
import RowFilter.Proofs.RoundTrip.Scales

/-!
# Reading what was printed

A well-formed predicate is read back from its printed form exactly if no text in it holds a line
feed, every decimal in it has a positive scale and the printer nests no deeper than the reader
allows. It then comes back as it was, scales included. For a predicate that was read from a filter
only the first and the last of these conditions can fail. They do fail: a backslash in front of a
line feed is accepted in a string and printed as two backslashes, after which the line feed ends the
string; and a group around a chain that the grammar groups anyway costs a level that the filter did
not need.
-/

set_option autoImplicit false

namespace RowFilter

open Grammar

/-! ## Both directions -/

/-- A predicate that keeps the conditions is read back as it was. -/
theorem parseWith_render {p : Predicate} (hp : p.WellFormed) (hline : p.OneLine)
    (hscaled : p.Scaled) {config : Config} (hnesting : p.nesting ≤ config.maxDepth) :
    parseWith config p.render = .ok p := by
  have hkinds : (TokenStream.ofText p.render).kinds = p.tree.kinds := by
    rw [TokenStream.kinds_ofText]
    exact (Predicate.spells_tree hp).kinds_eq (hline.legible hscaled)
  rw [parseWith_eq_ok_iff]
  refine ⟨?_, p.tree, hkinds.symm, ?_⟩
  · rw [TokenStream.clean_iff, hkinds]
    exact p.tree.error?_of_mem_kinds
  · rw [Phrase.read_eq_ok_iff, Predicate.depth_tree hp]
    exact ⟨hnesting, Predicate.meaning_tree hp hscaled⟩

/-- A printed predicate that can be read at all has no line feed in its texts. -/
theorem legible_of_parseWith_render {p q : Predicate} (hp : p.WellFormed) {config : Config}
    (h : parseWith config p.render = .ok q) : p.Legible := by
  obtain ⟨hclean, -⟩ := parseWith_eq_ok_iff.mp h
  by_contra hlegible
  obtain ⟨e, he⟩ := (Predicate.spells_tree hp).exists_invalid hlegible
  rw [TokenStream.clean_iff, TokenStream.kinds_ofText] at hclean
  have hvalid := hclean _ he
  contradiction

/-- A printed predicate that can be read is read along its own tree. -/
theorem read_tree_of_parseWith_render {p q : Predicate} (hp : p.WellFormed) {config : Config}
    (h : parseWith config p.render = .ok q) :
    p.nesting ≤ config.maxDepth ∧ p.tree.meaning = .ok q := by
  have hlegible := legible_of_parseWith_render hp h
  obtain ⟨-, t, hkinds, hread⟩ := parseWith_eq_ok_iff.mp h
  rw [TokenStream.kinds_ofText, (Predicate.spells_tree hp).kinds_eq hlegible] at hkinds
  rw [Phrase.read_eq_of_kinds_eq hkinds, Phrase.read_eq_ok_iff, Predicate.depth_tree hp] at hread
  exact hread

/-- What is read back as the same predicate keeps the conditions. -/
theorem conditions_of_parseWith_render {p q : Predicate} (hp : p.WellFormed) {config : Config}
    (h : parseWith config p.render = .ok q) (hsame : q.same p = true) :
    p.OneLine ∧ p.Scaled ∧ p.nesting ≤ config.maxDepth := by
  obtain ⟨hnesting, hmeaning⟩ := read_tree_of_parseWith_render hp h
  exact ⟨(legible_of_parseWith_render hp h).oneLine,
    Predicate.scaled_of_meaning_tree hp hmeaning hsame, hnesting⟩

/-- The text of a well-formed predicate is read as the same predicate exactly if there is no line
feed in it, its decimals have places, and the limit allows its nesting. -/
theorem exists_parseWith_render_iff {p : Predicate} (hp : p.WellFormed) (config : Config) :
    (∃ q, parseWith config p.render = .ok q ∧ q.same p = true) ↔
      p.OneLine ∧ p.Scaled ∧ p.nesting ≤ config.maxDepth := by
  constructor
  · rintro ⟨q, hq, hsame⟩
    exact conditions_of_parseWith_render hp hq hsame
  · rintro ⟨hline, hscaled, hnesting⟩
    exact ⟨p, parseWith_render hp hline hscaled hnesting, p.same_refl⟩

/-! ## The exact conditions -/

/-- A well-formed predicate is read back from its printed form, with a limit of nesting, exactly if
no column name, string literal or stem in it holds a line feed, every decimal in it has at least one
place after the point, and the printer nests no deeper than the limit. Whatever is then read back is
printed as the same text again. -/
theorem render_readable_iff {p : Predicate} (hp : p.WellFormed) (limit : Nat) :
    ((∃ q, parseWith ⟨limit⟩ p.render = .ok q ∧ q.same p = true) ↔
      (∀ s ∈ p.texts, '\n' ∉ s.toList) ∧ (∀ d ∈ p.decimals, 1 ≤ d.scale) ∧ p.nesting ≤ limit) ∧
    ∀ q, parseWith ⟨limit⟩ p.render = .ok q → q.same p = true → q.render = p.render := by
  constructor
  · rw [exists_parseWith_render_iff hp, Predicate.scaled_iff]
    rfl
  · intro q hq hsame
    obtain ⟨hline, hscaled, hnesting⟩ := conditions_of_parseWith_render hp hq hsame
    have heq := (parseWith_render hp hline hscaled hnesting).symm.trans hq
    cases heq
    rfl

/-- `NOT ("a b" < -1.50 AND "NULL" IN ('x', 'y')) OR c LIKE '10\%%'` nests two levels deep. -/
theorem render_readable_iff_two_levels :
    let set : LiteralSet := ⟨[.string "x", .string "y"], .string⟩
    let p : Predicate := .chain .or
      [.not (.chain .and
          [.compare .less ⟨"a b"⟩ (.decimal ⟨-150, 2⟩), .member .inSet ⟨"NULL"⟩ set]),
        .starts .startsWith ⟨"c"⟩ "10%"]
    p.WellFormed ∧ (∃ q, parseWith ⟨2⟩ p.render = .ok q ∧ q.same p = true) ∧
      ¬ ∃ q, parseWith ⟨1⟩ p.render = .ok q ∧ q.same p = true := by
  intro set p
  have hset : set.Valid := by
    apply @LiteralSet.valid_of_ofList [.string "y", .string "x"]
    rfl
  have hp : p.WellFormed := by
    simp [p, Predicate.wellFormed_chain, hset]
  refine ⟨hp, ?_, ?_⟩
  · rw [(render_readable_iff hp 2).1]
    decide
  · rw [(render_readable_iff hp 1).1]
    decide

/-- A predicate that was read from a filter is read back from its printed form exactly if no text in
it holds a line feed and the printer nests no deeper than the limit of 256. It is then read back as
it was. -/
theorem reparse_iff {text : String} {p : Predicate} (h : parse text = .ok p) :
    ((∃ q, parse p.render = .ok q ∧ q.same p = true) ↔
      (∀ s ∈ p.texts, '\n' ∉ s.toList) ∧ p.nesting ≤ 256) ∧
    (parse p.render = .ok p ↔ (∀ s ∈ p.texts, '\n' ∉ s.toList) ∧ p.nesting ≤ 256) := by
  have hp := wellFormed_of_parseWith h
  have hscaled := scaled_of_parseWith h
  have hsame : (∃ q, parse p.render = .ok q ∧ q.same p = true) ↔ p.OneLine ∧ p.nesting ≤ 256 := by
    rw [parse, exists_parseWith_render_iff hp]
    constructor
    · rintro ⟨hline, -, hnesting⟩
      exact ⟨hline, hnesting⟩
    · rintro ⟨hline, hnesting⟩
      exact ⟨hline, hscaled, hnesting⟩
  refine ⟨hsame, ?_⟩
  constructor
  · intro hok
    exact hsame.mp ⟨p, hok, p.same_refl⟩
  · rintro ⟨hline, hnesting⟩
    exact parseWith_render hp hline hscaled hnesting

/-- A backslash takes the line feed after it into the string. -/
theorem parse_escaped_lineFeed :
    parse "a = 'x\\\ny'" = .ok (.compare .equal ⟨"a"⟩ (.string "x\\\ny")) := by
  rw [parse, parseWith_eq_ok_iff]
  refine ⟨?_, .alone (.leaf (.compare (.path "a" []) .equal (.text "x\\\ny"))), ?_, ?_⟩
  · unfold TokenStream.Clean
    decide +kernel
  · decide +kernel
  · rfl

/-- The string with the line feed is printed with two backslashes before it and cannot be read. -/
theorem reparse_iff_lineFeed :
    parse "a = 'x\\\ny'" = .ok (.compare .equal ⟨"a"⟩ (.string "x\\\ny")) ∧
      ¬ ∃ q, parse (Predicate.compare .equal ⟨"a"⟩ (.string "x\\\ny")).render = .ok q ∧
        q.same (.compare .equal ⟨"a"⟩ (.string "x\\\ny")) = true := by
  refine ⟨parse_escaped_lineFeed, ?_⟩
  rw [(reparse_iff parse_escaped_lineFeed).1]
  decide

/-- Not every filter is read back from its printed form. -/
theorem not_forall_reparse :
    ¬ ∀ text p, parse text = .ok p → ∃ q, parse p.render = .ok q ∧ q.same p = true := by
  intro h
  obtain ⟨q, hq, hsame⟩ := h _ _ parse_escaped_lineFeed
  have hline := (conditions_of_parseWith_render (Predicate.wellFormed_compare _ _ _) hq hsame).1
  have hmem : "x\\\ny" ∈ (Predicate.compare .equal ⟨"a"⟩ (.string "x\\\ny")).texts := by
    decide
  exact hline _ hmem (by decide)

end RowFilter
