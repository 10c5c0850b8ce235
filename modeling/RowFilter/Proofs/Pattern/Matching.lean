import Mathlib.Data.String.Basic
import RowFilter.Proofs.Evaluation.Basic
import RowFilter.Proofs.Pattern.Units

/-!
# What patterns match

A text matches a pattern if it can be cut into pieces, one for each unit of the body: any piece for
the wildcard, and for any other unit what it stands for. The predicate that a `LIKE` test is read as
says yes of the texts that match, and the one of a `NOT LIKE` test of those that do not.
-/

set_option autoImplicit false

namespace RowFilter

/-! ## Matching -/

namespace PatternUnit

/-- A unit matches what it stands for, and the wildcard matches anything. -/
def Matches (u : PatternUnit) (piece : List Char) : Prop :=
  u = wildcard ∨ piece = u.text

/-- The text is made of pieces that match the units one by one. -/
def MatchesAll : List PatternUnit → List Char → Prop
  | [], cs => cs = []
  | u :: us, cs => ∃ piece rest, cs = piece ++ rest ∧ u.Matches piece ∧ MatchesAll us rest

/-- Up to the first wildcard a text is what the units stand for. -/
theorem matchesAll_append {init : List PatternUnit} (h : wildcard ∉ init) (us : List PatternUnit)
    (cs : List Char) :
    MatchesAll (init ++ us) cs ↔ ∃ rest, cs = init.flatMap text ++ rest ∧ MatchesAll us rest := by
  induction init generalizing cs with
  | nil => simp
  | cons u init ih =>
    have hu : u ≠ wildcard := (List.ne_of_not_mem_cons h).symm
    have hinit := ih (List.not_mem_of_not_mem_cons h)
    rw [List.cons_append, MatchesAll, List.flatMap_cons]
    constructor
    · rintro ⟨piece, rest, rfl, hpiece, hrest⟩
      obtain ⟨more, rfl, hmore⟩ := (hinit rest).mp hrest
      refine ⟨more, ?_, hmore⟩
      rw [hpiece.resolve_left hu, List.append_assoc]
    · rintro ⟨rest, rfl, hrest⟩
      exact ⟨u.text, init.flatMap text ++ rest, List.append_assoc _ _ _, Or.inr rfl,
        (hinit _).mpr ⟨rest, rfl, hrest⟩⟩

/-- Without a wildcard the units match only the text that they stand for. -/
theorem matchesAll_of_not_mem {us : List PatternUnit} (h : wildcard ∉ us) (cs : List Char) :
    MatchesAll us cs ↔ cs = us.flatMap text := by
  have hall := matchesAll_append h [] cs
  rw [List.append_nil] at hall
  rw [hall]
  simp [MatchesAll]

/-- With the wildcard at the end the units match whatever begins with the text before it. -/
theorem matchesAll_append_wildcard {init : List PatternUnit} (h : wildcard ∉ init)
    (cs : List Char) : MatchesAll (init ++ [wildcard]) cs ↔ init.flatMap text <+: cs := by
  rw [matchesAll_append h]
  constructor
  · rintro ⟨rest, rfl, -⟩
    exact List.prefix_append _ _
  · rintro ⟨rest, rfl⟩
    exact ⟨rest, rfl, rest, [], (List.append_nil rest).symm, Or.inl rfl, rfl⟩

end PatternUnit

namespace Pattern

open PatternUnit

/-- The text matches the pattern with this raw body. -/
def Matches (raw text : String) : Prop :=
  MatchesAll (units raw.toList) text.toList

/-- The text is as the pattern asks. -/
def Holds (text : String) : Pattern → Prop
  | equals value => text = value
  | startsWith stem => stem.toList <+: text.toList

/-- What is understood by a body holds of the texts that match it. -/
theorem holds_iff_matches {raw : String} {p : Pattern} (h : ofRaw? raw.toList = some p)
    (text : String) : p.Holds text ↔ Matches raw text := by
  rw [ofRaw?_eq_pattern?] at h
  rw [Matches]
  rcases wildcard_cases (units raw.toList) with hnone | ⟨init, hunits, hinit⟩ |
    ⟨init, u, more, hunits, hinit⟩
  · rw [pattern?_of_not_mem hnone] at h
    cases h
    rw [matchesAll_of_not_mem hnone, Holds, ← String.toList_inj, String.toList_ofList]
  · rw [hunits, pattern?_append_wildcard hinit] at h
    cases h
    rw [hunits, matchesAll_append_wildcard hinit, Holds, String.toList_ofList]
  · rw [hunits, pattern?_append_wildcard_cons hinit] at h
    contradiction

end Pattern

/-- Only a body with a meaning is read, as the predicate that asks for its pattern. -/
theorem Parser.ofRaw?_of_run_pattern {negated : Bool} {c : Column} {raw : String} {ks : List Kind}
    {p : Predicate} (h : ((pattern negated c).run (.string raw :: ks)).result = .ok p) :
    ∃ pattern, Pattern.ofRaw? raw.toList = some pattern ∧ p = pattern.toPredicate negated c := by
  simp only [pattern, run_peek, run_bind, run_advance, List.tail_cons, Outcome.andThen] at h
  cases hraw : Pattern.ofRaw? raw.toList with
  | some pattern =>
    rw [hraw] at h
    cases h
    exact ⟨pattern, rfl, rfl⟩
  | none =>
    rw [hraw] at h
    cases h

/-! ## Predicates on texts -/

namespace Interpretation

variable {V K : Type}

/-- The texts among the values: they compare with string literals and begin as texts do. -/
structure Texts (I : Interpretation V K) where
  value : String → V
  key_eq_iff : ∀ s t, I.key (value s) = I.literal (.string t) ↔ s = t
  beginsWith_iff : ∀ s stem, I.beginsWith (value s) stem = true ↔ stem.toList <+: s.toList

/-- The interpretation of columns that hold texts, where all literals are compared as texts. -/
def ofTexts : Interpretation String String where
  key s := s
  literal
    | .string s => s
    | value => value.render
  isNaN _ := false
  beginsWith s stem := stem.toList.isPrefixOf s.toList
  nullIsNaN := .unknown

/-- All values of this interpretation are texts. -/
def ofTexts.texts : Texts ofTexts where
  value s := s
  key_eq_iff _ _ := Iff.rfl
  beginsWith_iff _ _ := List.isPrefixOf_iff_prefix

variable [LinearOrder K] {I : Interpretation V K} (T : I.Texts) {row : Column → Option V}
  {c : Column} {s : String}

/-- The predicate of a pattern says yes of a text exactly if the pattern holds of it, and its
negated form exactly if the pattern does not. -/
theorem truth_toPredicate (hrow : row c = some (T.value s)) (p : Pattern) :
    (I.truth row (p.toPredicate false c) = .yes ↔ p.Holds s) ∧
      (I.truth row (p.toPredicate true c) = .yes ↔ ¬ p.Holds s) := by
  cases p with
  | equals value =>
    have hkey := T.key_eq_iff s value
    simp [Pattern.toPredicate, truth, hrow, Truth.ofValue?, Truth.ofBool_eq_yes_iff,
      Comparison.holds, Pattern.Holds, hkey]
  | startsWith stem =>
    have hbegins := T.beginsWith_iff s stem
    simp [Pattern.toPredicate, truth, hrow, Truth.ofValue?, Truth.ofBool_eq_yes_iff, starts,
      Pattern.Holds, ← hbegins]

/-- What is read after `LIKE` says yes of the texts that match the body, and what is read after
`NOT LIKE` of the texts that do not match it. -/
theorem truth_pattern_iff_matches (hrow : row c = some (T.value s)) (raw : String)
    (ks : List Kind) :
    (∀ p, ((Parser.pattern false c).run (.string raw :: ks)).result = .ok p →
      (I.truth row p = .yes ↔ Pattern.Matches raw s)) ∧
    (∀ p, ((Parser.pattern true c).run (.string raw :: ks)).result = .ok p →
      (I.truth row p = .yes ↔ ¬ Pattern.Matches raw s)) := by
  constructor
  · intro p hp
    obtain ⟨pattern, hraw, rfl⟩ := Parser.ofRaw?_of_run_pattern hp
    rw [(truth_toPredicate T hrow pattern).1, Pattern.holds_iff_matches hraw]
  · intro p hp
    obtain ⟨pattern, hraw, rfl⟩ := Parser.ofRaw?_of_run_pattern hp
    rw [(truth_toPredicate T hrow pattern).2, Pattern.holds_iff_matches hraw]

/-- An escaped percent sign before the wildcard is to be found in the text. -/
theorem truth_pattern_iff_matches_escaped :
    Pattern.Matches "50\\%%" "50% off" ∧ ¬ Pattern.Matches "50\\%%" "500" := by
  let row (text : String) : Column → Option String := fun _ => some text
  have hread : ∀ negated, ((Parser.pattern negated ⟨"a"⟩).run [.string "50\\%%"]).result =
      .ok ((Pattern.startsWith "50%").toPredicate negated ⟨"a"⟩) := by
    intro negated
    cases negated <;> rfl
  have hrow : ∀ text, row text ⟨"a"⟩ = some (ofTexts.texts.value text) := fun _ => rfl
  constructor
  · exact ((truth_pattern_iff_matches ofTexts.texts (hrow "50% off") _ []).1 _
      (hread false)).mp (by decide)
  · exact ((truth_pattern_iff_matches ofTexts.texts (hrow "500") _ []).2 _
      (hread true)).mp (by decide)

end Interpretation

end RowFilter
