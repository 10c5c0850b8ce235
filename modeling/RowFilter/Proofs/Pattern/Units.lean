import RowFilter.Proofs.Grammar.Exactness
import RowFilter.Proofs.RoundTrip.Tree

/-!
# The units of a pattern

The raw body of a pattern is cut from left to right into units: a backslash with the character after
it, or one character. The one unit that is a percent sign on its own is the wildcard. A pattern has
a meaning if no unit but the last one is the wildcard. Without the wildcard it asks for what the
body says as a string, so a `LIKE` test is the same as a comparison with this string.
-/

set_option autoImplicit false

namespace RowFilter

/-- A piece of the raw body of a pattern. -/
inductive PatternUnit where
  /-- A backslash and the character after it. -/
  | escape (c : Char)
  | char (c : Char)
  deriving DecidableEq, Repr

namespace PatternUnit

/-- A percent sign that is not escaped. -/
def wildcard : PatternUnit :=
  char '%'

/-- What a unit stands for, unless it is the wildcard: an escaped quote, backslash or percent sign
stands for itself, any other escape for both of its characters. -/
def text : PatternUnit → List Char
  | escape c => if c ∈ ['\'', '\\', '%'] then [c] else ['\\', c]
  | char c => [c]

/-- The text of an escaped character is what unescaping makes of it. -/
theorem text_escape (c : Char) : (escape c).text = Text.resolve c := by
  by_cases hquote : c = '\''
  · subst hquote
    rfl
  · by_cases hbackslash : c = '\\'
    · subst hbackslash
      rfl
    · simp [text, Text.resolve, Text.needsEscape, hquote, hbackslash]

/-- The units of a body from left to right. -/
def units : List Char → List PatternUnit
  | [] => []
  | '\\' :: c :: cs => escape c :: units cs
  | c :: cs => char c :: units cs

/-- A character other than a backslash is a unit of its own. -/
theorem units_of_ne {c : Char} (h : c ≠ '\\') (cs : List Char) :
    units (c :: cs) = char c :: units cs := by
  rw [units]
  intro _ _ hc
  exact absurd hc h

/-- Only the empty body has no units. -/
theorem units_eq_nil_iff {cs : List Char} : units cs = [] ↔ cs = [] := by
  fun_cases units cs <;> simp

/-- A body with a last unit is not empty. -/
theorem ne_nil_of_units_eq_append {cs : List Char} {init : List PatternUnit} {u : PatternUnit}
    (h : units cs = init ++ [u]) : cs ≠ [] := by
  rintro rfl
  exact List.append_ne_nil_of_right_ne_nil init (List.cons_ne_nil u []) h.symm

/-- A string stands for what the units of its body stand for, the wildcard being a character like
any other. -/
theorem unescape_eq_flatMap_units (cs : List Char) :
    Text.unescape cs = (units cs).flatMap text := by
  fun_induction units cs with
  | case1 => rfl
  | case2 c cs ih => rw [Text.unescape, ih, List.flatMap_cons, text_escape]
  | case3 c cs h ih =>
    rw [Text.unescape, ih, List.flatMap_cons, text, List.singleton_append]
    exact h

/-- Without its last character, the wildcard, a body has the units before the last one. -/
theorem units_dropLast {cs : List Char} {init : List PatternUnit}
    (h : units cs = init ++ [wildcard]) : units cs.dropLast = init := by
  fun_induction units cs generalizing init with
  | case1 => simp at h
  | case2 c cs ih =>
    cases init with
    | nil => simp [wildcard] at h
    | cons u init =>
      obtain ⟨rfl, hcs⟩ := List.cons.inj h
      have hne := ne_nil_of_units_eq_append hcs
      rw [List.dropLast_cons_of_ne_nil (List.cons_ne_nil c cs), List.dropLast_cons_of_ne_nil hne,
        units, ih hcs]
  | case3 c cs hescape ih =>
    cases init with
    | nil =>
      obtain ⟨-, hcs⟩ := List.cons.inj h
      rw [units_eq_nil_iff.mp hcs]
      rfl
    | cons u init =>
      obtain ⟨rfl, hcs⟩ := List.cons.inj h
      have hne := ne_nil_of_units_eq_append hcs
      have hc : c ≠ '\\' := by
        rintro rfl
        obtain ⟨d, ds, rfl⟩ := List.exists_cons_of_ne_nil hne
        exact hescape d ds rfl rfl
      rw [List.dropLast_cons_of_ne_nil hne, units_of_ne hc, ih hcs]

/-- What the units of a body ask for: the text before the wildcard, which has to be the last one. -/
def pattern? : List PatternUnit → Option Pattern
  | [] => some (.equals "")
  | u :: us =>
    if u ≠ wildcard then (pattern? us).map (.prepend u.text)
    else if us.isEmpty then some (.startsWith "")
    else none

/-- Patterns are read unit by unit. -/
theorem ofRaw?_eq_pattern? (cs : List Char) : Pattern.ofRaw? cs = pattern? (units cs) := by
  fun_induction units cs with
  | case1 => rfl
  | case2 c cs ih => rw [Pattern.ofRaw?, ih, pattern?, if_pos (by simp [wildcard]), text_escape]
  | case3 c cs hescape ih =>
    by_cases hc : c = '%'
    · subst hc
      cases cs with
      | nil => rfl
      | cons d ds =>
        have hne : units (d :: ds) ≠ [] := by simp [units_eq_nil_iff]
        rw [Pattern.ofRaw?, pattern?, if_neg (by simp [wildcard]),
          if_neg (by simpa using hne)]
    · have hunit : char c ≠ wildcard := by simpa [wildcard] using hc
      rw [pattern?, if_pos hunit, ← ih, text, Pattern.ofRaw?]
      · exact fun hwildcard => absurd hwildcard hc
      · exact fun _ _ hwildcard => absurd hwildcard hc
      · exact hescape

/-- Up to the first wildcard the units are only put in front. -/
theorem pattern?_append {init : List PatternUnit} (h : wildcard ∉ init) (us : List PatternUnit) :
    pattern? (init ++ us) = (pattern? us).map (.prepend (init.flatMap text)) := by
  induction init with
  | nil =>
    rw [List.nil_append, List.flatMap_nil]
    cases pattern? us with
    | none => rfl
    | some p => exact congrArg some p.prepend_nil.symm
  | cons u init ih =>
    have hu : u ≠ wildcard := (List.ne_of_not_mem_cons h).symm
    rw [List.cons_append, pattern?, if_pos hu, ih (List.not_mem_of_not_mem_cons h),
      Option.map_map, List.flatMap_cons]
    cases pattern? us with
    | none => rfl
    | some p => exact congrArg some (p.prepend_append _ _).symm

/-- Units without a wildcard ask for equality with their text. -/
theorem pattern?_of_not_mem {us : List PatternUnit} (h : wildcard ∉ us) :
    pattern? us = some (.equals (String.ofList (us.flatMap text))) := by
  have hall := pattern?_append h []
  rw [List.append_nil] at hall
  rw [hall, pattern?, Option.map_some, Pattern.prepend, String.append_empty]

/-- Units with the wildcard at the end ask for a beginning. -/
theorem pattern?_append_wildcard {init : List PatternUnit} (h : wildcard ∉ init) :
    pattern? (init ++ [wildcard]) = some (.startsWith (String.ofList (init.flatMap text))) := by
  have hlast : pattern? [wildcard] = some (.startsWith "") := rfl
  rw [pattern?_append h, hlast, Option.map_some, Pattern.prepend, String.append_empty]

/-- A wildcard before another unit has no meaning. -/
theorem pattern?_append_wildcard_cons {init : List PatternUnit} (h : wildcard ∉ init)
    (u : PatternUnit) (us : List PatternUnit) : pattern? (init ++ wildcard :: u :: us) = none :=
  pattern?_append h _

/-- There is no wildcard, or the first one is the last unit, or it stands before another unit. -/
theorem wildcard_cases (us : List PatternUnit) :
    wildcard ∉ us ∨ (∃ init, us = init ++ [wildcard] ∧ wildcard ∉ init) ∨
      ∃ init u more, us = init ++ wildcard :: u :: more ∧ wildcard ∉ init := by
  by_cases hmem : wildcard ∈ us
  · obtain ⟨init, more, rfl, hinit⟩ := List.eq_append_cons_of_mem hmem
    cases more with
    | nil => exact Or.inr (Or.inl ⟨init, rfl, hinit⟩)
    | cons u more => exact Or.inr (Or.inr ⟨init, u, more, rfl, hinit⟩)
  · exact Or.inl hmem

end PatternUnit

namespace Grammar

/-- A text that is one leaf is answered with the meaning of the leaf. -/
theorem parseWith_of_leaf {text : String} {l : Leaf}
    (h : (TokenStream.ofText text).kinds = l.kinds) (config : Config) :
    parseWith config text = l.meaning.mapError Violation.error := by
  have hclean : (TokenStream.ofText text).Clean := by
    rw [TokenStream.clean_iff, h]
    exact l.error?_of_mem_kinds
  have hkinds : (Phrase.leaf l).alone.kinds = (TokenStream.ofText text).kinds := by
    rw [Phrase.kinds_alone, h, Phrase.kinds]
  have hdepth : (Phrase.leaf l).alone.depth ≤ config.maxDepth := by
    rw [Phrase.depth_alone]
    exact Nat.zero_le _
  have hread : (Phrase.leaf l).alone.read config.maxDepth = l.meaning.mapError Violation.fault := by
    rw [Phrase.read_of_depth_le hdepth, Phrase.meaning_alone, Phrase.meaning]
  cases hmeaning : l.meaning with
  | ok p =>
    rw [hmeaning] at hread
    exact parseWith_eq_ok_iff.mpr ⟨hclean, _, hkinds, hread⟩
  | error v =>
    rw [hmeaning] at hread
    obtain ⟨token, herror⟩ := parseWith_of_read_error hclean hkinds hread
    rw [herror, Violation.ofFault_fault]
    rfl

end Grammar

/-! ## What a body is read as -/

namespace Pattern

open PatternUnit

/-- No unit of the body is the wildcard. -/
def WithoutWildcard (raw : String) : Prop :=
  wildcard ∉ units raw.toList

/-- The last unit of the body is the wildcard, and no other unit is. -/
def EndsInWildcard (raw : String) : Prop :=
  ∃ init, units raw.toList = init ++ [wildcard] ∧ wildcard ∉ init

/-- What a text begins with if it matches a body that ends in the wildcard. -/
def stem (raw : String) : String :=
  String.ofList (Text.unescape raw.toList.dropLast)

variable {raw : String}

/-- A body without a wildcard is read as equality with its unescaped text. -/
theorem ofRaw?_of_withoutWildcard (h : WithoutWildcard raw) :
    ofRaw? raw.toList = some (.equals (Kind.unescaped raw)) := by
  rw [ofRaw?_eq_pattern?, pattern?_of_not_mem h, Kind.unescaped, unescape_eq_flatMap_units]

/-- A body that ends in its only wildcard is read as a beginning. -/
theorem ofRaw?_of_endsInWildcard (h : EndsInWildcard raw) :
    ofRaw? raw.toList = some (.startsWith (stem raw)) := by
  obtain ⟨init, hunits, hinit⟩ := h
  rw [ofRaw?_eq_pattern?, hunits, pattern?_append_wildcard hinit, stem, unescape_eq_flatMap_units,
    units_dropLast hunits]

/-- Every other body is no pattern. -/
theorem ofRaw?_eq_none (hsome : ¬ WithoutWildcard raw) (hlast : ¬ EndsInWildcard raw) :
    ofRaw? raw.toList = none := by
  rw [ofRaw?_eq_pattern?]
  rcases wildcard_cases (units raw.toList) with hnone | hend | ⟨init, u, more, hunits, hinit⟩
  · exact absurd hnone hsome
  · exact absurd hend hlast
  · rw [hunits]
    exact pattern?_append_wildcard_cons hinit u more

end Pattern

section

open Grammar

/-- A `LIKE` test is read as its pattern asks. Without a wildcard it is the comparison with the body
as a string, and both are read as the same predicate. If the last unit is the only wildcard, it asks
for the beginning, which is the body without its last character as a string. Any other body has no
meaning and is the error of the text. -/
theorem parseWith_like_cases (raw : String) :
    (Pattern.WithoutWildcard raw →
      Pattern.ofRaw? raw.toList = some (.equals (Kind.unescaped raw)) ∧
      ∀ (config : Config) (c : ColumnPhrase) (negated : Bool) (like compare : String),
        let op : Comparison := if negated then .notEqual else .equal
        (TokenStream.ofText like).kinds = (Leaf.like c negated raw).kinds →
        (TokenStream.ofText compare).kinds = (Leaf.compare c op (.text raw)).kinds →
        let p : Predicate := .compare op c.column (.string (Kind.unescaped raw))
        parseWith config like = .ok p ∧ parseWith config compare = .ok p) ∧
    (Pattern.EndsInWildcard raw →
      Pattern.ofRaw? raw.toList = some (.startsWith (Pattern.stem raw)) ∧
      ∀ (config : Config) (c : ColumnPhrase) (negated : Bool) (like : String),
        let op : StartTest := if negated then .notStartsWith else .startsWith
        (TokenStream.ofText like).kinds = (Leaf.like c negated raw).kinds →
        parseWith config like = .ok (.starts op c.column (Pattern.stem raw))) ∧
    (¬ Pattern.WithoutWildcard raw → ¬ Pattern.EndsInWildcard raw →
      Pattern.ofRaw? raw.toList = none ∧
      ∀ (config : Config) (c : ColumnPhrase) (negated : Bool) (like : String),
        (TokenStream.ofText like).kinds = (Leaf.like c negated raw).kinds →
        parseWith config like = .error (.invalidPattern raw)) := by
  refine ⟨fun h => ?_, fun h => ?_, fun hsome hlast => ?_⟩
  · have hraw := Pattern.ofRaw?_of_withoutWildcard h
    refine ⟨hraw, ?_⟩
    intro config c negated like compare op hlike hcompare p
    constructor
    · rw [parseWith_of_leaf hlike, Leaf.meaning, hraw]
      rfl
    · rw [parseWith_of_leaf hcompare, Leaf.meaning]
      rfl
  · have hraw := Pattern.ofRaw?_of_endsInWildcard h
    refine ⟨hraw, ?_⟩
    intro config c negated like op hlike
    rw [parseWith_of_leaf hlike, Leaf.meaning, hraw]
    rfl
  · have hraw := Pattern.ofRaw?_eq_none hsome hlast
    refine ⟨hraw, ?_⟩
    intro config c negated like hlike
    rw [parseWith_of_leaf hlike, Leaf.meaning, hraw]
    rfl

/-- A percent sign after one backslash is no wildcard, after two it is one, and a wildcard before
another one has no meaning. -/
theorem parseWith_like_cases_backslash :
    (parseWith ⟨0⟩ "a LIKE '50\\%'" = .ok (.compare .equal ⟨"a"⟩ (.string "50%")) ∧
      parseWith ⟨0⟩ "a = '50\\%'" = .ok (.compare .equal ⟨"a"⟩ (.string "50%"))) ∧
      parseWith ⟨0⟩ "'a' NOT LIKE '50\\\\%'" = .ok (.starts .notStartsWith ⟨"a"⟩ "50\\") ∧
      parseWith ⟨0⟩ "a LIKE '50%%'" = .error (.invalidPattern "50%%") := by
  refine ⟨?_, ?_, ?_⟩
  · have hraw : Pattern.WithoutWildcard "50\\%" := by
      unfold Pattern.WithoutWildcard
      decide
    exact ((parseWith_like_cases "50\\%").1 hraw).2 ⟨0⟩ (.path "a" []) false _ _
      (by decide +kernel) (by decide +kernel)
  · have hraw : Pattern.EndsInWildcard "50\\\\%" :=
      ⟨[.char '5', .char '0', .escape '\\'], by decide, by decide⟩
    exact ((parseWith_like_cases "50\\\\%").2.1 hraw).2 ⟨0⟩ (.text "a") true _ (by decide +kernel)
  · have hsome : ¬ Pattern.WithoutWildcard "50%%" := by
      unfold Pattern.WithoutWildcard
      decide
    have hlast : ¬ Pattern.EndsInWildcard "50%%" := by
      rintro ⟨init, hunits, hinit⟩
      have hdrop := congrArg List.dropLast hunits
      rw [List.dropLast_concat] at hdrop
      rw [← hdrop] at hinit
      revert hinit
      decide
    exact ((parseWith_like_cases "50%%").2.2 hsome hlast).2 ⟨0⟩ (.path "a" []) false _
      (by decide +kernel)

end

end RowFilter
