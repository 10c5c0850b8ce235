import RowFilter.Parser.Atom
import RowFilter.Proofs.Token.Tiling
import RowFilter.Proofs.Token.Writing

/-!
# String tokens

A text that goes on with a single quote goes on with a string exactly if a body and another quote
follow; the string ends at that quote. So no string of any text has a backslash at its end that
escapes nothing. Resolving escapes and lowering a pattern both have a rule for such a backslash, and
a parser never comes to need it: at every string of every text it answers what the scans without
this rule answer.
-/

set_option autoImplicit false

namespace RowFilter

/-! ## Scans without the rule for a last backslash -/

namespace Text

/-- Whether the last backslash escapes nothing can be decided by counting. -/
instance (cs : List Char) : Decidable (EndsUnpaired cs) :=
  inferInstanceAs (Decidable (_ = _))

/-- Resolves escapes. There is no rule for a backslash with nothing after it. -/
def unescapePairs? : List Char → Option (List Char)
  | [] => some []
  | ['\\'] => none
  | '\\' :: c :: cs => (unescapePairs? cs).map (resolve c ++ ·)
  | c :: cs => (unescapePairs? cs).map (c :: ·)

/-- The missing rule is the only difference, and it is missed exactly by an unpaired backslash. -/
theorem unescapePairs?_eq (cs : List Char) :
    unescapePairs? cs = if EndsUnpaired cs then none else some (unescape cs) := by
  fun_induction unescapePairs? cs with
  | case1 => rfl
  | case2 => rfl
  | case3 c cs ih =>
    simp only [endsUnpaired_escape, unescape, ih]
    split <;> rfl
  | case4 c cs hlast hescape ih =>
    have hc := ne_backslash hlast hescape
    rw [ih, unescape]
    · simp only [endsUnpaired_cons hc]
      split <;> rfl
    · exact hescape

end Text

namespace Pattern

/-- Reads the raw body of a pattern. There is no rule for a backslash with nothing after it. -/
def ofPairs? : List Char → Option (Option Pattern)
  | [] => some (some (equals ""))
  | ['\\'] => none
  | ['%'] => some (some (startsWith ""))
  | '%' :: _ :: _ => some none
  | '\\' :: c :: cs => (ofPairs? cs).map (Option.map (prepend (Text.resolve c)))
  | c :: cs => (ofPairs? cs).map (Option.map (prepend [c]))

/-- If the last backslash is paired, reading a pattern never misses the rule for one that is not. -/
theorem ofPairs?_eq_some {cs : List Char} (h : ¬ Text.EndsUnpaired cs) :
    ofPairs? cs = some (ofRaw? cs) := by
  fun_induction ofPairs? cs with
  | case1 => rfl
  | case2 => exact absurd rfl h
  | case3 => rfl
  | case4 c cs => rfl
  | case5 c cs ih =>
    rw [Text.endsUnpaired_escape] at h
    rw [ih h, ofRaw?]
    rfl
  | case6 c cs hlast hwildcard hinner hescape ih =>
    have hc := Text.ne_backslash hlast hescape
    rw [Text.endsUnpaired_cons hc] at h
    rw [ih h, ofRaw?]
    · rfl
    · exact hwildcard
    · exact hinner
    · exact hescape

end Pattern

/-! ## Strings of a text -/

/-- The data of a string token are the body of a string. -/
theorem Text.Writes.stringBody {w : List Char} {k : Kind} (h : Writes w k) :
    ∀ raw, k = .string raw → StringBody raw.toList := by
  intro raw hk
  cases h with
  | @string cs hclosed =>
    cases hk
    rw [String.toList_ofList]
    exact Enclosed.stringBody_of_closed hclosed
  | sign => exact absurd hk (Kind.ne_of_isSign (Lexeme.isSign_signKind _) rfl)
  | pair hpair => exact absurd hk (Kind.ne_of_isSign (Lexeme.isSign_of_pairKind? hpair) rfl)
  | _ => contradiction

/-- Every string token of a text carries the body of a string. -/
theorem Text.stringBody_of_mem_kinds {cs : List Char} {raw : String} (h : .string raw ∈ kinds cs) :
    StringBody raw.toList := by
  obtain ⟨w, -, hwrites⟩ := exists_writes_of_mem_kinds h rfl
  exact hwrites.stringBody raw rfl

/-- The scans without the rule for a last backslash are enough for whatever a parser does with a
string, which is a literal, a column or a pattern. -/
structure Parser.ReadsInPairs (raw : String) (more : List Kind) : Prop where
  value : ∃ value, Text.unescapePairs? raw.toList = some value ∧
    (Kind.string raw).literal? = some (.string (String.ofList value)) ∧
    literal.run (.string raw :: more) = ⟨.ok (.string (String.ofList value)), more, []⟩ ∧
    column.run (.string raw :: more) = ⟨.ok ⟨String.ofList value⟩, more, []⟩
  pattern : ∀ (negated : Bool) (c : Column), ∃ answer, Pattern.ofPairs? raw.toList = some answer ∧
    (pattern negated c).run (.string raw :: more) =
      match answer with
      | some p => ⟨.ok (p.toPredicate negated c), more, [⟨raw, p⟩]⟩
      | none => ⟨.error (.invalidPattern raw), more, []⟩

/-- A body whose last backslash is paired is read without the rule for one that is not. -/
theorem Parser.readsInPairs {raw : String} (h : ¬ Text.EndsUnpaired raw.toList)
    (more : List Kind) : ReadsInPairs raw more := by
  constructor
  · refine ⟨Text.unescape raw.toList, ?_, rfl, rfl, rfl⟩
    rw [Text.unescapePairs?_eq, if_neg h]
  · intro negated c
    refine ⟨_, Pattern.ofPairs?_eq_some h, ?_⟩
    simp only [Parser.pattern, run_peek, run_bind, run_advance, List.tail_cons, Outcome.andThen]
    cases Pattern.ofRaw? raw.toList <;> rfl

/-! ## The token at a quote -/

namespace Cursor

/-- At a character that is no blank the next token is the lexeme there. -/
theorem next_of_not_blank {c : Char} (h : Text.isBlank c = false) (position : Position)
    (cs : List Char) :
    next ⟨position, c :: cs⟩ =
      (token position (Lexeme.scan c cs), after position (Lexeme.scan c cs)) := by
  have hskip : skipBlanks ⟨position, c :: cs⟩ = ⟨position, c :: cs⟩ := by
    simp [skipBlanks, h, Position.advance]
  rw [next_of_cons (congrArg Cursor.rest hskip), hskip]

/-- At a quote the next token is the string that begins there. -/
theorem next_quote (position : Position) (cs : List Char) :
    next ⟨position, '\'' :: cs⟩ =
      (token position (Lexeme.string cs), after position (Lexeme.string cs)) :=
  next_of_not_blank (by decide) position cs

/-- A body with a quote after it is one token, and the cursor stops behind the quote. -/
theorem next_stringBody {body : List Char} (h : Text.StringBody body) (position : Position)
    (rest : List Char) :
    let written := '\'' :: (body ++ ['\''])
    next ⟨position, '\'' :: (body ++ '\'' :: rest)⟩ =
      (⟨.string (String.ofList body), String.ofList written, position⟩,
        ⟨position.advance written, rest⟩) := by
  simp only [next_quote, token, after, Lexeme.string, Enclosed.ofString_stringBody h, Enclosed.text]
  rfl

/-- Without a body and a quote after it the token is invalid. -/
theorem next_unterminated {cs : List Char}
    (h : ¬ ∃ body rest, cs = body ++ '\'' :: rest ∧ Text.StringBody body) (position : Position) :
    (next ⟨position, '\'' :: cs⟩).1.kind = .invalid .unterminatedString := by
  have hopen : (Enclosed.ofString cs).closed = false :=
    Bool.eq_false_iff.mpr (mt Enclosed.ofString_closed_iff.mp h)
  rw [next_quote, token, Lexeme.string, hopen]
  rfl

end Cursor

/-- Where a text goes on with a single quote, the next token is a string exactly if a body and
another quote follow. Body and rest are then told from the text, and the cursor stops before the
rest. Otherwise the token is invalid. So no string of a text ends in an unpaired backslash, and
wherever a parser comes to a string, the scans without a rule for such a backslash are enough for
whatever it does with it. -/
theorem string_tokens_exact (position : Position) (cs : List Char) (text : String) :
    let quoted : Cursor := ⟨position, '\'' :: cs⟩
    (∀ raw, quoted.next.1.kind = .string raw ↔
      ∃ rest, cs = raw.toList ++ '\'' :: rest ∧ Text.StringBody raw.toList) ∧
    (∀ body rest, cs = body ++ '\'' :: rest → Text.StringBody body →
      quoted.next.1.kind = .string (String.ofList body) ∧ quoted.next.2.rest = rest ∧
      ∀ body' rest', cs = body' ++ '\'' :: rest' → Text.StringBody body' →
        body' = body ∧ rest' = rest) ∧
    ((¬ ∃ body rest, cs = body ++ '\'' :: rest ∧ Text.StringBody body) →
      quoted.next.1.kind = .invalid .unterminatedString) ∧
    (∀ raw, .string raw ∈ (TokenStream.ofText text).kinds → ¬ Text.EndsUnpaired raw.toList) ∧
    (∀ raw more, .string raw :: more <:+ (TokenStream.ofText text).kinds →
      Parser.ReadsInPairs raw more) := by
  have hpaired : ∀ raw, .string raw ∈ (TokenStream.ofText text).kinds →
      ¬ Text.EndsUnpaired raw.toList := by
    intro raw hraw
    rw [TokenStream.kinds_ofText] at hraw
    exact (Text.stringBody_of_mem_kinds hraw).not_endsUnpaired
  refine ⟨?_, ?_, fun h => Cursor.next_unterminated h position, hpaired, ?_⟩
  · intro raw
    constructor
    · intro hkind
      by_cases h : ∃ body rest, cs = body ++ '\'' :: rest ∧ Text.StringBody body
      · obtain ⟨body, rest, rfl, hbody⟩ := h
        rw [Cursor.next_stringBody hbody] at hkind
        cases hkind
        rw [String.toList_ofList]
        exact ⟨rest, rfl, hbody⟩
      · rw [Cursor.next_unterminated h] at hkind
        contradiction
    · rintro ⟨rest, rfl, hbody⟩
      rw [Cursor.next_stringBody hbody, String.ofList_toList]
  · rintro body rest rfl hbody
    rw [Cursor.next_stringBody hbody]
    refine ⟨rfl, rfl, ?_⟩
    intro body' rest' heq hbody'
    exact hbody'.unique hbody heq.symm
  · intro raw more hsuffix
    exact Parser.readsInPairs (hpaired raw (hsuffix.subset List.mem_cons_self)) more

/-- An escaped quote does not close a string, and neither does the second of two backslashes keep
the quote after it open. -/
theorem string_tokens_exact_escapes :
    let closed : Cursor := ⟨Position.start, "'a\\'\\\\' b'".toList⟩
    let unclosed : Cursor := ⟨Position.start, "'a\\'".toList⟩
    closed.next.1.kind = .string "a\\'\\\\" ∧ closed.next.2.rest = " b'".toList ∧
      unclosed.next.1.kind = .invalid .unterminatedString ∧
      ¬ Text.EndsUnpaired "50\\%\\\\".toList ∧
      Parser.ReadsInPairs "50\\%\\\\" [.keyword (.connective .or), .word "b"] := by
  have hbody : Text.StringBody "a\\'\\\\".toList :=
    .char (by decide) (by decide) (by decide) (.escape _ (.escape _ .nil))
  have hunclosed : ¬ ∃ body rest, "a\\'".toList = body ++ '\'' :: rest ∧ Text.StringBody body :=
    mt Enclosed.ofString_closed_iff.mpr (by decide)
  have hstring : .string "50\\%\\\\" ∈ (TokenStream.ofText "a LIKE '50\\%\\\\' OR b").kinds := by
    decide +kernel
  obtain ⟨-, hclosed, -, hpaired, hreads⟩ := string_tokens_exact Position.start
    "a\\'\\\\' b'".toList "a LIKE '50\\%\\\\' OR b"
  obtain ⟨hkind, hrest, -⟩ := hclosed _ " b'".toList (by decide) hbody
  refine ⟨hkind, hrest, ?_, hpaired _ hstring, hreads _ _ ?_⟩
  · exact (string_tokens_exact Position.start "a\\'".toList "").2.2.1 hunclosed
  · exact ⟨[.word "a", .keyword .like], by decide +kernel⟩

/-! ## Text that the printer quotes -/

namespace Text

/-- The text in single quotes, with its percent signs escaped where it is part of a pattern. -/
def quoted (wildcards : Bool) (text : String) : String :=
  String.ofList ('\'' :: (escape wildcards text.toList ++ ['\'']))

/-- Strings are printed in quotes without escaping percent signs. -/
theorem quote_eq_quoted (text : String) : quote text = quoted false text :=
  rfl

/-- The pattern for a stem is the quoted stem with the wildcard put in before the closing quote. -/
theorem stemPattern_eq (stem : String) :
    Predicate.stemPattern stem = "'" ++ String.ofList (escape true stem.toList) ++ "%'" := by
  rw [← String.toList_inj]
  simp [Predicate.stemPattern]

end Text

/-- Quoted text in front of any other text is one string token, and nothing of what follows belongs
to it; resolving its escapes gives the text again. With percent signs escaped too, its body is a
pattern for exactly this text, and with a wildcard after it, which is how start tests are printed,
one for the texts that begin with it. Quoted text with a line feed in it is no token. -/
theorem quoted_tokens_exact (position : Position) (text : String) (wildcards : Bool)
    (rest : List Char) :
    let cursor : Cursor := ⟨position, (Text.quoted wildcards text).toList ++ rest⟩
    (Literal.string text).render = Text.quoted false text ∧
    ('\n' ∉ text.toList → ∃ raw : String,
      cursor.next.1.kind = .string raw ∧ cursor.next.1.text = Text.quoted wildcards text ∧
      cursor.next.2.rest = rest ∧ Kind.unescaped raw = text ∧
      (wildcards = true →
        Pattern.ofRaw? raw.toList = some (.equals text) ∧
        Pattern.ofRaw? (raw ++ "%").toList = some (.startsWith text) ∧
        ∀ op column, (Predicate.starts op column text).render =
          column.render ++ " " ++ op.text ++ " " ++ ("'" ++ raw ++ "%'"))) ∧
    ('\n' ∈ text.toList → cursor.next.1.kind = .invalid .unterminatedString) := by
  have hcursor : (Text.quoted wildcards text).toList ++ rest =
      '\'' :: (Text.escape wildcards text.toList ++ '\'' :: rest) := by
    simp [Text.quoted]
  rw [hcursor]
  refine ⟨Text.quote_eq_quoted text, ?_, ?_⟩
  · intro hlineFeed
    have hbody := Text.stringBody_escape wildcards hlineFeed
    refine ⟨String.ofList (Text.escape wildcards text.toList), ?_⟩
    rw [Cursor.next_stringBody hbody]
    refine ⟨rfl, rfl, rfl, ?_, ?_⟩
    · rw [Kind.unescaped, String.toList_ofList, Text.unescape_escape, String.ofList_toList]
    · rintro rfl
      refine ⟨?_, ?_, ?_⟩
      · rw [String.toList_ofList, Pattern.ofRaw?_escape_whole, String.ofList_toList]
      · rw [String.toList_append, String.toList_ofList]
        exact (Pattern.ofRaw?_escape _).trans (by rw [String.ofList_toList])
      · intro op column
        rw [Predicate.render, Text.stemPattern_eq]
  · intro hlineFeed
    have hopen := Enclosed.ofString_escape_lineFeed wildcards hlineFeed ('\'' :: rest)
    rw [Cursor.next_quote, Cursor.token, Lexeme.string, hopen]
    rfl

/-- A backslash and a percent sign at the end, with a quote right after the quoted text, and a line
feed. -/
theorem quoted_tokens_exact_backslash :
    let cursor : Cursor := ⟨Position.start, (Text.quoted true "it's 50%\\").toList ++ "'%".toList⟩
    let broken : Cursor := ⟨Position.start, (Text.quoted false "a\nb").toList ++ ['\'']⟩
    (∃ raw, cursor.next.1.kind = .string raw ∧ cursor.next.2.rest = "'%".toList ∧
      Kind.unescaped raw = "it's 50%\\" ∧
      Pattern.ofRaw? (raw ++ "%").toList = some (.startsWith "it's 50%\\")) ∧
      broken.next.1.kind = .invalid .unterminatedString := by
  constructor
  · obtain ⟨raw, hkind, -, hrest, hunescaped, hpattern⟩ :=
      (quoted_tokens_exact Position.start "it's 50%\\" true "'%".toList).2.1 (by decide)
    exact ⟨raw, hkind, hrest, hunescaped, (hpattern rfl).2.1⟩
  · exact (quoted_tokens_exact Position.start "a\nb" false ['\'']).2.2 (by decide)

end RowFilter
