import Mathlib.Data.List.Forall2
import RowFilter.Proofs.Grammar.Exactness
import RowFilter.Proofs.Session.Outcome
import RowFilter.Proofs.Token.Tiling
import RowFilter.Proofs.Token.Writing

/-!
# Spelling does not matter

A text without invalid tokens may be written again, token by token: as in the text or as its kind is
shown, keywords in another case, equality and inequality by their other signs, and with other blanks
between the tokens. The new text has the same token kinds, and since reading sees nothing but these
it is answered in the same way: by the same predicate, or by the same error at the same token.
-/

set_option autoImplicit false

namespace RowFilter

/-! ## Spellings of a token -/

/-- The characters are a way to write a token again. -/
inductive Token.Respells (t : Token) : List Char → Prop
  /-- The text of the token itself. -/
  | source : Respells t t.text.toList
  /-- The usual spelling of its kind. -/
  | shown : Respells t t.kind.text.toList
  /-- A keyword in any case. -/
  | anyCase {k : Keyword} {w : List Char} (hkind : t.kind = .keyword k)
    (hcase : w.map Char.toUpper = k.text.toList) : Respells t w
  /-- Either sign of equality. -/
  | equal {w : List Char} (hkind : t.kind = .comparison .equal)
    (hsign : w = ['='] ∨ w = ['=', '=']) : Respells t w
  /-- Either sign of inequality. -/
  | notEqual {w : List Char} (hkind : t.kind = .comparison .notEqual)
    (hsign : w = ['!', '='] ∨ w = ['<', '>']) : Respells t w

/-- A respelled token is written in a way that its kind allows. -/
theorem Token.Respells.writes {t : Token} {w : List Char} (h : t.Respells w)
    (ht : Text.Writes t.text.toList t.kind) : Text.Writes w t.kind := by
  cases h with
  | source => exact ht
  | shown => exact ht.shown
  | anyCase hkind hcase =>
    rw [hkind]
    exact .keyword hcase
  | equal hkind hsign =>
    rw [hkind]
    rcases hsign with rfl | rfl
    · exact .comparison .equal
    · exact .pair rfl
  | notEqual hkind hsign =>
    rw [hkind]
    rcases hsign with rfl | rfl
    · exact .comparison .notEqual
    · exact .pair rfl

/-- The text of a valid token is a way to write its kind. -/
theorem TokenStream.writes_of_mem {text : String} {t : Token} (ht : t ∈ (ofText text).tokens)
    (hvalid : t.kind.error? = none) : Text.Writes t.text.toList t.kind := by
  have hmem : t ∈ (ofText text).withEnd := List.mem_append_left _ ht
  obtain ⟨c, cs, hkind, htext⟩ :=
    (Cursor.ofText text).emits_stream.exists_scan t hmem (kind_ne_eof text t ht)
  rw [hkind] at hvalid ⊢
  rw [htext]
  exact Lexeme.writes_scan hvalid

/-! ## Spellings of a text -/

namespace Text

/-- Blanks in front add no tokens. -/
theorem kinds_blanks {gap : List Char} (h : ∀ c ∈ gap, isBlank c = true) (cs : List Char) :
    kinds (gap ++ cs) = kinds cs := by
  induction gap with
  | nil => rfl
  | cons c gap ih =>
    obtain ⟨hc, hgap⟩ := List.forall_mem_cons.mp h
    rw [List.cons_append, kinds_of_isBlank hc, ih hgap]

/-- Blanks are a break. -/
theorem breaks_blanks {gap : List Char} (h : ∀ c ∈ gap, isBlank c = true) {cs : List Char}
    (hcs : gap = [] → cs = []) : Breaks (gap ++ cs) := by
  cases gap with
  | nil =>
    rw [hcs rfl]
    intro c hc
    simp at hc
  | cons c gap =>
    have hblank := h c List.mem_cons_self
    intro d hd
    cases hd
    refine ⟨?_, ?_, ?_, ?_, ?_⟩
    · exact Bool.eq_false_iff.mpr fun hword => by simp [isBlank_of_isWordChar hword] at hblank
    · exact Bool.eq_false_iff.mpr fun hdigit => by simp [isBlank_of_isDigit hdigit] at hblank
    all_goals
      rintro rfl
      revert hblank
      decide

end Text

/-- Pieces with gaps before them and a gap at the end, in which tokens are written again: the gaps
are blanks, and none of those between two pieces is empty. -/
structure Respelling (ts : List Token) (gaps pieces : List (List Char)) (last : List Char) :
    Prop where
  pieces : List.Forall₂ Token.Respells ts pieces
  length_eq : gaps.length = ts.length
  blank : ∀ gap ∈ gaps, ∀ c ∈ gap, Text.isBlank c = true
  blank_last : ∀ c ∈ last, Text.isBlank c = true
  apart : ∀ gap ∈ gaps.tail, gap ≠ []

/-- The kinds of a text that is written again are those of its tokens. The induction is on the
tokens; each piece stands before the next gap, or before the end. -/
theorem Respelling.kinds_eq {ts : List Token} {gaps pieces : List (List Char)} {last : List Char}
    (h : Respelling ts gaps pieces last)
    (hts : ∀ t ∈ ts, Text.Writes t.text.toList t.kind) :
    Text.kinds (Text.weave gaps pieces ++ last) = ts.map Token.kind := by
  induction ts generalizing gaps pieces with
  | nil =>
    have hgaps := List.length_eq_zero_iff.mp h.length_eq
    rw [hgaps, Text.weave_nil, List.nil_append, List.map_nil, ← List.append_nil last,
      Text.kinds_blanks h.blank_last, Text.kinds_nil]
  | cons t ts ih =>
    obtain ⟨hall, hlength, hblank, hlast, hapart⟩ := h
    obtain ⟨piece, pieces, hpiece, hpieces, rfl⟩ := List.forall₂_cons_left_iff.mp hall
    obtain ⟨gap, gaps, rfl⟩ := List.exists_cons_of_length_eq_add_one hlength
    obtain ⟨hgap, hgaps⟩ := List.forall_mem_cons.mp hblank
    obtain ⟨ht, hts⟩ := List.forall_mem_cons.mp hts
    rw [List.tail_cons] at hapart
    have hrest : Respelling ts gaps pieces last :=
      ⟨hpieces, Nat.succ.inj hlength, hgaps, hlast, fun g hg => hapart g (List.mem_of_mem_tail hg)⟩
    -- only the gap before the first token may be empty, so every piece ends at a break
    have hbreaks : Text.Breaks (Text.weave gaps pieces ++ last) := by
      cases gaps with
      | nil =>
        rw [Text.weave_nil, List.nil_append, ← List.append_nil last]
        exact Text.breaks_blanks hlast fun _ => rfl
      | cons g gaps =>
        obtain ⟨p, pieces, rfl⟩ : ∃ p ps, pieces = p :: ps := by
          apply List.exists_cons_of_length_eq_add_one
          rw [← hpieces.length_eq, ← Nat.succ.inj hlength]
          rfl
        rw [Text.weave_cons, List.append_assoc, List.append_assoc]
        apply Text.breaks_blanks (hgaps g List.mem_cons_self)
        intro hempty
        exact absurd hempty (hapart g List.mem_cons_self)
    rw [Text.weave_cons, List.append_assoc, List.append_assoc, Text.kinds_blanks hgap,
      (hpiece.writes ht).isToken _ hbreaks, ih hrest hts, List.map_cons]

/-! ## Answers -/

/-- The errors are of the same kind and say the same, and about the tokens at the same place of two
streams if they are about tokens. -/
inductive ParseError.SameAt (s s' : TokenStream) : ParseError → ParseError → Prop
  | unexpectedToken {i : Nat} {t t' : Token} (expected : Expected) (ht : s.withEnd[i]? = some t)
    (ht' : s'.withEnd[i]? = some t') :
    SameAt s s' (.unexpectedToken expected t) (.unexpectedToken expected t')
  | nestingTooDeep {i : Nat} {t t' : Token} (limit : Nat) (ht : s.withEnd[i]? = some t)
    (ht' : s'.withEnd[i]? = some t') :
    SameAt s s' (.nestingTooDeep limit t.position) (.nestingTooDeep limit t'.position)
  | invalidSet (cause : TypeError) : SameAt s s' (.invalidSet cause) (.invalidSet cause)
  | invalidPattern (raw : String) : SameAt s s' (.invalidPattern raw) (.invalidPattern raw)

/-- Both texts are read as the same predicate, or fail with the same error at the same place. -/
inductive SameAnswer (s s' : TokenStream) :
    Except ParseError Predicate → Except ParseError Predicate → Prop
  | ok (p : Predicate) : SameAnswer s s' (.ok p) (.ok p)
  | error {e e' : ParseError} (h : e.SameAt s s' e') : SameAnswer s s' (.error e) (.error e')

/-- A fault is reported alike at the tokens with the same index. -/
theorem ParseError.sameAt_ofFault {s s' : TokenStream} {i : Nat} {t t' : Token}
    (ht : s.withEnd[i]? = some t) (ht' : s'.withEnd[i]? = some t') (limit : Nat) (fault : Fault) :
    (ofFault limit t fault).SameAt s s' (ofFault limit t' fault) := by
  cases fault with
  | unexpected expected => exact .unexpectedToken expected ht ht'
  | tooDeep => exact .nestingTooDeep limit ht ht'
  | invalidSet cause => exact .invalidSet cause
  | invalidPattern raw => exact .invalidPattern raw

/-- Reading sees nothing of a text but the kinds of its tokens. -/
theorem sameAnswer_of_kinds_eq {text text' : String} (hclean : (TokenStream.ofText text).Clean)
    (hkinds : (TokenStream.ofText text').kinds = (TokenStream.ofText text).kinds)
    (config : Config) :
    SameAnswer (TokenStream.ofText text) (TokenStream.ofText text') (parseWith config text)
      (parseWith config text') := by
  have hclean' : (TokenStream.ofText text').Clean := by
    rw [TokenStream.clean_iff, hkinds]
    exact TokenStream.clean_iff.mp hclean
  let s := Session.start config text
  let s' := Session.start config text'
  have houtcome : s'.outcome = s.outcome :=
    congrArg (Parser.run (Parser.expression config.maxDepth)) hkinds
  have hlength : s'.stream.tokens.length = s.stream.tokens.length := by
    have hkindsLength := congrArg List.length hkinds
    rwa [TokenStream.kinds, TokenStream.kinds, List.length_map, List.length_map] at hkindsLength
  have hread : parseWith config text = (s.readingOf s.outcome.closed).result :=
    Grammar.parseWith_of_clean hclean
  have hread' : parseWith config text' = (s'.readingOf s.outcome.closed).result := by
    rw [← houtcome]
    exact Grammar.parseWith_of_clean hclean'
  rw [hread, hread']
  generalize s.outcome.closed = o
  -- both sessions stand before as many tokens
  have hindex : (s'.leave o.rest.length).index = (s.leave o.rest.length).index := by
    show s'.stream.tokens.length -
        (s'.stream.tokens.drop (s'.stream.tokens.length - o.rest.length)).length =
      s.stream.tokens.length -
        (s.stream.tokens.drop (s.stream.tokens.length - o.rest.length)).length
    rw [List.length_drop, List.length_drop, hlength]
  have htoken := Session.getElem?_withEnd_index (s.rest_leave_suffix o.rest.length)
  have htoken' := Session.getElem?_withEnd_index (s'.rest_leave_suffix o.rest.length)
  rw [hindex] at htoken'
  cases hresult : o.result with
  | ok p =>
    simp only [Session.readingOf, hresult, Except.mapError]
    exact .ok p
  | error fault =>
    simp only [Session.readingOf, hresult, Except.mapError]
    exact .error (ParseError.sameAt_ofFault htoken htoken' config.maxDepth fault)

/-- Spelling does not matter. If the tokens of a text without invalid tokens are written again, each
in one of its spellings, with blanks between them and perhaps around them, the new text has the same
token kinds and is answered in the same way, under every bound on nesting. -/
theorem parseWith_respelled {text : String} {gaps pieces : List (List Char)} {last : List Char}
    (hclean : (TokenStream.ofText text).Clean)
    (h : Respelling (TokenStream.ofText text).tokens gaps pieces last) (config : Config) :
    (TokenStream.ofText (String.ofList (Text.weave gaps pieces ++ last))).kinds =
        (TokenStream.ofText text).kinds ∧
      SameAnswer (TokenStream.ofText text)
        (TokenStream.ofText (String.ofList (Text.weave gaps pieces ++ last)))
        (parseWith config text)
        (parseWith config (String.ofList (Text.weave gaps pieces ++ last))) := by
  have hkinds : (TokenStream.ofText (String.ofList (Text.weave gaps pieces ++ last))).kinds =
      (TokenStream.ofText text).kinds := by
    rw [TokenStream.kinds_ofText, String.toList_ofList]
    exact h.kinds_eq fun t ht => TokenStream.writes_of_mem ht (hclean t ht)
  exact ⟨hkinds, sameAnswer_of_kinds_eq hclean hkinds config⟩

/-- A sign, a number and a keyword in other spellings, and the line broken elsewhere; both texts are
refused at the keyword. -/
theorem parseWith_respelled_break :
    (TokenStream.ofText "\u2003a\n= 5\tOR  b").kinds = (TokenStream.ofText "a==+5 or b").kinds ∧
      SameAnswer (TokenStream.ofText "a==+5 or b") (TokenStream.ofText "\u2003a\n= 5\tOR  b")
        (parseWith ⟨1⟩ "a==+5 or b") (parseWith ⟨1⟩ "\u2003a\n= 5\tOR  b") := by
  have hclean : (TokenStream.ofText "a==+5 or b").Clean := by
    unfold TokenStream.Clean
    decide +kernel
  have htokens : (TokenStream.ofText "a==+5 or b").tokens =
      [⟨.word "a", "a", ⟨1, 1⟩⟩, ⟨.comparison .equal, "==", ⟨1, 2⟩⟩, ⟨.integer 5, "+5", ⟨1, 4⟩⟩,
        ⟨.keyword (.connective .or), "or", ⟨1, 7⟩⟩, ⟨.word "b", "b", ⟨1, 10⟩⟩] := by
    decide +kernel
  have h : Respelling (TokenStream.ofText "a==+5 or b").tokens
      [['\u2003'], ['\n'], [' '], ['\t'], [' ', ' ']]
      [['a'], ['='], ['5'], ['O', 'R'], ['b']] [] := by
    rw [htokens]
    refine ⟨.cons .source (.cons (.equal rfl (.inl rfl)) (.cons ?_ (.cons (.anyCase rfl rfl)
      (.cons .source .nil)))), rfl, ?_, by simp, by decide⟩
    · exact Token.Respells.shown
    · simp only [List.forall_mem_cons, List.not_mem_nil, false_implies, implies_true, and_true]
      decide
  exact parseWith_respelled hclean h ⟨1⟩

end RowFilter
