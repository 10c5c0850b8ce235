import RowFilter.Proofs.Text.CharClass
import RowFilter.Token.Stream

/-!
# Spelling

What a piece of text contributes to the token kinds of a text, whatever stands after it. The kinds
do not depend on the positions, so they are a function of the characters. A piece spells some kinds
if, before a separator, it is read as these kinds and nothing of it leaks into what follows. A piece
that is not legible, such as quoted text with a line feed in it, makes an invalid token instead.

The printer puts pieces together with blanks, commas and parentheses; each of these has a lemma.
-/

set_option autoImplicit false

namespace RowFilter

namespace TokenStream

/-- The kinds of the tokens. -/
def kinds (s : TokenStream) : List Kind :=
  s.tokens.map Token.kind

/-- No token is invalid. -/
def Clean (s : TokenStream) : Prop :=
  ∀ t ∈ s.tokens, t.kind.error? = none

/-- No token is invalid exactly if no kind is that of an invalid token. -/
theorem clean_iff {s : TokenStream} : s.Clean ↔ ∀ k ∈ s.kinds, k.error? = none := by
  rw [kinds, List.forall_mem_map, Clean]

end TokenStream

namespace Text

/-- The kinds of the tokens of a text. -/
def kinds (cs : List Char) : List Kind :=
  (Cursor.stream ⟨Position.start, cs⟩).kinds

end Text

/-- The kinds of the tokens do not depend on where the text begins. -/
theorem Cursor.kinds_stream (cursor : Cursor) : cursor.stream.kinds = Text.kinds cursor.rest := by
  induction hlength : cursor.rest.length using Nat.strongRecOn generalizing cursor with
  | ind n ih =>
    have hskip :
        (Cursor.skipBlanks ⟨Position.start, cursor.rest⟩).rest = cursor.skipBlanks.rest := rfl
    rw [Text.kinds]
    cases hrest : cursor.skipBlanks.rest with
    | nil =>
      rw [stream_of_nil hrest, stream_of_nil (hskip.trans hrest)]
      rfl
    | cons c cs =>
      have hlt := hlength ▸ length_rest_lt hrest
      rw [stream_of_cons hrest, stream_of_cons (hskip.trans hrest)]
      have hleft := ih _ hlt (after cursor.skipBlanks.position (Lexeme.scan c cs)) rfl
      have hright := ih _ hlt
        (after (skipBlanks ⟨Position.start, cursor.rest⟩).position (Lexeme.scan c cs)) rfl
      rw [TokenStream.kinds] at hleft hright
      simp only [TokenStream.kinds, List.map_cons, token, hleft, hright]
      rfl

/-- The kinds of a stream are those of the characters of its text. -/
theorem TokenStream.kinds_ofText (text : String) :
    (TokenStream.ofText text).kinds = Text.kinds text.toList :=
  Cursor.kinds_stream _

namespace Text

/-- There are no tokens in an empty text. -/
@[simp] theorem kinds_nil : kinds [] = [] := by
  rw [kinds, Cursor.stream_of_nil rfl]
  rfl

/-- A blank in front adds no token. -/
theorem kinds_of_isBlank {c : Char} {cs : List Char} (h : isBlank c = true) :
    kinds (c :: cs) = kinds cs := by
  have hskip : (Cursor.skipBlanks ⟨Position.start, c :: cs⟩).rest = cs.dropWhile isBlank := by
    simp [Cursor.skipBlanks, h]
  have hskip' : (Cursor.skipBlanks ⟨Position.start, cs⟩).rest = cs.dropWhile isBlank := rfl
  cases hrest : cs.dropWhile isBlank with
  | nil =>
    rw [hrest] at hskip hskip'
    rw [kinds, kinds, Cursor.stream_of_nil hskip, Cursor.stream_of_nil hskip']
    rfl
  | cons d ds =>
    rw [hrest] at hskip hskip'
    rw [kinds, kinds, Cursor.stream_of_cons hskip, Cursor.stream_of_cons hskip']
    simp only [TokenStream.kinds, List.map_cons]
    rw [← TokenStream.kinds, ← TokenStream.kinds, Cursor.kinds_stream, Cursor.kinds_stream]
    rfl

/-- At a character that is no blank the first token begins. -/
theorem kinds_cons {c : Char} {cs : List Char} (h : isBlank c = false) :
    kinds (c :: cs) = (Lexeme.scan c cs).kind :: kinds (Lexeme.scan c cs).rest := by
  have hskip : (Cursor.skipBlanks ⟨Position.start, c :: cs⟩).rest = c :: cs := by
    simp [Cursor.skipBlanks, h]
  rw [kinds, Cursor.stream_of_cons hskip, TokenStream.kinds, List.map_cons, ← TokenStream.kinds,
    Cursor.kinds_stream]
  rfl

/-- Every token kind of a text is that of a lexeme at the front of an end of the text. -/
theorem exists_scan_of_mem_kinds {cs : List Char} {k : Kind} (h : k ∈ kinds cs) :
    ∃ c rest, (c :: rest).length ≤ cs.length ∧ (Lexeme.scan c rest).kind = k := by
  induction hlength : cs.length using Nat.strongRecOn generalizing cs with
  | ind n ih =>
    cases cs with
    | nil =>
      rw [kinds_nil] at h
      contradiction
    | cons c cs =>
      subst hlength
      cases hblank : isBlank c with
      | true =>
        rw [kinds_of_isBlank hblank] at h
        obtain ⟨d, rest, hle, hkind⟩ := ih cs.length (Nat.lt_succ_self _) h rfl
        exact ⟨d, rest, Nat.le_succ_of_le hle, hkind⟩
      | false =>
        rw [kinds_cons hblank] at h
        rcases List.mem_cons.mp h with hkind | hrest
        · exact ⟨c, cs, Nat.le_refl _, hkind.symm⟩
        · have hlt := Lexeme.length_scan_rest_lt c cs
          obtain ⟨d, rest, hle, hkind⟩ := ih _ hlt hrest rfl
          exact ⟨d, rest, Nat.le_of_lt (Nat.lt_of_le_of_lt hle hlt), hkind⟩

end Text

namespace Kind

/-- The kind is that of a sign. A character that belongs to no token is taken for a sign too. -/
def isSign : Kind → Bool
  | comparison _ => true
  | comma => true
  | dot => true
  | leftParen => true
  | rightParen => true
  | invalid _ => true
  | _ => false

/-- A sign is no token that carries data. -/
theorem ne_of_isSign {k l : Kind} (hk : k.isSign = true) (hl : l.isSign = false) : k ≠ l := by
  rintro rfl
  rw [hk] at hl
  contradiction

end Kind

namespace Lexeme

/-- What may stand before the digits of a number. -/
def signs : List (List Char) :=
  [[], ['-'], ['+']]

/-- A lexeme is a string, a quoted name, a number, a word or a sign. -/
theorem scan_cases (c : Char) (cs : List Char) :
    scan c cs = string cs ∨ scan c cs = quotedName cs ∨
      (∃ before ds, before ∈ signs ∧ beginsWithDigit ds = true ∧ scan c cs = number before ds) ∨
      (Text.isWordStart c = true ∧ scan c cs = word c cs) ∨ scan c cs = sign c cs := by
  unfold scan
  split
  · exact Or.inl rfl
  split
  · exact Or.inr (Or.inl rfl)
  split
  · rename_i hdigit
    exact Or.inr (Or.inr (Or.inl ⟨[], c :: cs, by decide, hdigit, rfl⟩))
  split
  · rename_i hsign
    rw [Bool.and_eq_true, Bool.or_eq_true, decide_eq_true_iff, decide_eq_true_iff] at hsign
    obtain ⟨rfl | rfl, hdigit⟩ := hsign
    · exact Or.inr (Or.inr (Or.inl ⟨['-'], cs, by decide, hdigit, rfl⟩))
    · exact Or.inr (Or.inr (Or.inl ⟨['+'], cs, by decide, hdigit, rfl⟩))
  split
  · rename_i hword
    exact Or.inr (Or.inr (Or.inr (Or.inl ⟨hword, rfl⟩)))
  · exact Or.inr (Or.inr (Or.inr (Or.inr rfl)))

/-- A number is not the end token. -/
theorem number_kind_ne_eof (before ds : List Char) : (number before ds).kind ≠ .eof := by
  unfold number integerKind
  simp only
  split
  · split <;> simp
  · simp

/-- A sign of one character carries no data. -/
theorem isSign_signKind (c : Char) : (signKind c).isSign = true := by
  unfold signKind
  split <;> rfl

/-- A sign of two characters carries no data. -/
theorem isSign_of_pairKind? {c d : Char} {k : Kind} (h : pairKind? c d = some k) :
    k.isSign = true := by
  unfold pairKind? at h
  split at h <;> cases h <;> rfl

/-- A sign carries no data. -/
theorem isSign_kind_sign (c : Char) (cs : List Char) : (sign c cs).kind.isSign = true := by
  unfold sign
  split
  · exact isSign_signKind c
  · split
    · rename_i hpair
      exact isSign_of_pairKind? hpair
    · exact isSign_signKind c

/-- No lexeme is the end token, which has no text. -/
theorem scan_kind_ne_eof (c : Char) (cs : List Char) : (scan c cs).kind ≠ .eof := by
  rcases scan_cases c cs with h | h | ⟨before, ds, -, -, h⟩ | ⟨-, h⟩ | h <;> rw [h]
  · unfold string
    simp only
    split <;> simp
  · unfold quotedName
    simp only
    split <;> simp
  · exact number_kind_ne_eof before ds
  · unfold word wordKind
    simp only
    split <;> simp
  · exact Kind.ne_of_isSign (isSign_kind_sign c cs) rfl

end Lexeme

/-- No token of a text is the end token. -/
theorem TokenStream.kind_ne_eof (text : String) : ∀ t ∈ (ofText text).tokens, t.kind ≠ .eof := by
  intro t ht hkind
  have hmem : t.kind ∈ (ofText text).kinds := List.mem_map_of_mem ht
  rw [kinds_ofText] at hmem
  obtain ⟨c, rest, -, hscan⟩ := Text.exists_scan_of_mem_kinds hmem
  exact Lexeme.scan_kind_ne_eof c rest (hscan.trans hkind)

namespace Text

/-- The text is at its end or begins with a character that goes on with no token before it. -/
def Breaks (rest : List Char) : Prop :=
  ∀ c ∈ rest.head?, isWordChar c = false ∧ c.isDigit = false ∧ c ≠ '.' ∧ c ≠ '=' ∧ c ≠ '>'

/-- Before a break the characters are one token of the kind. -/
def IsToken (cs : List Char) (k : Kind) : Prop :=
  ∀ rest, Breaks rest → kinds (cs ++ rest) = k :: kinds rest

/-- Characters are one token if the scanner takes just them before every break. -/
theorem IsToken.of_scan {c : Char} {cs : List Char} {k : Kind} (hblank : isBlank c = false)
    (hscan : ∀ rest, Breaks rest → Lexeme.scan c (cs ++ rest) = ⟨k, c :: cs, rest⟩) :
    IsToken (c :: cs) k := by
  intro rest hrest
  rw [List.cons_append, kinds_cons hblank, hscan rest hrest]

end Text

/-- The text is at its end or begins with a character that ends every token before it. -/
def Separated (rest : List Char) : Prop :=
  ∀ c ∈ rest.head?, c = ' ' ∨ c = ',' ∨ c = ')'

/-- The end of a text separates. -/
theorem separated_nil : Separated [] := by
  intro c hc
  simp at hc

/-- Blanks, commas and closing parentheses separate. -/
theorem separated_cons {c : Char} {rest : List Char} :
    Separated (c :: rest) ↔ c = ' ' ∨ c = ',' ∨ c = ')' := by
  simp [Separated]

/-- Whatever separates is a break. -/
theorem Separated.breaks {rest : List Char} (h : Separated rest) : Text.Breaks rest := by
  intro c hc
  rcases h c hc with rfl | rfl | rfl
  · decide +kernel
  · decide +kernel
  · decide +kernel

/-- Before a separator the characters are read as the kinds if they are legible, and otherwise there
is an invalid token. -/
structure Spells (legible : Prop) (cs : List Char) (ks : List Kind) : Prop where
  read : legible → ∀ rest, Separated rest → Text.kinds (cs ++ rest) = ks ++ Text.kinds rest
  garbled : ¬ legible → ∀ rest, Separated rest → ∃ e, Kind.invalid e ∈ Text.kinds (cs ++ rest)

namespace Spells

variable {l m : Prop} {cs ds : List Char} {ks ls : List Kind}

/-- The condition of a spelling may be put in another form. -/
theorem congr (h : Spells l cs ks) (hiff : l ↔ m) : Spells m cs ks :=
  propext hiff ▸ h

/-- Characters that are always read as the kinds spell them without a condition. -/
theorem of_read (hread : ∀ rest, Separated rest → Text.kinds (cs ++ rest) = ks ++ Text.kinds rest) :
    Spells True cs ks := by
  constructor
  · intro _
    exact hread
  · intro hfalse
    exact absurd trivial hfalse

/-- Characters that the scanner takes as one token if they are legible, and as an invalid one
otherwise, spell this token. -/
theorem of_scan {c : Char} {k : Kind} (hblank : Text.isBlank c = false)
    (hread : l → ∀ rest, Separated rest →
      (Lexeme.scan c (cs ++ rest)).kind = k ∧ (Lexeme.scan c (cs ++ rest)).rest = rest)
    (hgarbled : ¬ l → ∀ rest, Separated rest →
      ∃ e, (Lexeme.scan c (cs ++ rest)).kind = .invalid e) :
    Spells l (c :: cs) [k] := by
  constructor
  · intro hl rest hrest
    obtain ⟨hkind, htail⟩ := hread hl rest hrest
    rw [List.cons_append, Text.kinds_cons hblank, hkind, htail]
    rfl
  · intro hl rest hrest
    obtain ⟨e, he⟩ := hgarbled hl rest hrest
    refine ⟨e, ?_⟩
    rw [List.cons_append, Text.kinds_cons hblank, he]
    exact List.mem_cons_self

/-- A token spells itself. -/
theorem of_isToken {k : Kind} (h : Text.IsToken cs k) : Spells True cs [k] :=
  of_read fun rest hrest => h rest hrest.breaks

/-- A blank in front changes nothing of what is spelled. -/
theorem blank (h : Spells l ds ls) : Spells l (' ' :: ds) ls := by
  have hblank : Text.isBlank ' ' = true := by decide
  constructor
  · intro hl rest hrest
    rw [List.cons_append, Text.kinds_of_isBlank hblank]
    exact h.read hl rest hrest
  · intro hl rest hrest
    rw [List.cons_append, Text.kinds_of_isBlank hblank]
    exact h.garbled hl rest hrest

/-- Two pieces one after the other, if the second one begins with a separator. The first one that is
not legible makes the invalid token. -/
theorem append (h : Spells l cs ks) (h' : Spells m ds ls) (hsep : ∀ rest, Separated (ds ++ rest)) :
    Spells (l ∧ m) (cs ++ ds) (ks ++ ls) := by
  constructor
  · rintro ⟨hl, hm⟩ rest hrest
    rw [List.append_assoc, h.read hl _ (hsep rest), h'.read hm rest hrest, List.append_assoc]
  · intro hnot rest hrest
    rw [List.append_assoc]
    by_cases hl : l
    · have hm : ¬ m := fun hm => hnot ⟨hl, hm⟩
      obtain ⟨e, he⟩ := h'.garbled hm rest hrest
      refine ⟨e, ?_⟩
      rw [h.read hl _ (hsep rest)]
      exact List.mem_append_right _ he
    · exact h.garbled hl _ (hsep rest)

/-- Two spellings with a blank between them spell one after the other. -/
theorem append_blank (h : Spells l cs ks) (h' : Spells m ds ls) :
    Spells (l ∧ m) (cs ++ ' ' :: ds) (ks ++ ls) := by
  apply h.append h'.blank
  intro rest
  rw [List.cons_append]
  exact separated_cons.mpr (Or.inl rfl)

/-- A legible piece in front of another one, with a blank between them. -/
theorem prepend (h : Spells True cs ks) (h' : Spells m ds ls) :
    Spells m (cs ++ ' ' :: ds) (ks ++ ls) :=
  (h.append_blank h').congr (iff_of_eq (true_and m))

/-- A sign of one character in front of a piece. -/
theorem sign {c : Char} {k : Kind} (hmark : c ∈ Text.marks)
    (hscan : ∀ rest, Lexeme.scan c rest = ⟨k, [c], rest⟩) (h : Spells l ds ls) :
    Spells l (c :: ds) (k :: ls) := by
  have hblank := (Text.classes_of_mem_marks hmark).1
  constructor
  · intro hl rest hrest
    rw [List.cons_append, Text.kinds_cons hblank, hscan, h.read hl rest hrest]
    rfl
  · intro hl rest hrest
    obtain ⟨e, he⟩ := h.garbled hl rest hrest
    refine ⟨e, ?_⟩
    rw [List.cons_append, Text.kinds_cons hblank, hscan]
    exact List.mem_cons_of_mem _ he

/-- Two spellings with a comma between them spell one after the other, and the comma. -/
theorem append_comma (h : Spells l cs ks) (h' : Spells m ds ls) :
    Spells (l ∧ m) (cs ++ ',' :: ' ' :: ds) (ks ++ .comma :: ls) := by
  apply h.append
  · apply h'.blank.sign
    · decide
    · intro rest
      cases rest <;> rfl
  · intro rest
    rw [List.cons_append]
    exact separated_cons.mpr (Or.inr (Or.inl rfl))

/-- A spelling in parentheses spells the parentheses around it. -/
theorem parens (h : Spells l cs ks) :
    Spells l ('(' :: (cs ++ [')'])) (.leftParen :: (ks ++ [.rightParen])) := by
  have hclose : Spells True [')'] [.rightParen] := by
    apply of_isToken
    apply Text.IsToken.of_scan (by decide)
    intro rest _
    cases rest <;> rfl
  have hinner : Spells l (cs ++ [')']) (ks ++ [.rightParen]) := by
    refine (h.append hclose ?_).congr (iff_of_eq (and_true l))
    intro rest
    exact separated_cons.mpr (Or.inr (Or.inr rfl))
  apply hinner.sign
  · decide
  · intro rest
    cases rest <;> rfl

/-- A legible text is read as the kinds it spells. -/
theorem kinds_eq (h : Spells l cs ks) (hl : l) : Text.kinds cs = ks := by
  have hread := h.read hl [] separated_nil
  rwa [List.append_nil, Text.kinds_nil, List.append_nil] at hread

/-- There is an invalid token in a text that is not legible. -/
theorem exists_invalid (h : Spells l cs ks) (hl : ¬ l) : ∃ e, Kind.invalid e ∈ Text.kinds cs := by
  have hgarbled := h.garbled hl [] separated_nil
  rwa [List.append_nil] at hgarbled

end Spells

end RowFilter
