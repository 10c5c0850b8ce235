import RowFilter.Proofs.Grammar.LeafReading
import RowFilter.Proofs.RoundTrip.Column

/-!
# Bare names

Whether a name needs quotes is decided on its segments, without a look at tokens. The decision is
right: a name is bare exactly if it is cut into words with points between them that are the name
again when they are put together. Both directions are about segments. The words of a text hold no
point, so a path that is put together falls into its words again. However a name is written, a
column is read from all the tokens, and it is the column of this name.
-/

set_option autoImplicit false

namespace RowFilter

namespace Text

/-- Up to the first point everything belongs to the first segment. -/
theorem segments_append {s cs t : List Char} {ts : List (List Char)} (h : '.' ∉ s)
    (hcs : segments cs = t :: ts) : segments (s ++ cs) = (s ++ t) :: ts := by
  induction s with
  | nil => exact hcs
  | cons c s ih =>
    have hc : c ≠ '.' := (List.ne_of_not_mem_cons h).symm
    rw [List.cons_append, segments, if_neg hc, ih (List.not_mem_of_not_mem_cons h)]
    rfl

/-- A name that is put together from segments falls into these segments. -/
theorem segments_join {first : String} {more : List String}
    (h : ∀ s ∈ first :: more, '.' ∉ s.toList) :
    segments (join "." (first :: more)).toList = (first :: more).map String.toList := by
  induction more generalizing first with
  | nil =>
    have hfirst := h first List.mem_cons_self
    rw [join, ← List.append_nil first.toList, segments_append hfirst rfl, List.append_nil]
    rfl
  | cons next more ih =>
    have hfirst := h first List.mem_cons_self
    have hmore := ih fun s hs => h s (List.mem_cons_of_mem _ hs)
    have hpoint : segments ('.' :: (join "." (next :: more)).toList) =
        [] :: (next :: more).map String.toList := by
      rw [segments, if_pos rfl, hmore]
    rw [join, String.toList_append, String.toList_append, List.append_assoc]
    show segments (first.toList ++ '.' :: (join "." (next :: more)).toList) = _
    rw [segments_append hfirst hpoint, List.append_nil]
    rfl

/-- A word token that is no keyword could be a bare segment. -/
theorem Writes.isBareSegment {w : List Char} {k : Kind} (h : Writes w k) :
    ∀ name, k = .word name → Column.isBareSegment name.toList = true := by
  intro name hk
  cases h with
  | @word w hword hkeyword =>
    cases hk
    rw [String.toList_ofList]
    exact Column.isBareSegment_iff.mpr ⟨hword, hkeyword⟩
  | sign => exact absurd hk (Kind.ne_of_isSign (Lexeme.isSign_signKind _) rfl)
  | pair hpair => exact absurd hk (Kind.ne_of_isSign (Lexeme.isSign_of_pairKind? hpair) rfl)
  | _ => contradiction

end Text

namespace Column

open RowFilter.Grammar

/-- A name is bare exactly if it is cut into a path that is put together to the name. -/
theorem isBare_iff_kinds (column : Column) :
    column.isBare = true ↔ ∃ first more,
      Text.kinds column.name.toList = .word first :: ColumnPhrase.segmentKinds more ∧
      Text.join "." (first :: more) = column.name := by
  constructor
  · intro hbare
    obtain ⟨s, ss, hsegments, hjoin⟩ := column.exists_segments
    rw [isBare, hsegments, List.all_eq_true] at hbare
    have hnil : ∀ c ∈ ([] : List Char).head?, Text.isWordChar c = false := by simp
    have hkinds := kinds_path hbare hnil
    rw [hjoin, List.append_nil, Text.kinds_nil, List.append_nil] at hkinds
    exact ⟨_, _, hkinds, hjoin⟩
  · rintro ⟨first, more, hkinds, hjoin⟩
    have hbare : ∀ s ∈ first :: more, isBareSegment s.toList = true := by
      intro s hs
      have hmem : .word s ∈ Text.kinds column.name.toList := by
        rw [hkinds, List.mem_cons]
        rcases List.mem_cons.mp hs with rfl | hs
        · exact Or.inl rfl
        · exact Or.inr (List.mem_flatMap.mpr ⟨s, hs, by simp⟩)
      obtain ⟨w, -, hwrites⟩ := Text.exists_writes_of_mem_kinds hmem rfl
      exact hwrites.isBareSegment s rfl
    have hpoint : ∀ s ∈ first :: more, '.' ∉ s.toList := fun s hs =>
      not_mem_of_isWord (isBareSegment_iff.mp (hbare s hs)).1 (by decide)
    rw [isBare, ← hjoin, Text.segments_join hpoint, List.all_map, List.all_eq_true]
    exact hbare

end Column

namespace Grammar

/-- A name that is not bare is written as one token. -/
theorem ColumnPhrase.kinds_ofColumn_of_not_bare {column : Column} (h : column.isBare = false) :
    (ofColumn column).kinds =
      if '"' ∈ column.name.toList then
        [.string (String.ofList (Text.escape false column.name.toList))]
      else [.quotedName column.name] := by
  rw [ofColumn, if_neg (Bool.eq_false_iff.mp h)]
  simp only [List.contains_iff_mem]
  split <;> rfl

end Grammar

open RowFilter.Grammar

/-- A name is bare exactly if its tokens are words with points between them, up to the end of the
name, and the words and the points together are the name. However a name without a line feed is
written, a column is read from all the tokens, and it is the column of this name; a name that is not
bare is one token, a name in double quotes or, where it has a double quote, single-quoted text. A
name with a line feed is written as a text with an invalid token. -/
theorem names_lexed (name : String) :
    let column : Column := ⟨name⟩
    let written := TokenStream.ofText column.render
    (column.isBare = true ↔ ∃ first more,
      (TokenStream.ofText name).withEnd.map Token.kind =
        .word first :: ColumnPhrase.segmentKinds more ++ [.eof] ∧
      Text.join "." (first :: more) = name) ∧
    (column.isBare = true → column.render = name) ∧
    ('\n' ∉ name.toList →
      Parser.column.run written.kinds = ⟨.ok column, [], []⟩ ∧
      (column.isBare = false →
        ('"' ∉ name.toList → written.kinds = [.quotedName name]) ∧
        ('"' ∈ name.toList → ∃ raw, written.kinds = [.string raw] ∧ Kind.unescaped raw = name))) ∧
    ('\n' ∈ name.toList → ∃ e, .invalid e ∈ written.kinds) := by
  intro column written
  have hend : (TokenStream.ofText name).withEnd.map Token.kind =
      Text.kinds name.toList ++ [.eof] := by
    rw [← TokenStream.kinds_ofText, TokenStream.withEnd, List.map_append]
    rfl
  have hwritten : written.kinds = Text.kinds column.render.toList := TokenStream.kinds_ofText _
  refine ⟨?_, fun hbare => if_pos hbare, ?_, ?_⟩
  · rw [hend, column.isBare_iff_kinds]
    simp only [List.append_cancel_right_eq]
    exact Iff.rfl
  · intro hlineFeed
    rw [hwritten, (Spells.column column).kinds_eq hlineFeed]
    refine ⟨?_, ?_⟩
    · have hnil : ([] : List Kind).head? ≠ some .dot := by simp
      have hrun := run_column (ColumnPhrase.ofColumn column) hnil
      rw [List.append_nil, ColumnPhrase.column_ofColumn] at hrun
      exact hrun
    · intro hbare
      rw [ColumnPhrase.kinds_ofColumn_of_not_bare hbare]
      refine ⟨fun hquote => if_neg hquote, fun hquote => ⟨_, if_pos hquote, ?_⟩⟩
      exact unescaped_escape false name
  · intro hlineFeed
    rw [hwritten]
    exact (Spells.column column).exists_invalid (not_not_intro hlineFeed)

/-- A word that is a keyword in any case needs quotes, and so does a segment that begins with a
digit; letters outside ASCII and digits inside a word do not. Both kinds of quotes and a backslash
at the end are read back. -/
theorem names_lexed_all_forms :
    (∃ first more, (TokenStream.ofText "été.b1._").withEnd.map Token.kind =
      .word first :: ColumnPhrase.segmentKinds more ++ [.eof] ∧
      Text.join "." (first :: more) = "été.b1._") ∧
    (TokenStream.ofText (Column.render ⟨"a.Null"⟩)).kinds = [.quotedName "a.Null"] ∧
    Parser.column.run (TokenStream.ofText (Column.render ⟨"a.1b"⟩)).kinds =
      ⟨.ok ⟨"a.1b"⟩, [], []⟩ ∧
    (∃ raw, (TokenStream.ofText (Column.render ⟨"it's \"b\"\\"⟩)).kinds = [.string raw] ∧
      Kind.unescaped raw = "it's \"b\"\\") ∧
    ∃ e, .invalid e ∈ (TokenStream.ofText (Column.render ⟨"a\n"⟩)).kinds := by
  refine ⟨?_, ?_, ?_, ?_, ?_⟩
  · exact (names_lexed "été.b1._").1.mp (by decide +kernel)
  · exact (((names_lexed "a.Null").2.2.1 (by decide)).2 (by decide +kernel)).1 (by decide)
  · exact ((names_lexed "a.1b").2.2.1 (by decide)).1
  · exact (((names_lexed "it's \"b\"\\").2.2.1 (by decide)).2 (by decide +kernel)).2 (by decide)
  · exact (names_lexed "a\n").2.2.2 (by decide)

end RowFilter
