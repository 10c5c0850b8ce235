import RowFilter.Proofs.Grammar.Leaf
import RowFilter.Proofs.Token.Writing

/-!
# Written columns

Every column has a phrase that names it, and the printed column spells this phrase unless the name
holds a line feed. A name is bare exactly if its segments are words and no keywords, so a bare name
is a path of words; it holds no line feed.
-/

set_option autoImplicit false

namespace RowFilter

/-! ## Segments -/

namespace Text

/-- Every name has a segment. -/
theorem segments_ne_nil (cs : List Char) : segments cs ≠ [] := by
  cases cs with
  | nil => simp [segments]
  | cons c cs =>
    rw [segments]
    split
    · simp
    · cases segments cs <;> simp [consFirst]

/-- A part in front is followed by the separator, if there are more parts. -/
theorem join_cons_of_ne_nil (separator part : String) {parts : List String} (h : parts ≠ []) :
    join separator (part :: parts) = part ++ separator ++ join separator parts := by
  cases parts with
  | nil => contradiction
  | cons next parts => rfl

/-- A name is put together again from its segments. -/
theorem join_segments (cs : List Char) :
    join "." ((segments cs).map String.ofList) = String.ofList cs := by
  induction cs with
  | nil => rfl
  | cons c cs ih =>
    rw [segments]
    split
    · rename_i hc
      rw [List.map_cons, join_cons_of_ne_nil _ _ (by simp [segments_ne_nil]), ih, hc]
      rw [← String.toList_inj]
      simp
    · have hcons : ∀ parts : List (List Char), parts ≠ [] →
          join "." ((consFirst c parts).map String.ofList) =
            String.ofList [c] ++ join "." (parts.map String.ofList) := by
        intro parts hparts
        obtain ⟨s, ss, rfl⟩ := List.exists_cons_of_ne_nil hparts
        rw [← String.toList_inj]
        cases ss with
        | nil => simp [consFirst, join]
        | cons t ts => simp [consFirst, join]
      rw [hcons _ (segments_ne_nil cs), ih, ← String.toList_inj]
      simp

/-- A character of a name is a dot or stands in a segment. -/
theorem mem_segments {cs : List Char} {c : Char} (h : c ∈ cs) :
    c = '.' ∨ ∃ s ∈ segments cs, c ∈ s := by
  induction cs with
  | nil => contradiction
  | cons d cs ih =>
    obtain ⟨s, ss, hsegments⟩ := List.exists_cons_of_ne_nil (segments_ne_nil cs)
    rw [segments]
    rcases List.mem_cons.mp h with rfl | hcs
    · split
      · rename_i hdot
        exact Or.inl hdot
      · rw [hsegments]
        exact Or.inr ⟨c :: s, List.mem_cons_self, List.mem_cons_self⟩
    · rcases ih hcs with hdot | ⟨t, ht, hct⟩
      · exact Or.inl hdot
      · right
        split
        · exact ⟨t, List.mem_cons_of_mem _ ht, hct⟩
        · rw [hsegments] at ht ⊢
          rcases List.mem_cons.mp ht with rfl | ht
          · exact ⟨d :: t, List.mem_cons_self, List.mem_cons_of_mem _ hct⟩
          · exact ⟨t, List.mem_cons_of_mem _ ht, hct⟩

end Text

/-! ## Bare names -/

namespace Column

/-- A name has a first segment, and it is its segments with dots between them. -/
theorem exists_segments (column : Column) :
    ∃ s ss, Text.segments column.name.toList = s :: ss ∧
      Text.join "." ((s :: ss).map String.ofList) = column.name := by
  obtain ⟨s, ss, hsegments⟩ := List.exists_cons_of_ne_nil (Text.segments_ne_nil column.name.toList)
  refine ⟨s, ss, hsegments, ?_⟩
  rw [← hsegments, Text.join_segments, String.ofList_toList]

/-- A bare segment is a word that is read as a word. -/
theorem isBareSegment_iff {s : List Char} :
    isBareSegment s = true ↔ Text.isWord s = true ∧ Keyword.ofWord? s = none := by
  cases s with
  | nil => simp [isBareSegment, Text.isWord]
  | cons c cs => simp [isBareSegment, Text.isWord]

/-- Whatever begins a word may stand in it. -/
theorem isWordChar_of_isWordStart {c : Char} (h : Text.isWordStart c = true) :
    Text.isWordChar c = true := by
  rw [Text.isWordStart, Bool.or_eq_true] at h
  rw [Text.isWordChar, Bool.or_eq_true, Bool.or_eq_true]
  rcases h with hletter | hunderscore
  · exact Or.inl (Or.inl hletter)
  · exact Or.inr hunderscore

/-- A word holds word characters only. -/
theorem not_mem_of_isWord {w : List Char} (h : Text.isWord w = true) {c : Char}
    (hc : Text.isWordChar c = false) : c ∉ w := by
  have hall : ∀ d ∈ w, Text.isWordChar d = true := by
    cases w with
    | nil => contradiction
    | cons d ds =>
      rw [Text.isWord, Bool.and_eq_true, List.all_eq_true] at h
      exact List.forall_mem_cons.mpr ⟨isWordChar_of_isWordStart h.1, h.2⟩
  intro hmem
  rw [hall c hmem] at hc
  contradiction

/-- There is no line feed in a word. -/
theorem lineFeed_not_mem_of_isWord {w : List Char} (h : Text.isWord w = true) : '\n' ∉ w :=
  not_mem_of_isWord h (by decide)

/-- There is no line feed in a bare name. -/
theorem lineFeed_not_mem_of_isBare {column : Column} (h : column.isBare = true) :
    '\n' ∉ column.name.toList := by
  intro hmem
  rw [isBare, List.all_eq_true] at h
  rcases Text.mem_segments hmem with hdot | ⟨s, hs, hlineFeed⟩
  · contradiction
  · exact lineFeed_not_mem_of_isWord (isBareSegment_iff.mp (h s hs)).1 hlineFeed

end Column

namespace Grammar

/-- A path of bare segments is read as words with dots between them. -/
theorem kinds_path {s : List Char} {ss : List (List Char)}
    (hbare : ∀ t ∈ s :: ss, Column.isBareSegment t = true) {rest : List Char}
    (hrest : ∀ c ∈ rest.head?, Text.isWordChar c = false) :
    Text.kinds ((Text.join "." ((s :: ss).map String.ofList)).toList ++ rest) =
      .word (String.ofList s) :: ColumnPhrase.segmentKinds (ss.map String.ofList) ++
        Text.kinds rest := by
  induction ss generalizing s with
  | nil =>
    obtain ⟨hword, hkeyword⟩ := Column.isBareSegment_iff.mp (hbare s List.mem_cons_self)
    rw [List.map_singleton, Text.join, String.toList_ofList, Text.kinds_word hword hrest,
      Lexeme.wordKind, hkeyword]
    rfl
  | cons t ts ih =>
    obtain ⟨hword, hkeyword⟩ := Column.isBareSegment_iff.mp (hbare s List.mem_cons_self)
    have htail := ih (s := t) fun u hu => hbare u (List.mem_cons_of_mem _ hu)
    have hdot : ∀ c ∈ ('.' :: ((Text.join "." ((t :: ts).map String.ofList)).toList ++ rest)).head?,
        Text.isWordChar c = false := by
      intro c hc
      cases hc
      decide
    rw [List.map_cons, Text.join_cons_of_ne_nil _ _ (by simp), String.toList_append,
      String.toList_append, String.toList_ofList, List.append_assoc, List.append_assoc]
    show Text.kinds (s ++ '.' :: ((Text.join "." ((t :: ts).map String.ofList)).toList ++ rest)) = _
    rw [Text.kinds_word hword hdot, Text.kinds_dot, htail, Lexeme.wordKind, hkeyword]
    rfl

/-! ## Phrases of columns -/

/-- The phrase as which a column is written. -/
def ColumnPhrase.ofColumn (column : Column) : ColumnPhrase :=
  if column.isBare then
    match Text.segments column.name.toList with
    | [] => .quoted column.name
    | s :: ss => .path (String.ofList s) (ss.map String.ofList)
  else if column.name.toList.contains '"' then
    .text (String.ofList (Text.escape false column.name.toList))
  else .quoted column.name

/-- Resolving escapes undoes escaping. -/
theorem unescaped_escape (wildcards : Bool) (text : String) :
    Kind.unescaped (String.ofList (Text.escape wildcards text.toList)) = text := by
  rw [Kind.unescaped, String.toList_ofList, Text.unescape_escape, String.ofList_toList]

/-- The phrase of a column stands for the column. -/
theorem ColumnPhrase.column_ofColumn (column : Column) : (ofColumn column).column = column := by
  obtain ⟨s, ss, hsegments, hjoin⟩ := column.exists_segments
  unfold ofColumn
  rw [hsegments]
  split
  · rw [ColumnPhrase.column, ← List.map_cons, hjoin]
  · split
    · rw [ColumnPhrase.column, unescaped_escape]
    · rfl

end Grammar

/-- A printed column spells its phrase, unless its name has a line feed. -/
theorem Spells.column (column : Column) :
    Spells ('\n' ∉ column.name.toList) column.render.toList
      (Grammar.ColumnPhrase.ofColumn column).kinds := by
  obtain ⟨s, ss, hsegments, hjoin⟩ := column.exists_segments
  unfold Column.render Grammar.ColumnPhrase.ofColumn
  rw [hsegments]
  split
  · rename_i hbare
    constructor
    · intro _ rest hrest
      rw [← hjoin]
      apply Grammar.kinds_path
      · rw [Column.isBare, hsegments, List.all_eq_true] at hbare
        exact hbare
      · intro c hc
        exact (hrest.breaks c hc).1
    · intro hlineFeed
      exact absurd (Column.lineFeed_not_mem_of_isBare hbare) hlineFeed
  · split
    · exact quote column.name
    · rename_i hquote
      have hspells := @quotedName column.name.toList (by simpa using hquote)
      rw [String.ofList_toList] at hspells
      simpa [Grammar.ColumnPhrase.kinds] using hspells

end RowFilter
