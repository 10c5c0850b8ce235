import RowFilter.Proofs.Token.Spelling

/-!
# Tokens tile their text

A text is cut into tokens by asking for the next token again and again, up to the end token. Between
the tokens there are gaps of blanks; gaps and tokens in turn are the text, with no character lost,
doubled or rewritten, and the position of a token is told from the characters before it alone. One
step of the cutting is described first, and from it, by induction, a whole run.
-/

set_option autoImplicit false

namespace RowFilter

/-! ## Positions -/

/-- The place after the characters from the beginning of a text: the line feeds among them are
counted, and the characters since the last one. -/
def Position.following (before : List Char) : Position :=
  ⟨1 + before.count '\n', 1 + (before.reverse.takeWhile (· != '\n')).length⟩

namespace Position

/-- One character more moves the place by one step. -/
theorem following_snoc (before : List Char) (c : Char) :
    following (before ++ [c]) = (following before).next c := by
  simp only [following, List.reverse_append, List.reverse_singleton, List.singleton_append,
    List.count_append, next]
  by_cases hc : c = '\n'
  · subst hc
    simp [Nat.add_assoc]
  · simp [hc, Nat.add_comm]

/-- Walking through a text ends at the place that follows it. -/
theorem following_append (before cs : List Char) :
    following (before ++ cs) = (following before).advance cs := by
  induction cs generalizing before with
  | nil => rw [List.append_nil, advance, List.foldl_nil]
  | cons c cs ih =>
    have hsplit : before ++ c :: cs = before ++ [c] ++ cs := by simp
    rw [hsplit, ih, following_snoc, advance, advance, List.foldl_cons]

/-- The first place comes before the second one in reading order. -/
def Before (p q : Position) : Prop :=
  p.line < q.line ∨ p.line = q.line ∧ p.column < q.column

/-- Reading order is transitive. -/
theorem Before.trans {p q r : Position} (h : p.Before q) (h' : q.Before r) : p.Before r := by
  unfold Before at *
  omega

/-- What comes before a place comes before all that do not come before it. -/
theorem Before.trans_not {p q r : Position} (h : p.Before q) (h' : ¬ r.Before q) : p.Before r := by
  unfold Before at *
  omega

/-- No place comes before itself. -/
theorem Before.irrefl (p : Position) : ¬ p.Before p := by
  unfold Before
  omega

/-- Every character moves the place forward. -/
theorem before_next (p : Position) (c : Char) : p.Before (p.next c) := by
  unfold next
  split
  · exact Or.inl (Nat.lt_succ_self _)
  · exact Or.inr ⟨rfl, Nat.lt_succ_self _⟩

/-- Every character moves the place on. -/
theorem before_advance (p : Position) {cs : List Char} (h : cs ≠ []) : p.Before (p.advance cs) := by
  induction cs generalizing p with
  | nil => contradiction
  | cons c cs ih =>
    have hadvance : p.advance (c :: cs) = (p.next c).advance cs := rfl
    rw [hadvance]
    by_cases hcs : cs = []
    · subst hcs
      exact p.before_next c
    · exact (p.before_next c).trans (ih (p.next c) hcs)

/-- What comes before a place comes before all that follow it. -/
theorem Before.advance {p q : Position} (h : p.Before q) (cs : List Char) :
    p.Before (q.advance cs) := by
  by_cases hcs : cs = []
  · subst hcs
    exact h
  · exact h.trans (q.before_advance hcs)

/-- No place that follows comes before. -/
theorem not_advance_before (p : Position) (cs : List Char) : ¬ (p.advance cs).Before p :=
  fun h => Before.irrefl _ (h.advance cs)

end Position

/-! ## One step -/

namespace Cursor

/-- When only blanks are left the next token is the end token. -/
theorem next_of_nil {cursor : Cursor} (h : cursor.skipBlanks.rest = []) :
    cursor.next = (Token.atEnd cursor.skipBlanks.position, cursor.skipBlanks) := by
  simp only [next, h]

/-- After the blanks the next token is the lexeme that begins there. -/
theorem next_of_cons {cursor : Cursor} {c : Char} {cs : List Char}
    (h : cursor.skipBlanks.rest = c :: cs) :
    cursor.next = (token cursor.skipBlanks.position (Lexeme.scan c cs),
      after cursor.skipBlanks.position (Lexeme.scan c cs)) := by
  simp only [next, h]

/-- One step of the cutting: a gap of blanks is skipped, then the token is taken, and the cursor
stands behind it. -/
structure Steps (cursor : Cursor) (gap : List Char) : Prop where
  blank : ∀ c ∈ gap, Text.isBlank c = true
  cuts : cursor.rest = gap ++ cursor.next.1.text.toList ++ cursor.next.2.rest
  position_eq : cursor.next.1.position = cursor.position.advance gap
  advances : cursor.next.2.position = cursor.next.1.position.advance cursor.next.1.text.toList
  text_eq_empty_iff : cursor.next.1.text = "" ↔ cursor.next.1.kind = .eof
  rest_of_eof : cursor.next.1.kind = .eof → cursor.next.2.rest = []

/-- Every cursor steps over some blanks and one token. -/
theorem exists_steps (cursor : Cursor) : ∃ gap, cursor.Steps gap := by
  refine ⟨cursor.rest.takeWhile Text.isBlank, ?_⟩
  have hblank : ∀ c ∈ cursor.rest.takeWhile Text.isBlank, Text.isBlank c = true :=
    List.all_eq_true.mp List.all_takeWhile
  have hsplit : cursor.rest = cursor.rest.takeWhile Text.isBlank ++ cursor.skipBlanks.rest :=
    List.takeWhile_append_dropWhile.symm
  -- behind the blanks is the end, or the first character of a lexeme
  cases hrest : cursor.skipBlanks.rest with
  | nil =>
    have hcuts : cursor.rest = cursor.rest.takeWhile Text.isBlank ++ [] ++ [] := by
      rw [List.append_nil, ← hrest]
      exact hsplit
    constructor
    case blank => exact hblank
    all_goals rw [next_of_nil hrest]
    case cuts => rw [hrest]; exact hcuts
    case position_eq => rfl
    case advances => rfl
    case text_eq_empty_iff => exact iff_of_true rfl rfl
    case rest_of_eof => exact fun _ => hrest
  | cons c cs =>
    have hcuts : cursor.rest = cursor.rest.takeWhile Text.isBlank ++ (Lexeme.scan c cs).text ++
        (Lexeme.scan c cs).rest := by
      rw [List.append_assoc, Lexeme.scan_append, ← hrest]
      exact hsplit
    have hempty : String.ofList (Lexeme.scan c cs).text ≠ "" := by
      simpa using Lexeme.scan_text_ne_nil c cs
    have heof := Lexeme.scan_kind_ne_eof c cs
    constructor
    case blank => exact hblank
    all_goals rw [next_of_cons hrest]
    case cuts => simpa only [token, after, String.toList_ofList] using hcuts
    case position_eq => rfl
    case advances => simp only [token, after, String.toList_ofList]
    case text_eq_empty_iff => exact iff_of_false hempty heof
    case rest_of_eof => exact fun h => absurd h heof

/-! ## Runs -/

/-- Asking for the next token, again and again, gives these tokens, the last of which is the first
end token. -/
inductive Emits : Cursor → List Token → Prop
  | stop {cursor : Cursor} (h : cursor.next.1.kind = .eof) : Emits cursor [cursor.next.1]
  | more {cursor : Cursor} {ts : List Token} (h : cursor.next.1.kind ≠ .eof)
    (rest : Emits cursor.next.2 ts) : Emits cursor (cursor.next.1 :: ts)

/-- The cutting comes to an end, since each token makes the text that is left shorter, and its
tokens are those of the stream. -/
theorem emits_stream (cursor : Cursor) : cursor.Emits cursor.stream.withEnd := by
  induction hlength : cursor.rest.length using Nat.strongRecOn generalizing cursor with
  | ind n ih =>
    cases hrest : cursor.skipBlanks.rest with
    | nil =>
      have hnext := next_of_nil hrest
      have hstop : cursor.next.1.kind = .eof := by rw [hnext]; rfl
      have hemits := Emits.stop hstop
      rw [hnext] at hemits
      rw [stream_of_nil hrest]
      exact hemits
    | cons c cs =>
      have hnext := next_of_cons hrest
      have hmore : cursor.next.1.kind ≠ .eof := by
        rw [hnext]
        exact Lexeme.scan_kind_ne_eof c cs
      have hlt := hlength ▸ length_rest_lt hrest
      have htail := ih _ hlt (after cursor.skipBlanks.position (Lexeme.scan c cs)) rfl
      have hnext2 : cursor.next.2 = after cursor.skipBlanks.position (Lexeme.scan c cs) := by
        rw [hnext]
      rw [← hnext2] at htail
      have hemits := Emits.more hmore htail
      rw [hnext] at hemits
      rw [stream_of_cons hrest]
      exact hemits

end Cursor

/-- Gaps and pieces in turn. -/
def Text.weave (gaps pieces : List (List Char)) : List Char :=
  (List.zipWith (· ++ ·) gaps pieces).flatten

/-- Without gaps nothing is woven. -/
@[simp]
theorem Text.weave_nil (pieces : List (List Char)) : weave [] pieces = [] :=
  rfl

/-- The first gap and the first piece stand in front. -/
@[simp]
theorem Text.weave_cons (gap piece : List Char) (gaps pieces : List (List Char)) :
    weave (gap :: gaps) (piece :: pieces) = gap ++ piece ++ weave gaps pieces :=
  rfl

/-- Gaps of blanks and the texts of tokens make up a text that stands after some characters, and
each token is placed where it stands. -/
structure Tiling (before cs : List Char) (gaps : List (List Char)) (ts : List Token) : Prop where
  length_eq : gaps.length = ts.length
  blank : ∀ gap ∈ gaps, ∀ c ∈ gap, Text.isBlank c = true
  covers : cs = Text.weave gaps (ts.map fun t => t.text.toList)
  placed : ∀ i gap t, gaps[i]? = some gap → ts[i]? = some t →
    t.position = Position.following
      (before ++ Text.weave (gaps.take i) ((ts.take i).map fun t => t.text.toList) ++ gap)

/-- A tiling of a text from a gap and a token on. -/
theorem Tiling.cons {before cs gap : List Char} {gaps : List (List Char)} {t : Token}
    {ts : List Token} (hblank : ∀ c ∈ gap, Text.isBlank c = true)
    (hplace : t.position = Position.following (before ++ gap))
    (h : Tiling (before ++ (gap ++ t.text.toList)) cs gaps ts) :
    Tiling before (gap ++ t.text.toList ++ cs) (gap :: gaps) (t :: ts) where
  length_eq := congrArg (· + 1) h.length_eq
  blank := List.forall_mem_cons.mpr ⟨hblank, h.blank⟩
  covers := congrArg (gap ++ t.text.toList ++ ·) h.covers
  placed := by
    intro i gap' t' hgap ht
    cases i with
    | zero =>
      cases hgap
      cases ht
      rw [hplace]
      simp
    | succ i =>
      rw [h.placed i gap' t' hgap ht]
      simp

/-- A token is placed behind all the characters before it. -/
theorem Cursor.Steps.position_following {cursor : Cursor} {gap before : List Char}
    (h : cursor.Steps gap) (hbefore : cursor.position = Position.following before) :
    cursor.next.1.position = Position.following (before ++ gap) := by
  rw [h.position_eq, hbefore, Position.following_append]

namespace Cursor.Emits

/-- A run from a place tiles the text that is left there. The induction is on the run, and the
characters before the cursor grow by a gap and a token in each step. -/
theorem tiling {cursor : Cursor} {ts : List Token} (h : cursor.Emits ts) {before : List Char}
    (hbefore : cursor.position = Position.following before) :
    ∃ gaps, Tiling before cursor.rest gaps ts := by
  induction h generalizing before with
  | @stop cursor hstop =>
    obtain ⟨gap, hstep⟩ := cursor.exists_steps
    have hend : Tiling (before ++ (gap ++ cursor.next.1.text.toList)) [] [] [] :=
      ⟨rfl, by simp, rfl, by simp⟩
    have htiling := Tiling.cons hstep.blank (hstep.position_following hbefore) hend
    rw [hstep.cuts, hstep.rest_of_eof hstop]
    exact ⟨_, htiling⟩
  | @more cursor ts hmore hrest ih =>
    obtain ⟨gap, hstep⟩ := cursor.exists_steps
    have hplace := hstep.position_following hbefore
    have hafter : cursor.next.2.position =
        Position.following (before ++ (gap ++ cursor.next.1.text.toList)) := by
      rw [← List.append_assoc, Position.following_append, ← hplace, hstep.advances]
    obtain ⟨gaps, htiling⟩ := ih hafter
    rw [hstep.cuts]
    exact ⟨_, Tiling.cons hstep.blank hplace htiling⟩

/-- In a run only the end token is empty. -/
theorem text_eq_empty_iff {cursor : Cursor} {ts : List Token} (h : cursor.Emits ts) :
    ∀ t ∈ ts, t.text = "" ↔ t.kind = .eof := by
  induction h with
  | @stop cursor hstop =>
    obtain ⟨gap, hstep⟩ := cursor.exists_steps
    exact List.forall_mem_singleton.mpr hstep.text_eq_empty_iff
  | @more cursor ts hmore hrest ih =>
    obtain ⟨gap, hstep⟩ := cursor.exists_steps
    exact List.forall_mem_cons.mpr ⟨hstep.text_eq_empty_iff, ih⟩

/-- Every token of a run but the end token is a lexeme of the text. -/
theorem exists_scan {cursor : Cursor} {ts : List Token} (h : cursor.Emits ts) :
    ∀ t ∈ ts, t.kind ≠ .eof → ∃ c cs, t.kind = (Lexeme.scan c cs).kind ∧
      t.text.toList = (Lexeme.scan c cs).text := by
  induction h with
  | stop hstop =>
    intro t ht hne
    rw [List.mem_singleton.mp ht] at hne
    exact absurd hstop hne
  | @more cursor ts hmore hrest ih =>
    refine List.forall_mem_cons.mpr ⟨?_, ih⟩
    intro hne
    cases hrest : cursor.skipBlanks.rest with
    | nil =>
      rw [Cursor.next_of_nil hrest] at hne
      exact absurd rfl hne
    | cons c cs =>
      rw [Cursor.next_of_cons hrest]
      exact ⟨c, cs, rfl, String.toList_ofList⟩

/-- No token of a run stands before the cursor. -/
theorem position_ge {cursor : Cursor} {ts : List Token} (h : cursor.Emits ts) :
    ∀ t ∈ ts, ¬ t.position.Before cursor.position := by
  induction h with
  | @stop cursor hstop =>
    obtain ⟨gap, hstep⟩ := cursor.exists_steps
    refine List.forall_mem_singleton.mpr ?_
    rw [hstep.position_eq]
    exact Position.not_advance_before _ _
  | @more cursor ts hmore hrest ih =>
    obtain ⟨gap, hstep⟩ := cursor.exists_steps
    refine List.forall_mem_cons.mpr ⟨?_, ?_⟩
    · rw [hstep.position_eq]
      exact Position.not_advance_before _ _
    · intro t ht hbefore
      apply ih t ht
      rw [hstep.advances, hstep.position_eq]
      exact (hbefore.advance _).advance _

/-- The positions of a run grow from token to token. -/
theorem pairwise_before {cursor : Cursor} {ts : List Token} (h : cursor.Emits ts) :
    ts.Pairwise fun t u => t.position.Before u.position := by
  induction h with
  | stop hstop => exact List.pairwise_singleton _ _
  | @more cursor ts hmore hrest ih =>
    obtain ⟨gap, hstep⟩ := cursor.exists_steps
    have htext : cursor.next.1.text.toList ≠ [] := by
      simpa using mt hstep.text_eq_empty_iff.mp hmore
    have hbehind : cursor.next.1.position.Before cursor.next.2.position := by
      rw [hstep.advances]
      exact Position.before_advance _ htext
    refine List.pairwise_cons.mpr ⟨?_, ih⟩
    intro u hu
    exact hbehind.trans_not (hrest.position_ge u hu)

end Cursor.Emits

namespace TokenStream

/-- No token of a stream has an empty text. The end token has one, and it is none of them. -/
theorem text_ne_empty (text : String) : ∀ t ∈ (ofText text).tokens, t.text ≠ "" := by
  intro t ht hempty
  have hmem : t ∈ (ofText text).withEnd := List.mem_append_left _ ht
  have hiff := (Cursor.ofText text).emits_stream.text_eq_empty_iff t hmem
  exact kind_ne_eof text t ht (hiff.mp hempty)

/-- A token of a text, the end token included, is told from the others by its position. -/
theorem index_unique (text : String) {i j : Nat} {t u : Token}
    (ht : (ofText text).withEnd[i]? = some t) (hu : (ofText text).withEnd[j]? = some u)
    (hposition : t.position = u.position) : i = j := by
  have hgrow := List.pairwise_iff_getElem.mp (Cursor.ofText text).emits_stream.pairwise_before
  obtain ⟨hi, rfl⟩ := List.getElem?_eq_some_iff.mp ht
  obtain ⟨hj, rfl⟩ := List.getElem?_eq_some_iff.mp hu
  rcases Nat.lt_trichotomy i j with hlt | heq | hlt
  · have hbefore := hgrow i j hi hj hlt
    exact absurd (hposition ▸ hbefore) (Position.Before.irrefl _)
  · exact heq
  · have hbefore := hgrow j i hj hi hlt
    exact absurd (hposition ▸ hbefore) (Position.Before.irrefl _)

/-- The tokens of a text tile it. Cutting comes to an end for every text, invalid tokens or not;
the last token, and only this one, is the end token, which is empty, and no other token is. Gaps of
blanks and the tokens in turn are the text, and every token, the end token included, has the line
and the column that the characters before it make. -/
theorem ofText_tiles (text : String) :
    (Cursor.ofText text).Emits (ofText text).withEnd ∧
    (ofText text).withEnd = (ofText text).tokens ++ [⟨.eof, "", (ofText text).stop⟩] ∧
    (∀ t ∈ (ofText text).tokens, t.kind ≠ .eof ∧ t.text ≠ "") ∧
    ∃ gaps, Tiling [] text.toList gaps (ofText text).withEnd := by
  have hemits := (Cursor.ofText text).emits_stream
  have hstart : (Cursor.ofText text).position = Position.following [] := rfl
  refine ⟨hemits, rfl, ?_, hemits.tiling hstart⟩
  intro t ht
  exact ⟨kind_ne_eof text t ht, text_ne_empty text t ht⟩

end TokenStream

end RowFilter
