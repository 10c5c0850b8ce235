import RowFilter.Proofs.Grammar.Exactness
import RowFilter.Proofs.Parser.Rejects
import RowFilter.Proofs.Session.Outcome
import RowFilter.Proofs.Token.Tiling

/-!
# Errors stand after a viable prefix

If a token is rejected, what was read before it is the beginning of a tree of the grammar that is
nested no more deeply than allowed. The tree is found by going on from the place of the error in the
shortest way: a comparison that lacks its literal gets one, an open list a literal and its closing
parenthesis, an open group an operand and its closing parenthesis.

The leaves of the tree are sound, with one exception. The literals of a list are compared when the
list is complete, so that a list that is still open may have literals of different types.
-/

set_option autoImplicit false

namespace RowFilter.Grammar

open RowFilter.Parser

/-! ## Beginnings of trees -/

/-- The leaf is a list in parentheses that is still open after so many of its tokens. -/
def Leaf.OpenAfter (given : Nat) : Leaf → Prop
  | member c op first more =>
    (c.kinds ++ membershipKinds op).length < given ∧ given < (member c op first more).kinds.length
  | _ => False

mutual

/-- Every leaf is sound, but for a list that is still open after so many tokens of the tree. For a
part that begins later the number is zero, and no list is open after no tokens. -/
def Phrase.SoundButOpen {s : Symbol} (given : Nat) : Phrase s → Prop
  | .leaf l => l.Sound ∨ l.OpenAfter given
  | .not t => t.SoundButOpen (given - 1)
  | .group t => t.SoundButOpen (given - 1)
  | .chain first more => first.SoundButOpen given ∧ more.SoundButOpen (given - first.kinds.length)

/-- The same for the operands of a repetition. -/
def Rest.SoundButOpen {op : Connective} (given : Nat) : Rest op → Prop
  | .done => True
  | .next t more => t.SoundButOpen (given - 1) ∧ more.SoundButOpen (given - 1 - t.kinds.length)

end

mutual

/-- A tree of sound leaves needs no open list. -/
theorem Phrase.soundButOpen_of_sound {s : Symbol} :
    {t : Phrase s} → (∀ l ∈ t.leaves, l.Sound) → (given : Nat) → t.SoundButOpen given
  | .leaf l, h, _ => Or.inl (h l (List.mem_singleton_self l))
  | .not t, h, given => t.soundButOpen_of_sound h (given - 1)
  | .group t, h, given => t.soundButOpen_of_sound h (given - 1)
  | .chain first more, h, given => by
    obtain ⟨hfirst, hmore⟩ := List.forall_mem_append.mp h
    exact ⟨first.soundButOpen_of_sound hfirst _, more.soundButOpen_of_sound hmore _⟩

/-- The same for the operands of a repetition. -/
theorem Rest.soundButOpen_of_sound {op : Connective} :
    {t : Rest op} → (∀ l ∈ t.leaves, l.Sound) → (given : Nat) → t.SoundButOpen given
  | .done, _, _ => trivial
  | .next t more, h, given => by
    obtain ⟨ht, hmore⟩ := List.forall_mem_append.mp h
    exact ⟨t.soundButOpen_of_sound ht _, more.soundButOpen_of_sound hmore _⟩

end

/-- The kinds begin a leaf that is sound or, after them, an open list. -/
def BeginsLeaf (read : List Kind) : Prop :=
  ∃ (l : Leaf) (more : List Kind), l.kinds = read ++ more ∧ (l.Sound ∨ l.OpenAfter read.length)

/-- The kinds begin a tree of the symbol that is nested no more deeply than given; its leaves are
sound, but for a list that is open after the kinds. -/
def Begins (levels : Nat) (s : Symbol) (read : List Kind) : Prop :=
  ∃ (t : Phrase s) (more : List Kind),
    t.kinds = read ++ more ∧ t.depth ≤ levels ∧ t.SoundButOpen read.length

namespace BeginsLeaf

/-- The beginning of a sound leaf begins a leaf. -/
theorem of_sound {read : List Kind} (l : Leaf) (more : List Kind) (hkinds : l.kinds = read ++ more)
    (hsound : l.Sound) : BeginsLeaf read :=
  ⟨l, more, hkinds, Or.inl hsound⟩

/-- A list is begun, whatever its literals are, as long as one of its kinds is still to come. -/
theorem of_open (c : ColumnPhrase) (op : Membership) {first : LiteralPhrase}
    {more : List LiteralPhrase} {read left : List Kind} {k : Kind}
    (h : LiteralPhrase.listKinds first more ++ [.rightParen] = read ++ k :: left) :
    BeginsLeaf (c.kinds ++ membershipKinds op ++ .leftParen :: read) := by
  have hkinds : (Leaf.member c op first more).kinds =
      c.kinds ++ membershipKinds op ++ .leftParen :: read ++ k :: left := by
    simp [Leaf.kinds, h]
  refine ⟨.member c op first more, _, hkinds, Or.inr ⟨?_, ?_⟩⟩
  · simp
  · rw [hkinds]
    simp

end BeginsLeaf

namespace Begins

variable {levels : Nat} {read : List Kind}

/-- What begins a leaf begins an operand. -/
theorem leaf (levels : Nat) (h : BeginsLeaf read) : Begins levels .operand read := by
  obtain ⟨l, more, hkinds, hsound⟩ := h
  exact ⟨.leaf l, more, hkinds, Nat.zero_le _, hsound⟩

/-- What begins an operand begins one with a negation in front, one level deeper. -/
theorem not (h : Begins levels .operand read) :
    Begins (levels + 1) .operand (.keyword .not :: read) := by
  obtain ⟨t, more, hkinds, hdepth, hsound⟩ := h
  exact ⟨.not t, more, congrArg _ hkinds, Nat.succ_le_succ hdepth, hsound⟩

/-- What begins a filter begins a group with its parenthesis in front, one level deeper. -/
theorem group (h : Begins levels (.chain .or) read) :
    Begins (levels + 1) .operand (.leftParen :: read) := by
  obtain ⟨t, more, hkinds, hdepth, hsound⟩ := h
  refine ⟨.group t, more ++ [.rightParen], ?_, Nat.succ_le_succ hdepth, hsound⟩
  rw [Phrase.kinds, hkinds, List.append_assoc, List.cons_append]

/-- What begins an operand begins a chain of one operand. -/
theorem chain {op : Connective} (h : Begins levels (.below op) read) :
    Begins levels (.chain op) read := by
  obtain ⟨t, more, hkinds, hdepth, hsound⟩ := h
  refine ⟨.chain t .done, more, ?_, ?_, hsound, trivial⟩
  · rw [Phrase.kinds, Rest.kinds, List.append_nil, hkinds]
  · rw [Phrase.depth, Rest.depth, Nat.max_zero]
    exact hdepth

/-- What is read as a tree begins that tree. -/
theorem of_read {s : Symbol} {t : Phrase s} {p : Predicate} (h : t.read levels = .ok p) :
    Begins levels s t.kinds := by
  obtain ⟨hdepth, hsound⟩ := Phrase.exists_read_iff.mp ⟨p, h⟩
  exact ⟨t, [], (List.append_nil _).symm, hdepth, t.soundButOpen_of_sound hsound _⟩

end Begins

/-! ## What is read before a rejected token -/

section

variable {expected : Expected} {ks rest : List Kind}

/-- A path lacks a word after a point. -/
theorem segments_of_rejects (h : Rejects segments ks expected rest) :
    ∃ more, ks = ColumnPhrase.segmentKinds more ++ .dot :: rest := by
  obtain ⟨hresult, rfl⟩ := h
  simp only [segments] at hresult ⊢
  fun_induction readSegments ks with
  | case1 name ks ih =>
    cases hmore : (readSegments ks).result with
    | ok tail => simp [Outcome.map, Except.map, hmore] at hresult
    | error fault =>
      simp only [Outcome.map, Except.map, hmore] at hresult
      cases hresult
      obtain ⟨more, hks⟩ := ih hmore
      refine ⟨name :: more, ?_⟩
      simpa [ColumnPhrase.segmentKinds, Outcome.map] using hks
  | case2 ks _ => exact ⟨[], rfl⟩
  | case3 ks _ _ => contradiction

/-- A column that is not complete begins a path, or nothing of it is read. -/
theorem column_of_rejects (h : Rejects column ks expected rest) :
    ∃ read more, ks = read ++ rest ∧
      ∃ c : ColumnPhrase, c.kinds = read ++ more ∧ c.isText = false := by
  simp only [column, rejects_peek] at h
  split at h
  · rename_i first tail
    rw [rejects_advance_bind] at h
    rcases rejects_bind.mp h with h | ⟨more, mid, -, h⟩
    · obtain ⟨more, rfl⟩ := segments_of_rejects h
      refine ⟨.word first :: ColumnPhrase.segmentKinds more ++ [.dot], [.word "a"], ?_,
        .path first (more ++ ["a"]), ?_, rfl⟩
      · simp
      · simp [ColumnPhrase.kinds, ColumnPhrase.segmentKinds]
    · exact absurd h not_rejects_pure
  · simp [rejects_advance_bind] at h
  · simp [rejects_advance_bind] at h
  · obtain ⟨-, rfl⟩ := rejects_fail.mp h
    exact ⟨[], [.word "a"], rfl, .path "a" [], rfl, rfl⟩

/-- A list lacks a literal. -/
theorem literals_of_rejects (h : Rejects literals ks expected rest) :
    ∃ read first more, ks = read ++ rest ∧
      LiteralPhrase.listKinds first more = read ++ [.integer 1] := by
  obtain ⟨hresult, rfl⟩ := h
  simp only [literals] at hresult ⊢
  fun_induction readLiterals ks with
  | case1 => exact ⟨[], .integer 1, [], rfl, rfl⟩
  | case2 k ks hk => exact ⟨[], .integer 1, [], rfl, rfl⟩
  | case3 k v ks hk ih =>
    cases hmore : (readLiterals ks).result with
    | ok tail => simp [Outcome.map, Except.map, hmore] at hresult
    | error fault =>
      simp only [Outcome.map, Except.map, hmore] at hresult
      cases hresult
      obtain ⟨read, next, more, hks, hkinds⟩ := ih hmore
      obtain ⟨first, rfl, -⟩ := LiteralPhrase.exists_of_literal? hk
      refine ⟨first.kind :: .comma :: read, first, next :: more, ?_, ?_⟩
      · simpa [Outcome.map] using hks
      · simpa [LiteralPhrase.listKinds] using hkinds
  | case4 k ks v hk _ => contradiction

/-- Where a literal is missed nothing of it has been read. -/
theorem literal_of_rejects (h : Rejects literal ks expected rest) : ks = rest :=
  (rejects_take.mp h).2.2

/-- Where a comparison is missed nothing of it has been read. -/
theorem comparison_of_rejects (h : Rejects comparison ks expected rest) : ks = rest :=
  (rejects_take.mp h).2.2

variable {c : ColumnPhrase}

/-- A list that is not complete is open, or its parenthesis has not been read. -/
theorem member_of_rejects {op : Membership}
    (h : Rejects (membership op c.column) ks expected rest) :
    ∃ read, ks = read ++ rest ∧ BeginsLeaf (c.kinds ++ membershipKinds op ++ read) := by
  rcases rejects_bind.mp h with hopen | ⟨_, mid, hopen, hlist⟩
  · obtain ⟨-, -, rfl⟩ := rejects_expect.mp hopen
    refine ⟨[], rfl, .of_sound (.member c op (.integer 1) [])
      [.leftParen, .integer 1, .rightParen] ?_ ?_⟩
    · simp [Leaf.kinds, LiteralPhrase.listKinds, LiteralPhrase.kind]
    · simp [Leaf.Sound]
  rw [(reads_expect _ _ _ _ _).mp hopen]
  rcases rejects_bind.mp hlist with hvalues | ⟨vs, after, hvalues, hclose⟩
  · obtain ⟨read, first, more, rfl, hkinds⟩ := literals_of_rejects hvalues
    have hleft : LiteralPhrase.listKinds first more ++ [.rightParen] =
        read ++ .integer 1 :: [.rightParen] := by
      rw [hkinds, List.append_assoc, List.singleton_append]
    exact ⟨.leftParen :: read, rfl, .of_open c op hleft⟩
  obtain ⟨first, more, rfl, -⟩ := literals_of_reads hvalues
  rcases rejects_bind.mp hclose with hclose | ⟨_, tail, -, hset⟩
  · obtain ⟨-, -, rfl⟩ := rejects_expect.mp hclose
    exact ⟨.leftParen :: LiteralPhrase.listKinds first more, rfl, .of_open c op rfl⟩
  -- a list that makes up no set is an error, but none about its tokens
  · exact absurd hset (not_rejects_ofExcept (by simp))

/-- Where a pattern is missed, the tokens before it begin a pattern test. -/
theorem like_of_rejects {negated : Bool} (h : Rejects (pattern negated c.column) ks expected rest) :
    ks = rest ∧ BeginsLeaf (c.kinds ++ likeKinds negated) := by
  simp only [pattern, rejects_peek] at h
  split at h
  · rename_i raw tail
    rw [rejects_advance_bind] at h
    split at h
    · simp [rejects_bind] at h
    · simp at h
  · obtain ⟨-, rfl⟩ := rejects_fail.mp h
    exact ⟨rfl, .of_sound (.like c negated "") [.string ""] rfl rfl⟩

/-- Before any token that is rejected after a column, a test of this column has been begun. -/
theorem beginsLeaf_of_rejects_afterColumn (h : Rejects (afterColumn c.column) ks expected rest) :
    ∃ read, ks = read ++ rest ∧ BeginsLeaf (c.kinds ++ read) := by
  simp only [afterColumn, rejects_peek] at h
  split at h
  · rw [rejects_advance_bind, rejects_advance_bind] at h
    simp only [rejects_bind, rejects_take, not_rejects_pure, and_false, exists_false, or_false] at h
    obtain ⟨-, -, rfl⟩ := h
    refine ⟨[.keyword .is, .keyword .not], rfl, .of_sound (.test c .notNull) [.keyword .null] ?_
      trivial⟩
    simp [Leaf.kinds, testKinds]
  · rw [rejects_advance_bind] at h
    simp only [rejects_bind, rejects_take, not_rejects_pure, and_false, exists_false, or_false] at h
    obtain ⟨-, -, rfl⟩ := h
    refine ⟨[.keyword .is], rfl, .of_sound (.test c .isNull) [.keyword .null] ?_ trivial⟩
    simp [Leaf.kinds, testKinds]
  · rw [rejects_advance_bind, rejects_advance_bind] at h
    obtain ⟨read, rfl, hbegins⟩ := member_of_rejects h
    exact ⟨membershipKinds .notInSet ++ read, rfl, by rwa [← List.append_assoc]⟩
  · rw [rejects_advance_bind, rejects_advance_bind] at h
    obtain ⟨rfl, hbegins⟩ := like_of_rejects h
    exact ⟨likeKinds true, rfl, hbegins⟩
  -- after `NOT` a membership test could follow as well as a pattern; the pattern is shorter
  · rw [rejects_advance_bind] at h
    obtain ⟨-, rfl⟩ := rejects_fail.mp h
    refine ⟨[.keyword .not], rfl, .of_sound (.like c true "") [.keyword .like, .string ""] ?_ rfl⟩
    simp [Leaf.kinds, likeKinds]
  · rw [rejects_advance_bind] at h
    obtain ⟨read, rfl, hbegins⟩ := member_of_rejects h
    exact ⟨membershipKinds .inSet ++ read, rfl, by rwa [← List.append_assoc]⟩
  · rw [rejects_advance_bind] at h
    obtain ⟨rfl, hbegins⟩ := like_of_rejects h
    exact ⟨likeKinds false, rfl, hbegins⟩
  · rcases rejects_bind.mp h with hop | ⟨op, mid, hop, hvalue⟩
    · obtain rfl := comparison_of_rejects hop
      refine ⟨[], rfl, .of_sound (.compare c .equal (.integer 1))
        [.comparison .equal, .integer 1] ?_ trivial⟩
      rw [List.append_nil]
      rfl
    rw [comparison_of_reads hop]
    rcases rejects_bind.mp hvalue with hvalue | ⟨value, tail, -, hdone⟩
    · obtain rfl := literal_of_rejects hvalue
      refine ⟨[.comparison op], rfl, .of_sound (.compare c op (.integer 1)) [.integer 1] ?_
        trivial⟩
      simp [Leaf.kinds, LiteralPhrase.kind]
    · exact absurd hdone not_rejects_pure

/-- What has been read of a leaf with its column in front begins a leaf. -/
theorem beginsLeaf_of_rejects_columnFirst (h : Rejects columnFirst ks expected rest) :
    ∃ read, ks = read ++ rest ∧ BeginsLeaf read := by
  rcases rejects_bind.mp h with hcolumn | ⟨name, mid, hcolumn, htest⟩
  · obtain ⟨read, more, rfl, c, hkinds, -⟩ := column_of_rejects hcolumn
    refine ⟨read, rfl, .of_sound (.compare c .equal (.integer 1))
      (more ++ [.comparison .equal, .integer 1]) ?_ trivial⟩
    rw [Leaf.kinds, hkinds, List.append_assoc]
    rfl
  · obtain ⟨c, rfl, rfl⟩ := column_of_reads hcolumn
    obtain ⟨read, rfl, hbegins⟩ := beginsLeaf_of_rejects_afterColumn htest
    exact ⟨c.kinds ++ read, (List.append_assoc _ _ _).symm, hbegins⟩

/-- The column that completes a comparison is no text, so that its literal may be one. -/
theorem beginsLeaf_of_rejects_literalFirst (h : Rejects literalFirst ks expected rest) :
    ∃ read, ks = read ++ rest ∧ BeginsLeaf read := by
  rcases rejects_bind.mp h with hvalue | ⟨_, mid, hvalue, hcompare⟩
  · obtain rfl := literal_of_rejects hvalue
    exact ⟨[], rfl, .of_sound (.const true) _ rfl trivial⟩
  obtain ⟨v, rfl, -⟩ := literal_of_reads hvalue
  rcases rejects_bind.mp hcompare with hop | ⟨op, mid, hop, hright⟩
  · obtain rfl := comparison_of_rejects hop
    exact ⟨[v.kind], rfl,
      .of_sound (.reflected v .equal (.path "a" []) (Bool.and_false _)) _ rfl trivial⟩
  rw [comparison_of_reads hop]
  rcases rejects_bind.mp hright with hcolumn | ⟨_, _, -, hdone⟩
  · obtain ⟨read, more, rfl, c, hkinds, htext⟩ := column_of_rejects hcolumn
    have hdistinct : (v.isText && c.isText) = false := by rw [htext, Bool.and_false]
    refine ⟨v.kind :: .comparison op :: read, rfl, .of_sound (.reflected v op c hdistinct) more ?_
      trivial⟩
    rw [Leaf.kinds, hkinds]
    rfl
  · exact absurd hdone not_rejects_pure

/-- What has been read of a leaf begins a leaf. -/
theorem beginsLeaf_of_rejects (h : Rejects atom ks expected rest) :
    ∃ read, ks = read ++ rest ∧ BeginsLeaf read := by
  simp only [atom, rejects_peek] at h
  split at h
  · exact beginsLeaf_of_rejects_literalFirst h
  · simp [rejects_advance_bind] at h
  · exact beginsLeaf_of_rejects_literalFirst h
  · exact beginsLeaf_of_rejects_literalFirst h
  · exact beginsLeaf_of_rejects_literalFirst h
  · exact beginsLeaf_of_rejects_literalFirst h
  · exact beginsLeaf_of_rejects_columnFirst h
  · exact beginsLeaf_of_rejects_columnFirst h
  · exact beginsLeaf_of_rejects_columnFirst h
  · obtain ⟨-, rfl⟩ := rejects_fail.mp h
    exact ⟨[], rfl, .of_sound (.const true) _ rfl trivial⟩

/-- The induction is on the levels of nesting. Below a negation or a parenthesis it gives the
beginning of an operand; only the closing parenthesis of a group is rejected after a whole tree. -/
theorem begins_of_rejects_operand {levels : Nat} (h : Rejects (operand levels) ks expected rest) :
    ∃ read, ks = read ++ rest ∧ Begins levels .operand read := by
  induction levels generalizing ks with
  | zero =>
    simp only [operand, rejects_peek] at h
    split at h
    · simp [rejects_advance_bind] at h
    · simp [rejects_advance_bind] at h
    · obtain ⟨read, rfl, hbegins⟩ := beginsLeaf_of_rejects h
      exact ⟨read, rfl, Begins.leaf 0 hbegins⟩
  | succ n ih =>
    simp only [operand, rejects_peek] at h
    split at h
    · rw [rejects_advance_bind] at h
      rcases rejects_bind.mp h with hoperand | ⟨p, mid, -, hdone⟩
      · obtain ⟨read, rfl, hbegins⟩ := ih hoperand
        exact ⟨_, rfl, hbegins.not⟩
      · exact absurd hdone not_rejects_pure
    · rw [rejects_advance_bind] at h
      rcases rejects_bind.mp h with hoperand | ⟨p, mid, hread, hclose⟩
      · obtain ⟨read, rfl, hbegins⟩ := ih (rejects_connected.mp hoperand)
        exact ⟨_, rfl, hbegins.chain.chain.group⟩
      · -- the group is read, and its closing parenthesis is missed
        obtain ⟨t, rfl, ht⟩ := phrase_of_reads hread
        rcases rejects_bind.mp hclose with hclose | ⟨_, _, -, hdone⟩
        · obtain ⟨-, -, rfl⟩ := rejects_expect.mp hclose
          exact ⟨_, rfl, (Begins.of_read ht).group⟩
        · exact absurd hdone not_rejects_pure
    · obtain ⟨read, rfl, hbegins⟩ := beginsLeaf_of_rejects h
      exact ⟨read, rfl, Begins.leaf _ hbegins⟩

/-- What has been read before the token that is reported begins a tree. -/
theorem begins_of_rejects {levels : Nat} (h : Rejects (expression levels) ks expected rest) :
    ∃ read, ks = read ++ rest ∧ Begins levels (.chain .or) read := by
  obtain ⟨read, hks, hbegins⟩ := begins_of_rejects_operand (rejects_expression.mp h)
  exact ⟨read, hks, hbegins.chain.chain⟩

end

/-! ## Errors of texts -/

/-- Syntax errors are reported at a viable prefix. The unexpected token has one place in the text,
which may be its end, and the tokens before it begin a tree of the grammar that is nested no more
deeply than allowed. The leaves of the tree are sound, but for a list that is still open at the
token. -/
theorem parseWith_viable {config : Config} {text : String} {expected : Expected} {found : Token}
    (h : parseWith config text = .error (.unexpectedToken expected found)) :
    ∃ i, (∀ j, (TokenStream.ofText text).withEnd[j]? = some found ↔ j = i) ∧
      ∃ (t : Phrase (.chain .or)) (more : List Kind),
        t.kinds = (TokenStream.ofText text).kinds.take i ++ more ∧ t.depth ≤ config.maxDepth ∧
          t.SoundButOpen i := by
  let s := Session.start config text
  obtain ⟨-, rest, -, hfound, hrest⟩ := Session.readAll_unexpected (s := s) h
  have hs : s.rest <:+ s.stream.tokens := List.suffix_refl _
  obtain ⟨read, hread, t, more, hkinds, hdepth, hsound⟩ :
      ∃ read, s.rest.map Token.kind = read ++ rest ∧
        Begins config.maxDepth (.chain .or) read := by
    -- the parser has given up before the token, or it has read a whole tree up to it
    rcases hrest with hrejects | ⟨-, p, hreads⟩
    · exact begins_of_rejects hrejects
    · obtain ⟨t, hkinds, ht⟩ := phrase_of_reads hreads
      exact ⟨t.kinds, hkinds, Begins.of_read ht⟩
  have htoken := Session.getElem?_withEnd_index ((s.rest_leave_suffix rest.length).trans hs)
  have hindex : (s.leave rest.length).index = read.length := by
    rw [Session.index_leave hs hread]
    show s.stream.tokens.length - s.stream.tokens.length + read.length = read.length
    omega
  rw [hindex, ← hfound] at htoken
  refine ⟨read.length, ?_, t, more, ?_, hdepth, hsound⟩
  · intro j
    constructor
    · intro hj
      exact TokenStream.index_unique text hj htoken rfl
    · rintro rfl
      exact htoken
  · have hall : (TokenStream.ofText text).kinds = read ++ rest := hread
    rw [hall, List.take_left, hkinds]

/-- In `NOT (a IN (1, 'x' b` the list is open at the last word. It can be completed as far as its
tokens go, although its literals make up no set. -/
theorem parseWith_viable_open :
    parseWith ⟨2⟩ "NOT (a IN (1, 'x' b" =
        .error (.unexpectedToken .rightParen ⟨.word "b", "b", ⟨1, 19⟩⟩) ∧
      ∃ (t : Phrase (.chain .or)) (more : List Kind),
        t.kinds = (TokenStream.ofText "NOT (a IN (1, 'x' b").kinds.take 8 ++ more ∧ t.depth ≤ 2 ∧
          t.SoundButOpen 8 := by
  have h : parseWith ⟨2⟩ "NOT (a IN (1, 'x' b" =
      .error (.unexpectedToken .rightParen ⟨.word "b", "b", ⟨1, 19⟩⟩) := by
    rw [← failure?_eq_some]
    decide +kernel
  refine ⟨h, ?_⟩
  obtain ⟨i, hunique, hbegins⟩ := parseWith_viable h
  obtain rfl : 8 = i := (hunique 8).mp (by decide +kernel)
  exact hbegins

end RowFilter.Grammar
