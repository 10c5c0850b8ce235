import RowFilter.Proofs.Grammar.Leaf
import RowFilter.Proofs.Parser.Reads

/-!
# Leaves are read exactly

The parser of leaves agrees with the trees of leaves. In one direction the tokens of a leaf, before
a token that cannot go on with it, are read as what the leaf stands for, or with its violation. In
the other direction whatever is read as a leaf has the tokens of one.
-/

set_option autoImplicit false

namespace RowFilter.Grammar

open RowFilter.Parser

/-! ## Columns and literals -/

/-- The token of a literal carries the literal. -/
@[simp]
theorem LiteralPhrase.literal?_kind (v : LiteralPhrase) : v.kind.literal? = some v.value := by
  cases v <;> rfl

/-- Every token that carries a literal is a way to write that literal. -/
theorem LiteralPhrase.exists_of_literal? {k : Kind} {v : Literal} (h : k.literal? = some v) :
    ∃ phrase : LiteralPhrase, phrase.kind = k ∧ phrase.value = v := by
  unfold Kind.literal? at h
  split at h
  · exact ⟨.text _, rfl, Option.some.inj h⟩
  · exact ⟨.integer _, rfl, Option.some.inj h⟩
  · exact ⟨.decimal _, rfl, Option.some.inj h⟩
  · exact ⟨.boolean _, rfl, Option.some.inj h⟩
  · contradiction

/-- A literal is read from its token. -/
theorem run_literal (v : LiteralPhrase) (rest : List Kind) :
    literal.run (v.kind :: rest) = ⟨.ok v.value, rest, []⟩ :=
  run_take_of_some v.literal?_kind _ _

/-- A comparison is read from its token. -/
theorem run_comparison (op : Comparison) (rest : List Kind) :
    comparison.run (.comparison op :: rest) = ⟨.ok op, rest, []⟩ :=
  run_take_of_some (show Kind.comparison? (.comparison op) = some op from rfl) _ _

/-- An expected token is passed. -/
theorem run_expect (kind : Kind) (expected : Expected) (rest : List Kind) :
    (expect kind expected).run (kind :: rest) = ⟨.ok (), rest, []⟩ :=
  run_take_of_some (by simp) _ _

/-- The segments of a path are read up to a token that is no point. -/
theorem readSegments_append (more : List String) {rest : List Kind}
    (hrest : rest.head? ≠ some .dot) :
    readSegments (ColumnPhrase.segmentKinds more ++ rest) = ⟨.ok more, rest, []⟩ := by
  induction more with
  | nil =>
    cases rest with
    | nil => rfl
    | cons k ks =>
      have hk : k ≠ .dot := by
        intro hk
        exact hrest (by rw [hk]; rfl)
      cases k <;> first | rfl | contradiction
  | cons segment more ih =>
    simp only [ColumnPhrase.segmentKinds, List.flatMap_cons, List.cons_append,
      List.nil_append] at ih ⊢
    rw [readSegments, ih]
    rfl

/-- A column is read from its tokens, up to a token that is no point. -/
theorem run_column (c : ColumnPhrase) {rest : List Kind} (hrest : rest.head? ≠ some .dot) :
    column.run (c.kinds ++ rest) = ⟨.ok c.column, rest, []⟩ := by
  cases c with
  | path first more =>
    have hsegments := readSegments_append more hrest
    simp only [column, ColumnPhrase.kinds, List.cons_append, run_peek, run_bind, run_advance,
      List.tail_cons, run_pure]
    simp only [segments, Outcome.andThen, hsegments, Outcome.logAfter, ColumnPhrase.column]
    rfl
  | quoted name => rfl
  | text raw => rfl

/-- A literal with a comma after it is followed by more literals. -/
theorem readLiterals_of_comma {k : Kind} {v : Literal} (h : k.literal? = some v) (ks : List Kind) :
    readLiterals (k :: .comma :: ks) = (readLiterals ks).map (v :: ·) := by
  rw [readLiterals.eq_def]
  simp only [h]

/-- A literal without a comma after it is the last one. -/
theorem readLiterals_of_last {k : Kind} {v : Literal} (h : k.literal? = some v) {ks : List Kind}
    (hks : ks.head? ≠ some .comma) : readLiterals (k :: ks) = ⟨.ok [v], ks, []⟩ := by
  rw [readLiterals.eq_def]
  simp only [h]
  split
  · contradiction
  · exact absurd rfl hks
  · rename_i hsome _
    cases hsome
    rfl

/-- The literals of a list are read up to a token that is no comma. -/
theorem readLiterals_append (first : LiteralPhrase) (more : List LiteralPhrase) {rest : List Kind}
    (hrest : rest.head? ≠ some .comma) :
    readLiterals (LiteralPhrase.listKinds first more ++ rest) =
      ⟨.ok (first.value :: more.map LiteralPhrase.value), rest, []⟩ := by
  induction more generalizing first with
  | nil => exact readLiterals_of_last first.literal?_kind hrest
  | cons v more ih =>
    have hmore := ih v
    simp only [LiteralPhrase.listKinds, List.flatMap_cons, List.cons_append, List.nil_append,
      List.map_cons] at hmore ⊢
    rw [readLiterals_of_comma first.literal?_kind, hmore]
    rfl

/-! ## Tests after their column -/

/-- After its column a test is read from its tokens, whatever follows. -/
theorem run_afterColumn_test (c : ColumnPhrase) (op : ColumnTest) (rest : List Kind) :
    (afterColumn c.column).run (testKinds op ++ rest) = ⟨.ok (.test op c.column), rest, []⟩ := by
  cases op <;> rfl

/-- A list in parentheses is read as a set, or with the fault of its literals. -/
theorem run_membership (c : ColumnPhrase) (op : Membership) (first : LiteralPhrase)
    (more : List LiteralPhrase) (rest : List Kind) :
    (membership op c.column).run
        (.leftParen :: LiteralPhrase.listKinds first more ++ .rightParen :: rest) =
      ⟨Leaf.read (.member c op first more), rest, []⟩ := by
  have hlist := @readLiterals_append first more (.rightParen :: rest) (by simp)
  simp only [membership, run_bind, List.cons_append, run_expect, Outcome.andThen, literals, hlist,
    Outcome.logAfter, List.nil_append, Leaf.read, Leaf.meaning]
  cases Predicate.ofMembers op c.column (first.value :: more.map LiteralPhrase.value) <;> rfl

/-- After its column a membership test is read from its tokens, whatever follows. -/
theorem run_afterColumn_member (c : ColumnPhrase) (op : Membership) (first : LiteralPhrase)
    (more : List LiteralPhrase) (rest : List Kind) :
    (afterColumn c.column).run
        (membershipKinds op ++
          .leftParen :: LiteralPhrase.listKinds first more ++ .rightParen :: rest) =
      ⟨Leaf.read (.member c op first more), rest, []⟩ := by
  have hset := run_membership c op first more rest
  cases op with
  | inSet => simpa [afterColumn, membershipKinds] using hset
  | notInSet => simpa [afterColumn, membershipKinds] using hset

/-- A pattern is read and logged from its token, or with the fault of its wildcards. -/
theorem run_pattern (c : ColumnPhrase) (negated : Bool) (raw : String) (rest : List Kind) :
    (pattern negated c.column).run (.string raw :: rest) =
      ⟨Leaf.read (.like c negated raw), rest, (Leaf.like c negated raw).log⟩ := by
  simp only [pattern, run_peek, run_bind, run_advance, List.tail_cons, Outcome.andThen, Leaf.read,
    Leaf.meaning, Leaf.log]
  cases Pattern.ofRaw? raw.toList <;> rfl

/-- After its column a pattern test is read from its tokens, whatever follows. -/
theorem run_afterColumn_like (c : ColumnPhrase) (negated : Bool) (raw : String)
    (rest : List Kind) :
    (afterColumn c.column).run (likeKinds negated ++ .string raw :: rest) =
      ⟨Leaf.read (.like c negated raw), rest, (Leaf.like c negated raw).log⟩ := by
  have hpattern := run_pattern c negated raw rest
  cases negated with
  | false => simpa [afterColumn, likeKinds] using hpattern
  | true => simpa [afterColumn, likeKinds] using hpattern

/-- After its column a comparison is read from its tokens, whatever follows. -/
theorem run_afterColumn_compare (c : ColumnPhrase) (op : Comparison) (v : LiteralPhrase)
    (rest : List Kind) :
    (afterColumn c.column).run (.comparison op :: v.kind :: rest) =
      ⟨.ok (.compare op c.column v.value), rest, []⟩ := by
  simp [afterColumn, run_comparison, run_literal]

/-! ## Leaves -/

/-- The tokens after a column do not make it the right side of a comparison. -/
def StaysLeft (ks : List Kind) : Prop :=
  ∀ op k more, ks = .comparison op :: k :: more → k.literal?.isSome

/-- A leaf that begins with a column is read as such a leaf. -/
theorem run_atom_column (c : ColumnPhrase) {ks : List Kind} (hdot : ks.head? ≠ some .dot)
    (hleft : StaysLeft ks) : atom.run (c.kinds ++ ks) = (afterColumn c.column).run ks := by
  have hfirst : columnFirst.run (c.kinds ++ ks) = (afterColumn c.column).run ks := by
    simp [columnFirst, run_column c hdot]
  rw [← hfirst]
  cases c with
  | path first more => rfl
  | quoted name => rfl
  | text raw =>
    simp only [atom, run_peek, ColumnPhrase.kinds, List.cons_append, List.nil_append]
    split <;> simp_all [StaysLeft, Kind.literal?]

/-- A leaf that begins with a literal and goes on with a column is read as a reflected
comparison. -/
theorem run_atom_literal (v : LiteralPhrase) (op : Comparison) (c : ColumnPhrase)
    (distinct : (v.isText && c.isText) = false) (ks : List Kind) :
    atom.run (v.kind :: .comparison op :: (c.kinds ++ ks)) =
      literalFirst.run (v.kind :: .comparison op :: (c.kinds ++ ks)) := by
  cases v with
  | boolean b => rfl
  | integer n => rfl
  | decimal d => rfl
  | text raw =>
    cases c with
    | path first more => rfl
    | quoted name => rfl
    | text raw' => simp [LiteralPhrase.isText, ColumnPhrase.isText] at distinct

/-- A comparison that begins with its literal is read with its sides exchanged. No point may follow,
for it would go on with the column. -/
theorem run_literalFirst (v : LiteralPhrase) (op : Comparison) (c : ColumnPhrase) {rest : List Kind}
    (hdot : rest.head? ≠ some .dot) :
    literalFirst.run (v.kind :: .comparison op :: (c.kinds ++ rest)) =
      ⟨.ok (.compare (mirrored op) c.column v.value), rest, []⟩ := by
  simp [literalFirst, run_literal, run_comparison, run_column c hdot, flipped_eq_mirrored]

/-- What may stand after a leaf does not go on with it. -/
def EndsLeaf (rest : List Kind) : Prop :=
  ∀ k, rest.head? = some k → k ≠ .dot ∧ k.isComparison = false

/-- A constant is read from its keyword, unless it is compared with something. -/
theorem run_atom_const (b : Bool) {rest : List Kind} (hrest : EndsLeaf rest) :
    atom.run (.keyword (.bool b) :: rest) = ⟨.ok (.const b), rest, []⟩ := by
  cases rest with
  | nil => rfl
  | cons k ks =>
    have hk := (hrest k rfl).2
    cases k <;> first | rfl | simp [Kind.isComparison] at hk

/-- A list is read from its tokens, whatever stands after them. -/
theorem run_atom_member (c : ColumnPhrase) (op : Membership) (first : LiteralPhrase)
    (more : List LiteralPhrase) (rest : List Kind) :
    atom.run ((Leaf.member c op first more).kinds ++ rest) =
      ⟨Leaf.read (.member c op first more), rest, []⟩ := by
  have hread := run_afterColumn_member c op first more rest
  simp only [Leaf.kinds, List.append_assoc, List.cons_append, List.nil_append] at hread ⊢
  rw [run_atom_column c, hread]
  · cases op <;> simp [membershipKinds]
  · cases op <;> simp [membershipKinds, StaysLeft]

/-- A pattern is read from its tokens, whatever stands after them. -/
theorem run_atom_like (c : ColumnPhrase) (negated : Bool) (raw : String) (rest : List Kind) :
    atom.run ((Leaf.like c negated raw).kinds ++ rest) =
      ⟨Leaf.read (.like c negated raw), rest, (Leaf.like c negated raw).log⟩ := by
  have hread := run_afterColumn_like c negated raw rest
  simp only [Leaf.kinds, List.append_assoc, List.cons_append, List.nil_append] at hread ⊢
  rw [run_atom_column c, hread]
  · cases negated <;> simp [likeKinds]
  · cases negated <;> simp [likeKinds, StaysLeft]

/-- A leaf is read from its tokens: as what it stands for, or with its violation. -/
theorem run_leaf (l : Leaf) {rest : List Kind} (hrest : EndsLeaf rest) :
    atom.run (l.kinds ++ rest) = ⟨l.read, rest, l.log⟩ := by
  cases l with
  | const b => exact run_atom_const b hrest
  | test c op =>
    rw [Leaf.kinds, List.append_assoc, run_atom_column c, run_afterColumn_test]
    · rfl
    · cases op <;> simp [testKinds]
    · cases op <;> simp [testKinds, StaysLeft]
  | member c op first more => exact run_atom_member c op first more rest
  | like c negated raw => exact run_atom_like c negated raw rest
  | compare c op v =>
    simp only [Leaf.kinds, List.append_assoc, List.cons_append, List.nil_append]
    rw [run_atom_column c, run_afterColumn_compare]
    · rfl
    · simp
    · simp [StaysLeft]
  | reflected v op c distinct =>
    have hdot : rest.head? ≠ some .dot := fun h => (hrest _ h).1 rfl
    simp only [Leaf.kinds, List.cons_append]
    rw [run_atom_literal v op c distinct, run_literalFirst v op c hdot]
    rfl

/-! ## What is read has a tree -/

/-- Segments are read from points and words only. -/
theorem segments_of_reads {ks : List Kind} {more : List String} {rest : List Kind}
    (h : Reads segments ks more rest) : ks = ColumnPhrase.segmentKinds more ++ rest := by
  obtain ⟨hresult, rfl⟩ := h
  simp only [segments] at hresult ⊢
  fun_induction readSegments ks generalizing more with
  | case1 name ks ih =>
    cases hmore : (readSegments ks).result with
    | error fault => simp [Outcome.map, Except.map, hmore] at hresult
    | ok tail =>
      simp only [Outcome.map, Except.map, hmore] at hresult
      cases hresult
      simpa [ColumnPhrase.segmentKinds, Outcome.map] using ih hmore
  | case2 ks _ => simp at hresult
  | case3 ks _ _ =>
    cases hresult
    rfl

/-- Whatever is read as a column is a way to write it. -/
theorem column_of_reads {ks : List Kind} {c : Column} {rest : List Kind}
    (h : Reads column ks c rest) :
    ∃ phrase : ColumnPhrase, ks = phrase.kinds ++ rest ∧ phrase.column = c := by
  simp only [column, reads_peek] at h
  split at h
  · rename_i first tail
    rw [reads_advance_bind] at h
    simp only [reads_bind, reads_pure] at h
    obtain ⟨more, _, hmore, rfl, rfl⟩ := h
    refine ⟨.path first more, ?_, rfl⟩
    simp [ColumnPhrase.kinds, segments_of_reads hmore]
  · rename_i name tail
    simp only [reads_advance_bind, reads_pure] at h
    obtain ⟨rfl, rfl⟩ := h
    exact ⟨.quoted name, rfl, rfl⟩
  · rename_i raw tail
    simp only [reads_advance_bind, reads_pure] at h
    obtain ⟨rfl, rfl⟩ := h
    exact ⟨.text raw, rfl, rfl⟩
  · simp at h

/-- Whatever is read as a literal is a way to write it. -/
theorem literal_of_reads {ks : List Kind} {v : Literal} {rest : List Kind}
    (h : Reads literal ks v rest) :
    ∃ phrase : LiteralPhrase, ks = phrase.kind :: rest ∧ phrase.value = v := by
  simp only [literal, reads_take] at h
  obtain ⟨k, rfl, hk⟩ := h
  obtain ⟨phrase, rfl, hv⟩ := LiteralPhrase.exists_of_literal? hk
  exact ⟨phrase, rfl, hv⟩

/-- A comparison is read from its own token only. -/
theorem comparison_of_reads {ks : List Kind} {op : Comparison} {rest : List Kind}
    (h : Reads comparison ks op rest) : ks = .comparison op :: rest := by
  simp only [comparison, reads_take] at h
  obtain ⟨k, rfl, hk⟩ := h
  cases k <;> simp [Kind.comparison?] at hk
  rw [hk]

/-- Literals are read from a list with commas between them. -/
theorem literals_of_reads {ks : List Kind} {vs : List Literal} {rest : List Kind}
    (h : Reads literals ks vs rest) :
    ∃ first more, ks = LiteralPhrase.listKinds first more ++ rest ∧
      vs = first.value :: more.map LiteralPhrase.value := by
  obtain ⟨hresult, rfl⟩ := h
  simp only [literals] at hresult ⊢
  fun_induction readLiterals ks generalizing vs with
  | case1 => simp at hresult
  | case2 k tail hk => simp at hresult
  | case3 k v tail hk ih =>
    obtain ⟨first, rfl, rfl⟩ := LiteralPhrase.exists_of_literal? hk
    cases hmore : (readLiterals tail).result with
    | error fault => simp [Outcome.map, Except.map, hmore] at hresult
    | ok vs' =>
      simp only [Outcome.map, Except.map, hmore] at hresult
      cases hresult
      obtain ⟨next, more, htail, rfl⟩ := ih hmore
      refine ⟨first, next :: more, ?_, rfl⟩
      simpa [LiteralPhrase.listKinds, Outcome.map] using htail
  | case4 k v tail hcomma hk =>
    obtain ⟨first, rfl, rfl⟩ := LiteralPhrase.exists_of_literal? hk
    cases hresult
    exact ⟨first, [], rfl, rfl⟩

/-- The keywords from which a column test is read are those of the test. -/
theorem operator_of_columnTest? {k : Kind} {negated : Bool} {op : ColumnTest}
    (h : k.columnTest? negated = some op) :
    .keyword .is :: ((bif negated then [.keyword .not] else []) ++ [k]) = testKinds op := by
  unfold Kind.columnTest? at h
  cases negated <;> split at h <;> cases h <;> rfl

/-- Whatever is read as a set after a column has the tokens of a list, and the leaf stands for what
is read. -/
theorem member_of_reads {c : ColumnPhrase} {op : Membership} {ks : List Kind} {p : Predicate}
    {rest : List Kind} (h : Reads (membership op c.column) ks p rest) :
    ∃ first more, ks = .leftParen :: LiteralPhrase.listKinds first more ++ .rightParen :: rest ∧
      (Leaf.member c op first more).meaning = .ok p := by
  simp only [membership, reads_bind, reads_expect, reads_ofExcept] at h
  obtain ⟨-, mid, rfl, vs, after, hvs, -, tail, rfl, hp, rfl⟩ := h
  obtain ⟨first, more, rfl, rfl⟩ := literals_of_reads hvs
  refine ⟨first, more, rfl, ?_⟩
  simp only [Leaf.meaning, hp, Except.mapError]

/-- Whatever is read as a pattern after a column is one string, and the leaf stands for what is
read. -/
theorem like_of_reads {c : ColumnPhrase} {negated : Bool} {ks : List Kind} {p : Predicate}
    {rest : List Kind} (h : Reads (pattern negated c.column) ks p rest) :
    ∃ raw, ks = .string raw :: rest ∧ (Leaf.like c negated raw).meaning = .ok p := by
  simp only [pattern, reads_peek] at h
  split at h
  · rename_i raw tail
    rw [reads_advance_bind] at h
    cases hlowered : Pattern.ofRaw? raw.toList with
    | none => simp [hlowered] at h
    | some lowered =>
      simp only [hlowered, reads_bind, reads_record, reads_pure] at h
      obtain ⟨_, _, rfl, rfl, rfl⟩ := h
      refine ⟨raw, rfl, ?_⟩
      simp only [Leaf.meaning, hlowered]
  · simp at h

/-- Whatever is read after a column makes up a leaf together with it. -/
theorem leaf_of_reads_afterColumn {c : ColumnPhrase} {ks : List Kind} {p : Predicate}
    {rest : List Kind} (h : Reads (afterColumn c.column) ks p rest) :
    ∃ l : Leaf, c.kinds ++ ks = l.kinds ++ rest ∧ l.meaning = .ok p := by
  simp only [afterColumn, reads_peek] at h
  -- the keywords behind the column tell the forms of a leaf apart
  split at h
  · rw [reads_advance_bind, reads_advance_bind] at h
    simp only [reads_bind, reads_take, reads_pure] at h
    obtain ⟨op, _, ⟨k, rfl, hop⟩, rfl, rfl⟩ := h
    refine ⟨.test c op, ?_, rfl⟩
    simp [Leaf.kinds, ← operator_of_columnTest? hop]
  · rw [reads_advance_bind] at h
    simp only [reads_bind, reads_take, reads_pure] at h
    obtain ⟨op, _, ⟨k, rfl, hop⟩, rfl, rfl⟩ := h
    refine ⟨.test c op, ?_, rfl⟩
    simp [Leaf.kinds, ← operator_of_columnTest? hop]
  · rw [reads_advance_bind, reads_advance_bind] at h
    obtain ⟨first, more, rfl, hp⟩ := member_of_reads h
    exact ⟨.member c .notInSet first more, by simp [Leaf.kinds, membershipKinds], hp⟩
  · rw [reads_advance_bind, reads_advance_bind] at h
    obtain ⟨raw, rfl, hp⟩ := like_of_reads h
    exact ⟨.like c true raw, by simp [Leaf.kinds, likeKinds], hp⟩
  · simp at h
  · rw [reads_advance_bind] at h
    obtain ⟨first, more, rfl, hp⟩ := member_of_reads h
    exact ⟨.member c .inSet first more, by simp [Leaf.kinds, membershipKinds], hp⟩
  · rw [reads_advance_bind] at h
    obtain ⟨raw, rfl, hp⟩ := like_of_reads h
    exact ⟨.like c false raw, by simp [Leaf.kinds, likeKinds], hp⟩
  · simp only [reads_bind, reads_pure] at h
    obtain ⟨op, _, hop, v, _, hv, rfl, rfl⟩ := h
    obtain ⟨value, rfl, rfl⟩ := literal_of_reads hv
    rw [comparison_of_reads hop]
    exact ⟨.compare c op value, by simp [Leaf.kinds], rfl⟩

/-- Whatever is read as a leaf that begins with its column has the tokens of such a leaf. -/
theorem leaf_of_reads_columnFirst {ks : List Kind} {p : Predicate} {rest : List Kind}
    (h : Reads columnFirst ks p rest) : ∃ l : Leaf, ks = l.kinds ++ rest ∧ l.meaning = .ok p := by
  simp only [columnFirst, reads_bind] at h
  obtain ⟨c, tail, hc, htail⟩ := h
  obtain ⟨phrase, rfl, rfl⟩ := column_of_reads hc
  exact leaf_of_reads_afterColumn htail

/-- Whatever is read as a leaf that begins with its literal has the tokens of a reflected
comparison. The parser comes here only if the sides are not both text. -/
theorem leaf_of_reads_literalFirst {ks : List Kind} {p : Predicate} {rest : List Kind}
    (hdistinct : ∀ raw op raw' more, ks ≠ .string raw :: .comparison op :: .string raw' :: more)
    (h : Reads literalFirst ks p rest) : ∃ l : Leaf, ks = l.kinds ++ rest ∧ l.meaning = .ok p := by
  simp only [literalFirst, reads_bind, reads_pure] at h
  obtain ⟨v, _, hv, op, _, hop, c, _, hc, rfl, rfl⟩ := h
  obtain ⟨value, rfl, rfl⟩ := literal_of_reads hv
  obtain ⟨column, rfl, rfl⟩ := column_of_reads hc
  obtain rfl := comparison_of_reads hop
  rw [flipped_eq_mirrored]
  refine ⟨.reflected value op column ?_, rfl, rfl⟩
  cases value <;> cases column <;> first | rfl | exact absurd rfl (hdistinct _ _ _ _)

/-- Whatever is read as a leaf has the tokens of a leaf and is what that leaf stands for. -/
theorem leaf_of_reads {ks : List Kind} {p : Predicate} {rest : List Kind}
    (h : Reads atom ks p rest) : ∃ l : Leaf, ks = l.kinds ++ rest ∧ l.meaning = .ok p := by
  simp only [atom, reads_peek] at h
  split at h
  · exact leaf_of_reads_literalFirst (by simp) h
  · rename_i b tail _
    simp only [reads_advance_bind, reads_pure] at h
    obtain ⟨rfl, rfl⟩ := h
    exact ⟨.const b, rfl, rfl⟩
  · exact leaf_of_reads_literalFirst (by simp) h
  · exact leaf_of_reads_literalFirst (by simp) h
  · exact leaf_of_reads_literalFirst (by simp) h
  · exact leaf_of_reads_literalFirst (by simp) h
  · exact leaf_of_reads_columnFirst h
  · exact leaf_of_reads_columnFirst h
  · exact leaf_of_reads_columnFirst h
  · simp at h

end RowFilter.Grammar
