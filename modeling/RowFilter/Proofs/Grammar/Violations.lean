import RowFilter.Proofs.Grammar.LeafReading

/-!
# Readings that fail with a violation

A parser gives up because of a violation if it has read a list whose literals make up no set, or a
pattern with a misplaced wildcard. The lemmas below take such a failure apart as those on rejected
tokens do. A list and a pattern are checked as soon as they are complete, so a leaf has its
violation whatever stands after it.
-/

set_option autoImplicit false

namespace RowFilter.Grammar

open RowFilter.Parser

/-! ## Parsers that fail with a violation -/

/-- The parser gives up because of a violation. -/
def Violates {α : Type} (p : Parser α) (ks : List Kind) (v : Violation) : Prop :=
  (p.run ks).result = .error v.fault

section

variable {α β : Type} {ks : List Kind} {v : Violation}

/-- Parsers in sequence give up where the first one does, or the second after the first has read
something. -/
theorem violates_bind {p : Parser α} {f : α → Parser β} :
    Violates (p >>= f) ks v ↔
      Violates p ks v ∨ ∃ a mid, Reads p ks a mid ∧ Violates (f a) mid v := by
  unfold Violates Reads
  rw [run_bind]
  obtain ⟨result, mid, log⟩ := p.run ks
  cases result with
  | ok a =>
    constructor
    · intro h
      exact Or.inr ⟨a, mid, ⟨rfl, rfl⟩, h⟩
    · rintro (h | ⟨a', mid', ⟨ha, rfl⟩, h⟩)
      · contradiction
      · cases ha
        exact h
  | error fault => simp

/-- Returning a value violates nothing. -/
@[simp]
theorem not_violates_pure {a : α} : ¬ Violates (pure a) ks v := by
  simp [Violates]

/-- Failing is a violation exactly with the fault of one. -/
@[simp]
theorem violates_fail {fault : Fault} :
    Violates (fail fault : Parser α) ks v ↔ fault = v.fault := by
  simp [Violates]

/-- A parser that looks at the tokens gives up where the chosen parser does. -/
@[simp]
theorem violates_peek {f : List Kind → Parser α} :
    Violates (peek f) ks v ↔ Violates (f ks) ks v :=
  Iff.rfl

/-- Passing a token violates nothing. -/
@[simp]
theorem not_violates_advance : ¬ Violates advance ks v := by
  simp [Violates]

/-- After passing a token a parser gives up where it does on the tokens behind. -/
theorem violates_advance_bind {f : Unit → Parser α} {k : Kind} :
    Violates (advance >>= f) (k :: ks) v ↔ Violates (f ()) ks v :=
  Iff.rfl

/-- Logging a pattern violates nothing. -/
@[simp]
theorem not_violates_record {entry : LoweredPattern} : ¬ Violates (record entry) ks v := by
  simp [Violates]

/-- Nesting too deeply is no violation. -/
theorem tooDeep_ne_fault : .tooDeep ≠ v.fault := by
  cases v <;> simp [Violation.fault]

/-- An unexpected token is no violation. -/
theorem unexpected_ne_fault (expected : Expected) : .unexpected expected ≠ v.fault :=
  (v.fault_ne_unexpected expected).symm

/-- Taking a token violates nothing. -/
@[simp]
theorem not_violates_take {select : Kind → Option α} {expected : Expected} :
    ¬ Violates (take select expected) ks v := by
  unfold Violates
  cases ks with
  | nil => simp [unexpected_ne_fault]
  | cons k ks =>
    cases h : select k with
    | none => simp [run_take_of_none h, unexpected_ne_fault]
    | some a => simp [run_take_of_some h]

/-- Expecting a token violates nothing. -/
@[simp]
theorem not_violates_expect {kind : Kind} {expected : Expected} :
    ¬ Violates (expect kind expected) ks v :=
  not_violates_take

/-- Literals that make up no set are the violation of a list. -/
theorem violates_ofExcept {answer : Except TypeError α} :
    Violates (Parser.ofExcept .invalidSet answer) ks v ↔ answer.mapError .list = .error v := by
  cases answer with
  | ok a => exact iff_of_false not_violates_pure (by simp [Except.mapError])
  | error e =>
    show Violates (fail (.invalidSet e)) ks v ↔ _
    rw [violates_fail]
    cases v <;> simp [Violation.fault, Except.mapError]

/-- Reading the segments of a path violates nothing. -/
theorem not_violates_segments : ¬ Violates segments ks v := by
  intro h
  replace h : (readSegments ks).result = .error v.fault := h
  fun_induction readSegments ks with
  | case1 name ks ih =>
    cases hmore : (readSegments ks).result with
    | ok more => simp [Outcome.map, Except.map, hmore] at h
    | error fault =>
      simp only [Outcome.map, Except.map, hmore] at h
      exact ih (hmore.trans h)
  | case2 => exact unexpected_ne_fault _ (Except.error.inj h)
  | case3 => contradiction

/-- Reading literals violates nothing; only a set made of them can. -/
theorem not_violates_literals : ¬ Violates literals ks v := by
  intro h
  replace h : (readLiterals ks).result = .error v.fault := h
  fun_induction readLiterals ks with
  | case1 | case2 => exact unexpected_ne_fault _ (Except.error.inj h)
  | case3 k w ks hk ih =>
    cases hmore : (readLiterals ks).result with
    | ok more => simp [Outcome.map, Except.map, hmore] at h
    | error fault =>
      simp only [Outcome.map, Except.map, hmore] at h
      cases h
      exact ih hmore
  | case4 => contradiction

/-- Reading a column violates nothing. -/
theorem not_violates_column : ¬ Violates column ks v := by
  simp only [column, violates_peek]
  split
  · simp [violates_bind, not_violates_segments]
  · simp [violates_bind]
  · simp [violates_bind]
  · simp [unexpected_ne_fault]

end

/-! ## Leaves -/

section

variable {c : ColumnPhrase} {ks : List Kind} {v : Violation}

/-- A leaf that stands for nothing is refused whatever stands after it: only lists and patterns are
such leaves, and both are read without a look ahead. -/
theorem Leaf.violates {l : Leaf} (h : l.meaning = .error v) (rest : List Kind) :
    Violates atom (l.kinds ++ rest) v := by
  have hread : l.read = .error v.fault := by
    rw [Leaf.read, h]
    rfl
  cases l with
  | member c op first more =>
    rw [Violates, run_atom_member]
    exact hread
  | like c negated raw =>
    rw [Violates, run_atom_like]
    exact hread
  | const | test | compare | reflected => contradiction

/-- A parser of sets that gives up has read a whole list, and its leaf has the violation. -/
theorem member_of_violates {op : Membership} (h : Violates (membership op c.column) ks v) :
    ∃ read rest, ks = read ++ rest ∧
      ∃ l : Leaf, l.kinds = c.kinds ++ (membershipKinds op ++ read) ∧ l.meaning = .error v := by
  simp only [membership, violates_bind, not_violates_expect, not_violates_literals, false_or,
    reads_expect, violates_ofExcept] at h
  obtain ⟨-, mid, rfl, vs, after, hvs, -, tail, rfl, hset⟩ := h
  obtain ⟨first, more, rfl, rfl⟩ := literals_of_reads hvs
  exact ⟨.leftParen :: LiteralPhrase.listKinds first more ++ [.rightParen], tail, by simp,
    .member c op first more, by simp [Leaf.kinds], hset⟩

/-- A parser of patterns that gives up has read the pattern, and its leaf has the violation. -/
theorem like_of_violates {negated : Bool} (h : Violates (pattern negated c.column) ks v) :
    ∃ read rest, ks = read ++ rest ∧
      ∃ l : Leaf, l.kinds = c.kinds ++ (likeKinds negated ++ read) ∧ l.meaning = .error v := by
  simp only [pattern, violates_peek] at h
  split at h
  · rename_i raw tail
    rw [violates_advance_bind] at h
    split at h
    · simp [violates_bind] at h
    · rename_i hpattern
      refine ⟨[.string raw], tail, rfl, .like c negated raw, by simp [Leaf.kinds], ?_⟩
      rw [violates_fail] at h
      cases v with
      | list cause => contradiction
      | pattern raw' =>
        cases h
        simp [Leaf.meaning, hpattern]
  · exact absurd (violates_fail.mp h) (unexpected_ne_fault _)

/-- After a column the parser gives up only at the end of a leaf that has the violation. -/
theorem leaf_of_violates_afterColumn (h : Violates (afterColumn c.column) ks v) :
    ∃ read rest, ks = read ++ rest ∧
      ∃ l : Leaf, l.kinds = c.kinds ++ read ∧ l.meaning = .error v := by
  simp only [afterColumn, violates_peek] at h
  split at h
  · simp [violates_bind] at h
  · simp [violates_bind] at h
  · obtain ⟨read, rest, rfl, hleaf⟩ := member_of_violates h
    exact ⟨membershipKinds .notInSet ++ read, rest, rfl, hleaf⟩
  · obtain ⟨read, rest, rfl, hleaf⟩ := like_of_violates h
    exact ⟨likeKinds true ++ read, rest, rfl, hleaf⟩
  · simp [violates_bind, unexpected_ne_fault] at h
  · obtain ⟨read, rest, rfl, hleaf⟩ := member_of_violates h
    exact ⟨membershipKinds .inSet ++ read, rest, rfl, hleaf⟩
  · obtain ⟨read, rest, rfl, hleaf⟩ := like_of_violates h
    exact ⟨likeKinds false ++ read, rest, rfl, hleaf⟩
  · simp [violates_bind, comparison, literal] at h

/-- A leaf with its column in front gives up only at its end. -/
theorem leaf_of_violates_columnFirst (h : Violates columnFirst ks v) :
    ∃ (l : Leaf) (rest : List Kind), ks = l.kinds ++ rest ∧ l.meaning = .error v := by
  simp only [columnFirst, violates_bind, not_violates_column, false_or] at h
  obtain ⟨name, mid, hcolumn, htest⟩ := h
  obtain ⟨c, rfl, rfl⟩ := column_of_reads hcolumn
  obtain ⟨read, rest, rfl, l, hkinds, hmeaning⟩ := leaf_of_violates_afterColumn htest
  exact ⟨l, rest, by rw [hkinds, List.append_assoc], hmeaning⟩

/-- A comparison with its literal in front violates nothing. -/
theorem not_violates_literalFirst : ¬ Violates literalFirst ks v := by
  simp [literalFirst, violates_bind, literal, comparison, not_violates_column]

/-- A violation is that of a leaf whose tokens stand at the front. -/
theorem leaf_of_violates (h : Violates atom ks v) :
    ∃ (l : Leaf) (rest : List Kind), ks = l.kinds ++ rest ∧ l.meaning = .error v := by
  simp only [atom, violates_peek] at h
  split at h
  · exact absurd h not_violates_literalFirst
  · simp [violates_bind] at h
  · exact absurd h not_violates_literalFirst
  · exact absurd h not_violates_literalFirst
  · exact absurd h not_violates_literalFirst
  · exact absurd h not_violates_literalFirst
  · exact leaf_of_violates_columnFirst h
  · exact leaf_of_violates_columnFirst h
  · exact leaf_of_violates_columnFirst h
  · exact absurd (violates_fail.mp h) (unexpected_ne_fault _)

end

end RowFilter.Grammar
