import RowFilter.Parser.Expression
import RowFilter.Proofs.Parser.Reads

/-!
# Readings that fail at a token

A parser rejects a token if it gives up before it because it expected another one. The lemmas below
take such a failure apart, one for each way in which parsers are made: of two parsers one after the
other either the first one rejects a token, or it reads its value and the second one does.

Chains forget the tokens that their later operands reject. Therefore a chain rejects a token exactly
if its first operand does, and so does an expression.
-/

set_option autoImplicit false

namespace RowFilter.Parser

/-- The parser gives up before the rest, the first token of which is not as it expected. -/
def Rejects {α : Type} (p : Parser α) (ks : List Kind) (expected : Expected)
    (rest : List Kind) : Prop :=
  (p.run ks).result = .error (.unexpected expected) ∧ (p.run ks).rest = rest

section

variable {α β : Type} {expected : Expected} {ks rest : List Kind}

/-- Parsers in sequence give up where the first one does, or the second after the first has read
something. -/
theorem rejects_bind {p : Parser α} {f : α → Parser β} :
    Rejects (p >>= f) ks expected rest ↔
      Rejects p ks expected rest ∨ ∃ a mid, Reads p ks a mid ∧ Rejects (f a) mid expected rest := by
  unfold Rejects Reads
  rw [run_bind]
  obtain ⟨result, mid, log⟩ := p.run ks
  cases result with
  | ok a =>
    constructor
    · intro h
      exact Or.inr ⟨a, mid, ⟨rfl, rfl⟩, h⟩
    · rintro (⟨h, -⟩ | ⟨a', mid', ⟨ha, rfl⟩, h⟩)
      · contradiction
      · cases ha
        exact h
  | error fault => simp

/-- Returning a value expects nothing. -/
@[simp]
theorem not_rejects_pure {a : α} : ¬ Rejects (pure a) ks expected rest := by
  simp [Rejects]

/-- Failing rejects a token exactly with the fault of an unexpected one. -/
@[simp]
theorem rejects_fail {fault : Fault} :
    Rejects (fail fault : Parser α) ks expected rest ↔
      fault = .unexpected expected ∧ ks = rest := by
  simp [Rejects]

/-- A parser that looks at the tokens gives up where the chosen parser does. -/
@[simp]
theorem rejects_peek {f : List Kind → Parser α} :
    Rejects (peek f) ks expected rest ↔ Rejects (f ks) ks expected rest :=
  Iff.rfl

/-- Passing a token expects nothing. -/
@[simp]
theorem not_rejects_advance : ¬ Rejects advance ks expected rest := by
  simp [Rejects]

/-- After passing a token a parser gives up where it does on the tokens behind. -/
theorem rejects_advance_bind {f : Unit → Parser α} {k : Kind} :
    Rejects (advance >>= f) (k :: ks) expected rest ↔ Rejects (f ()) ks expected rest :=
  Iff.rfl

/-- Logging a pattern expects nothing. -/
@[simp]
theorem not_rejects_record {entry : LoweredPattern} :
    ¬ Rejects (record entry) ks expected rest := by
  simp [Rejects]

/-- Taking a token gives up before a token of another kind. -/
@[simp]
theorem rejects_take {select : Kind → Option α} {wanted : Expected} :
    Rejects (take select wanted) ks expected rest ↔
      (∀ k, ks.head? = some k → select k = none) ∧ wanted = expected ∧ ks = rest := by
  unfold Rejects
  cases ks with
  | nil => simp
  | cons k ks =>
    cases h : select k with
    | none => simp [run_take_of_none h, h]
    | some a => simp [run_take_of_some h, h]

/-- Expecting a token gives up before another token. -/
@[simp]
theorem rejects_expect {kind : Kind} {wanted : Expected} :
    Rejects (expect kind wanted) ks expected rest ↔
      ks.head? ≠ some kind ∧ wanted = expected ∧ ks = rest := by
  cases ks <;> simp [expect]

/-- Giving an answer expects nothing, if its fault is no unexpected token. -/
theorem not_rejects_ofExcept {ε : Type} {fault : ε → Fault} {answer : Except ε α}
    (h : ∀ e, fault e ≠ .unexpected expected) :
    ¬ Rejects (ofExcept fault answer) ks expected rest := by
  cases answer with
  | ok a => exact not_rejects_pure
  | error e =>
    intro hrejects
    exact h e (rejects_fail.mp hrejects).1

end

/-! ## Chains -/

section

variable {levels : Nat} {op : Connective} {p : Parser Predicate} {expected : Expected}
  {ks rest : List Kind}

/-- The later operands of a chain are never the reason to reject a token. -/
theorem not_rejects_operands : ¬ Rejects (operands op p) ks expected rest := by
  rintro ⟨h, -⟩
  replace h : (readOperands op p ks).result = .error (.unexpected expected) := h
  fun_induction readOperands op p ks with
  | case1 more o q hq hlen ih =>
    cases hrest : (readOperands op p o.rest).result with
    | ok qs => simp [Outcome.map, Outcome.logAfter, Except.map, hrest] at h
    | error fault =>
      simp only [Outcome.map, Outcome.logAfter, Except.map, hrest] at h
      cases h
      exact ih hrest
  | case2 | case4 | case5 => contradiction
  | case3 more o fault hfault ho =>
    cases h
    exact hfault expected rfl

/-- A chain gives up before a token only where its first operand does; later operands are taken
back. -/
@[simp]
theorem rejects_chain : Rejects (chain op p) ks expected rest ↔ Rejects p ks expected rest := by
  unfold chain
  rw [rejects_bind, or_iff_left]
  rintro ⟨first, mid, -, h⟩
  rcases rejects_bind.mp h with h | ⟨more, mid, -, h⟩
  · exact not_rejects_operands h
  · exact not_rejects_pure h

/-- Chains of both connectives give up before a token only where their first operand does. -/
@[simp]
theorem rejects_connected :
    Rejects (connected p) ks expected rest ↔ Rejects p ks expected rest := by
  rw [connected, rejects_chain, rejects_chain]

/-- An expression rejects a token exactly if its first operand does. -/
theorem rejects_expression :
    Rejects (expression levels) ks expected rest ↔ Rejects (operand levels) ks expected rest :=
  rejects_connected

end

/-! ## The end of the text

No part of an expression expects the end of the text: this is left to the reading of the whole. -/

section

variable {levels : Nat} {ks rest : List Kind}

/-- The segments of a path never ask for the end of the text. -/
@[simp]
theorem not_rejects_segments_endOfText : ¬ Rejects segments ks .endOfText rest := by
  rintro ⟨h, -⟩
  replace h : (readSegments ks).result = .error (.unexpected .endOfText) := h
  fun_induction readSegments ks with
  | case1 name ks ih =>
    cases hmore : (readSegments ks).result with
    | ok more => simp [Outcome.map, Except.map, hmore] at h
    | error fault =>
      simp only [Outcome.map, Except.map, hmore] at h
      exact ih (hmore.trans h)
  | case2 | case3 => simp at h

/-- Literals never ask for the end of the text. -/
@[simp]
theorem not_rejects_literals_endOfText : ¬ Rejects literals ks .endOfText rest := by
  rintro ⟨h, -⟩
  replace h : (readLiterals ks).result = .error (.unexpected .endOfText) := h
  fun_induction readLiterals ks with
  | case3 k v ks hk ih =>
    cases hmore : (readLiterals ks).result with
    | ok more => simp [Outcome.map, Except.map, hmore] at h
    | error fault =>
      simp only [Outcome.map, Except.map, hmore] at h
      cases h
      exact ih hmore
  | case1 | case2 | case4 => simp at h

/-- A column never asks for the end of the text. -/
@[simp]
theorem not_rejects_column_endOfText : ¬ Rejects column ks .endOfText rest := by
  simp only [column, rejects_peek]
  split <;> simp [rejects_bind]

/-- A set never asks for the end of the text. -/
@[simp]
theorem not_rejects_membership_endOfText {op : Membership} {c : Column} :
    ¬ Rejects (membership op c) ks .endOfText rest := by
  simp [membership, rejects_bind, not_rejects_ofExcept]

/-- A pattern never asks for the end of the text. -/
@[simp]
theorem not_rejects_pattern_endOfText {negated : Bool} {c : Column} :
    ¬ Rejects (pattern negated c) ks .endOfText rest := by
  simp only [pattern, rejects_peek]
  split
  · rw [rejects_advance_bind]
    split <;> simp [rejects_bind]
  · simp

/-- What is read after a column never asks for the end of the text. -/
@[simp]
theorem not_rejects_afterColumn_endOfText {c : Column} :
    ¬ Rejects (afterColumn c) ks .endOfText rest := by
  simp only [afterColumn, rejects_peek]
  split <;> simp [rejects_bind, comparison, literal]

/-- A leaf never asks for the end of the text. -/
@[simp]
theorem not_rejects_atom_endOfText : ¬ Rejects atom ks .endOfText rest := by
  simp only [atom, rejects_peek]
  split <;> simp [literalFirst, columnFirst, rejects_bind, comparison, literal]

/-- An operand never asks for the end of the text. -/
@[simp]
theorem not_rejects_operand_endOfText : ¬ Rejects (operand levels) ks .endOfText rest := by
  induction levels generalizing ks rest with
  | zero =>
    simp only [operand, rejects_peek]
    split <;> simp [rejects_bind]
  | succ n ih =>
    simp only [operand, rejects_peek]
    split <;> simp [rejects_bind, ih]

/-- An expression never asks for the end of the text. This is asked for behind it only. -/
theorem not_rejects_expression_endOfText : ¬ Rejects (expression levels) ks .endOfText rest := by
  rw [rejects_expression]
  exact not_rejects_operand_endOfText

end

end RowFilter.Parser
