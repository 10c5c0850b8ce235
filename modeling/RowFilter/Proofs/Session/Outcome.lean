import RowFilter.Proofs.Parser.Rejects
import RowFilter.Session

/-!
# Readings as outcomes

Both readings of a session are made in the same way from an outcome of the parser on the kinds that
are left. For one expression it is the outcome of the expression itself; for the whole text, if no
token is invalid, anything left after the expression is a fault of the outcome.

In both readings the session moves past the tokens that are read, and an error about an unexpected
token is about the next one. Either the expression rejects this token, or it ends before it.
-/

set_option autoImplicit false

namespace RowFilter

/-- The outcome of reading up to the end: what is left after a value is a fault. -/
def Outcome.closed {α : Type} (o : Outcome α) : Outcome α :=
  o.andThen fun a rest =>
    if rest.isEmpty then ⟨.ok a, rest, []⟩ else ⟨.error (.unexpected .endOfText), rest, []⟩

/-- Closing an outcome does not change what is left. -/
theorem Outcome.rest_closed {α : Type} (o : Outcome α) : o.closed.rest = o.rest := by
  obtain ⟨result, rest, log⟩ := o
  cases result with
  | error fault => rfl
  | ok a =>
    rw [closed, andThen_ok]
    split <;> rfl

/-- A fault stays when the outcome is closed. -/
theorem Outcome.closed_eq_error {α : Type} {o : Outcome α} {fault : Fault}
    (h : o.result = .error fault) : o.closed.result = .error fault := by
  obtain ⟨result, rest, log⟩ := o
  cases h
  rfl

/-- Faults that are not about the end of the text are those of the outcome itself. -/
theorem Outcome.closed_eq_error_iff {α : Type} {o : Outcome α} {fault : Fault}
    (hfault : fault ≠ .unexpected .endOfText) :
    o.closed.result = .error fault ↔ o.result = .error fault := by
  refine ⟨?_, closed_eq_error⟩
  obtain ⟨result, rest, log⟩ := o
  cases result with
  | error fault => exact id
  | ok a =>
    intro h
    rw [closed, andThen_ok] at h
    split at h
    · contradiction
    · cases h
      contradiction

/-- A closed outcome has a value exactly if nothing is left. -/
theorem Outcome.closed_eq_ok_iff {α : Type} {o : Outcome α} {a : α} :
    o.closed.result = .ok a ↔ o.result = .ok a ∧ o.rest = [] := by
  obtain ⟨result, rest, log⟩ := o
  cases result with
  | error fault => simp [closed]
  | ok b => cases rest <;> simp [closed, logAfter]

/-- Of the tokens, those that a parser rejects and those after its value are unexpected. -/
theorem Outcome.closed_unexpected {α : Type} {o : Outcome α} {expected : Expected}
    (h : o.closed.result = .error (.unexpected expected)) :
    o.result = .error (.unexpected expected) ∨ expected = .endOfText ∧ ∃ a, o.result = .ok a := by
  obtain ⟨result, rest, log⟩ := o
  cases result with
  | error fault => exact Or.inl h
  | ok a =>
    rw [closed, andThen_ok] at h
    split at h
    · contradiction
    · cases h
      exact Or.inr ⟨rfl, a, rfl⟩

/-- Only a fault of this kind, at this token, is reported as the unexpected token. -/
theorem ParseError.ofFault_eq_unexpectedToken_iff {limit : Nat} {token found : Token}
    {fault : Fault} {expected : Expected} :
    ofFault limit token fault = .unexpectedToken expected found ↔
      fault = .unexpected expected ∧ token = found := by
  cases fault <;> simp [ofFault]

namespace Session

/-- The index of a session is the number of tokens that were read. -/
theorem index_eq_length {s : Session} {read : List Token} (h : read ++ s.rest = s.stream.tokens) :
    s.index = read.length := by
  rw [index, ← h, List.length_append]
  omega

/-- The next token to read is the token of the stream at the index, the end token included. -/
theorem getElem?_withEnd_index {s : Session} (h : s.rest <:+ s.stream.tokens) :
    s.stream.withEnd[s.index]? = some s.current := by
  obtain ⟨read, hread⟩ := h
  rw [index_eq_length hread, TokenStream.withEnd, ← hread, List.append_assoc,
    List.getElem?_append_right (Nat.le_refl _), Nat.sub_self, current]
  cases s.rest <;> rfl

/-- The reading that an outcome is, for what is left to read. -/
def readingOf (s : Session) (o : Outcome Predicate) : Reading :=
  ⟨o.result.mapError (s.leave o.rest.length).errorOf, o.log, s.leave o.rest.length⟩

/-- The outcome of reading one expression. -/
def outcome (s : Session) : Outcome Predicate :=
  (Parser.expression s.config.maxDepth).run (s.rest.map Token.kind)

/-- Reading an expression is the reading of its outcome. -/
theorem readExpression_eq (s : Session) : s.readExpression = s.readingOf s.outcome :=
  rfl

/-- If all tokens are valid, reading to the end is the reading of the closed outcome. -/
theorem readAll_eq {s : Session} (h : s.stream.firstInvalid? = none) :
    s.readAll = s.readingOf s.outcome.closed := by
  have hsuffix : s.outcome.rest <:+ s.rest.map Token.kind := Parser.rest_suffix _ _
  have hleft := map_kind_leave hsuffix
  rw [readAll, h, readExpression_eq]
  generalize s.outcome = o at hleft
  obtain ⟨result, rest, log⟩ := o
  cases result with
  | error fault => rfl
  | ok p =>
    have hleft : (s.leave rest.length).rest.map Token.kind = rest := hleft
    have hempty : (s.leave rest.length).rest.isEmpty = rest.isEmpty := by
      simpa using congrArg List.isEmpty hleft
    have hreading : s.readingOf ⟨.ok p, rest, log⟩ = ⟨.ok p, log, s.leave rest.length⟩ := rfl
    rw [hreading, Outcome.closed, Outcome.andThen_ok]
    simp only [hempty]
    cases rest with
    | nil =>
      rw [List.isEmpty_nil, if_pos rfl, if_pos rfl, Outcome.logAfter, List.append_nil]
      rfl
    | cons k rest =>
      rw [List.isEmpty_cons, if_neg Bool.false_ne_true, if_neg Bool.false_ne_true,
        Outcome.logAfter, List.append_nil]
      rfl

/-! ## Where readings end -/

/-- A session leaves the tokens whose kinds are left, and moves past the others. -/
theorem index_leave {s : Session} (hs : s.rest <:+ s.stream.tokens) {read rest : List Kind}
    (h : s.rest.map Token.kind = read ++ rest) :
    (s.leave rest.length).index = s.index + read.length := by
  have hle := hs.length_le
  have hlength := congrArg List.length h
  rw [List.length_map, List.length_append] at hlength
  show s.stream.tokens.length - (s.rest.drop (s.rest.length - rest.length)).length =
    s.stream.tokens.length - s.rest.length + read.length
  rw [List.length_drop]
  omega

/-- The token that is unexpected is the next one to read. It is rejected by the expression, or it
stands where the end of the text should be. -/
theorem readAll_unexpected {s : Session} {expected : Expected} {found : Token}
    (h : s.readAll.result = .error (.unexpectedToken expected found)) :
    s.stream.firstInvalid? = none ∧
      ∃ rest, s.readAll.session = s.leave rest.length ∧ found = (s.leave rest.length).current ∧
        (Parser.Rejects (Parser.expression s.config.maxDepth) (s.rest.map Token.kind) expected
            rest ∨
          expected = .endOfText ∧
            ∃ p, Parser.Reads (Parser.expression s.config.maxDepth) (s.rest.map Token.kind) p
              rest) := by
  cases hinvalid : s.stream.firstInvalid? with
  | some invalid => simp [readAll, hinvalid] at h
  | none =>
    have hread := readAll_eq hinvalid
    rw [hread, readingOf, Outcome.rest_closed] at h
    refine ⟨rfl, s.outcome.rest, by rw [hread, readingOf, Outcome.rest_closed], ?_⟩
    cases hclosed : s.outcome.closed.result with
    | ok p =>
      rw [hclosed] at h
      cases h
    | error fault =>
      rw [hclosed] at h
      have herror := Except.error.inj h
      obtain ⟨rfl, hfound⟩ := ParseError.ofFault_eq_unexpectedToken_iff.mp herror
      refine ⟨hfound.symm, ?_⟩
      rcases Outcome.closed_unexpected hclosed with hresult | ⟨hexpected, p, hresult⟩
      · exact Or.inl ⟨hresult, rfl⟩
      · exact Or.inr ⟨hexpected, p, hresult, rfl⟩

end Session

end RowFilter
