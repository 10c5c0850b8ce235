import RowFilter.Proofs.Grammar.Reading
import RowFilter.Proofs.Machine.Leaf

/-!
# The machine on expressions

At a depth, the machine does what the parser does that has as many levels left as the depth is below
the bound. Its recursion ends because a call within a negation or a group stands after the token
that opened it, and its loop over the operands of a chain because each turn moves past a connective:
more turns than there are tokens left are enough. A malformed operand is undone by moving back to
the connective before it, whatever the machine did in between.
-/

set_option autoImplicit false

namespace RowFilter.Machine

variable {m : Machine} {depth fuel : Nat} {ks : List Kind}

/-! ## Chains -/

/-- What becomes of the reading of an operand after a connective. -/
def operandAfter (ks : List Kind) (o : Outcome Predicate) : Outcome (Option Predicate) :=
  match o.result with
  | .ok p => ⟨.ok (some p), o.rest, o.log⟩
  | .error (.unexpected _) => ⟨.ok none, ks, o.log⟩
  | .error fault => ⟨.error fault, o.rest, o.log⟩

/-- An operand that is read is taken. -/
theorem operandAfter_of_ok {o : Outcome Predicate} {p : Predicate} (h : o.result = .ok p) :
    operandAfter ks o = ⟨.ok (some p), o.rest, o.log⟩ := by
  rw [operandAfter, h]

/-- After an unexpected token the machine is back where it was, and there is no operand. -/
theorem operandAfter_of_unexpected {o : Outcome Predicate} {expected : Expected}
    (h : o.result = .error (.unexpected expected)) : operandAfter ks o = ⟨.ok none, ks, o.log⟩ := by
  rw [operandAfter, h]

/-- Any other fault ends the call. -/
theorem operandAfter_of_fault {o : Outcome Predicate} {fault : Fault}
    (h : o.result = .error fault) (hfault : ∀ expected, fault ≠ .unexpected expected) :
    operandAfter ks o = ⟨.error fault, o.rest, o.log⟩ := by
  rw [operandAfter, h]
  cases fault with
  | unexpected expected => exact absurd rfl (hfault expected)
  | _ => rfl

/-- After a malformed operand the machine is back at the connective. -/
theorem performs_nextOperand {operand : Action Predicate} {k : Kind} {more : List Kind}
    {o : Outcome Predicate} (h : m.Performs depth more operand o) :
    m.Performs depth (k :: more) (m.nextOperand operand) (operandAfter (k :: more) o) := by
  intro s hs
  obtain ⟨mid, hadvance, hmid, hmidLog⟩ := performs_advance s hs
  obtain ⟨last, hrun, hlast, hlog⟩ := h mid hmid
  rw [List.append_nil] at hmidLog
  rw [hmidLog] at hlog
  rw [nextOperand, run_get_bind, run_bind_pure hadvance, run_bind_pure (run_answerOf hrun)]
  obtain ⟨result, rest, log⟩ := o
  cases result with
  | ok p => exact ⟨last, rfl, hlast, hlog⟩
  | error fault =>
    cases fault with
    | unexpected expected =>
      -- the position is that from before, the depth is that from after the operand
      have hwithin : m.Within ⟨s.place.position, last.place.depth⟩ :=
        ⟨hs.within_place.1, hlast.within_place.2⟩
      exact ⟨_, rfl, hlast.moveTo hwithin hlast.depth_eq hs.kinds_eq, hlog⟩
    | _ => exact ⟨last, rfl, hlast, hlog⟩

/-- The operand is read as the parser reads it wherever so many tokens or fewer are left. -/
def Reads (m : Machine) (depth count : Nat) (operand : Action Predicate) (p : Parser Predicate) :
    Prop :=
  ∀ ks : List Kind, ks.length ≤ count → m.Performs depth ks operand (p.run ks)

/-- The loop over operands performs what the parser of operands does, as long as it has turns
enough. -/
theorem Reads.moreOperands {op : Connective} {operand : Action Predicate} {p : Parser Predicate}
    {count : Nat} (h : m.Reads depth count operand p) (hcount : ks.length ≤ count)
    (hfuel : ks.length < fuel) :
    m.Performs depth ks (m.moreOperands op operand fuel) (Parser.readOperands op p ks) := by
  induction fuel generalizing ks with
  | zero => contradiction
  | succ fuel ih =>
    by_cases hhead : ks.head? = some (.keyword (.connective op))
    · obtain ⟨more, rfl⟩ := List.head?_eq_some_iff.mp hhead
      rw [List.length_cons] at hcount hfuel
      have hnext := performs_nextOperand (k := .keyword (.connective op)) (h more (by omega))
      apply Performs.check (by simp)
      cases hresult : (p.run more).result with
      | ok q =>
        have hle := (p.rest_suffix more).length_le
        rw [operandAfter_of_ok hresult] at hnext
        rw [Grammar.readOperands_of_ok hresult]
        exact hnext.logged ((ih (by omega) (by omega)).map fun more => rfl)
      | error fault =>
        by_cases hunexpected : ∃ expected, fault = .unexpected expected
        · obtain ⟨expected, rfl⟩ := hunexpected
          rw [operandAfter_of_unexpected hresult] at hnext
          rw [Grammar.readOperands_of_unexpected hresult]
          exact hnext.value rfl
        · -- any other fault is not undone and ends the chain with it
          have hfault : ∀ expected, fault ≠ .unexpected expected := not_exists.mp hunexpected
          rw [operandAfter_of_fault hresult hfault] at hnext
          rw [Grammar.readOperands_of_fault hresult hfault]
          exact hnext.fault
    · rw [Grammar.readOperands_of_head p hhead]
      apply Performs.not_check (by simp) hhead
      exact Performs.pure []

/-- A chain of the machine reads as the chain of the parser, if the operands do. -/
theorem Reads.chain {op : Connective} {operand : Action Predicate} {p : Parser Predicate}
    {count : Nat} (h : m.Reads depth count operand p) :
    m.Reads depth count (m.chain op operand) (Parser.chain op p) := by
  intro ks hks
  have hle := (p.rest_suffix ks).length_le
  apply (h ks hks).bind
  intro first _
  apply Performs.of_lt_turns
  intro hturns
  apply (h.moreOperands (Nat.le_trans hle hks) hturns).bind
  intro more _
  exact Performs.pure _

/-- Chains of both connectives read as those of the parser, if the operands do. -/
theorem Reads.connected {operand : Action Predicate} {p : Parser Predicate} {count : Nat}
    (h : m.Reads depth count operand p) :
    m.Reads depth count (m.connected operand) (Parser.connected p) :=
  h.chain.chain

/-! ## Negations and groups -/

/-- An operand begins with a negation, with a parenthesis, or with neither. -/
theorem operand_cases (ks : List Kind) :
    (∃ more, ks = .keyword .not :: more) ∨ (∃ more, ks = .leftParen :: more) ∨
      ks.head? ≠ some (.keyword .not) ∧ ks.head? ≠ some .leftParen := by
  rw [← List.head?_eq_some_iff, ← List.head?_eq_some_iff]
  tauto

/-- A group is read at the depth below, and then its end is expected. -/
theorem performs_primary_leftParen {expression : Action Predicate} {p : Parser Predicate}
    {more : List Kind} (hdepth : depth < m.maxDepth)
    (h : m.Performs (depth + 1) more expression (p.run more)) :
    m.Performs depth (.leftParen :: more) (m.primary expression)
      ((do
        Parser.advance
        let q ← p
        Parser.expect .rightParen .rightParen
        return q : Parser Predicate).run (.leftParen :: more)) := by
  apply Performs.check (by simp)
  apply Performs.advance_run
  apply (performs_nested hdepth h).bind
  intro q _
  apply (performs_expect (by simp) .rightParen).bind
  intro _ _
  exact Performs.pure q

/-- Where no parenthesis stands a leaf is read. -/
theorem performs_primary_leaf {expression : Action Predicate} (h : ks.head? ≠ some .leftParen) :
    m.Performs depth ks (m.primary expression) (Parser.atom.run ks) :=
  Performs.not_check (by simp) h (performs_atom ks)

/-- An operand is read as the parser reads it that has this many levels left. The induction is on
the turns, and the levels go down as the depth goes up. -/
theorem performs_negation {levels : Nat} (hlevels : depth + levels = m.maxDepth)
    (hfuel : ks.length < fuel) :
    m.Performs depth ks (m.negation fuel) ((Parser.operand levels).run ks) := by
  induction fuel generalizing depth levels ks with
  | zero => contradiction
  | succ fuel ih =>
    obtain ⟨more, rfl⟩ | ⟨more, rfl⟩ | ⟨hnot, hparen⟩ := operand_cases ks
    · have hmore : more.length < fuel := Nat.lt_of_succ_lt_succ hfuel
      apply Performs.check (by simp)
      cases levels with
      | zero => exact (performs_nested_tooDeep (by omega)).fault.advance
      | succ levels =>
        apply Performs.advance_run
        apply (performs_nested (by omega) (ih (by omega) hmore)).bind
        intro p _
        exact Performs.pure _
    · have hmore : more.length < fuel := Nat.lt_of_succ_lt_succ hfuel
      apply Performs.not_check (by simp) (by simp)
      cases levels with
      | zero =>
        apply Performs.check (by simp)
        exact (performs_nested_tooDeep (by omega)).fault.advance
      | succ levels =>
        -- every token of the group stands after its parenthesis
        have hbelow : m.Reads (depth + 1) more.length (m.negation fuel) (Parser.operand levels) :=
          fun ks hks => ih (by omega) (Nat.lt_of_le_of_lt hks hmore)
        apply performs_primary_leftParen (by omega)
        exact hbelow.connected more (Nat.le_refl _)
    · rw [Grammar.operand_run_eq_atom levels hnot hparen]
      apply Performs.not_check (by simp) hnot
      exact performs_primary_leaf hparen

/-- The machine reads an expression at depth zero as the parser does with all its levels. -/
theorem performs_expression (ks : List Kind) :
    m.Performs 0 ks m.expression ((Parser.expression m.maxDepth).run ks) := by
  apply Performs.of_lt_turns
  intro hturns
  have hoperand : m.Reads 0 ks.length (m.negation m.turns) (Parser.operand m.maxDepth) :=
    fun more hmore => performs_negation (Nat.zero_add _) (Nat.lt_of_le_of_lt hmore hturns)
  exact hoperand.connected ks (Nat.le_refl _)

end RowFilter.Machine
