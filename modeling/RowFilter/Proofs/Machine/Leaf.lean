import RowFilter.Proofs.Machine.Step

/-!
# The machine on the leaves of predicates

Each part of a leaf is read by the machine as it is read by the parser for this part. The loops of
the machine, over the segments of a name and over the literals of a set, come to an end because each
of their turns moves past a token: more turns than there are tokens left are enough.
-/

set_option autoImplicit false

namespace RowFilter.Machine

variable {m : Machine} {depth fuel : Nat} {ks : List Kind}

/-- The machine reads a literal as the parser does. -/
theorem performs_literal (ks : List Kind) :
    m.Performs depth ks m.literal (Parser.literal.run ks) :=
  performs_take rfl _

/-- The machine reads the sign of a comparison as the parser does. -/
theorem performs_comparison (ks : List Kind) :
    m.Performs depth ks m.comparison (Parser.comparison.run ks) :=
  performs_take rfl _

/-- The loop over segments performs what the parser of segments does, as long as it has turns
enough. -/
theorem performs_segments (hfuel : ks.length < fuel) :
    m.Performs depth ks (m.segments fuel) (Parser.readSegments ks) := by
  induction fuel generalizing ks with
  | zero => contradiction
  | succ fuel ih =>
    unfold Parser.readSegments
    split
    · rename_i name more
      have hmore : more.length < fuel := by
        simp only [List.length_cons] at hfuel
        omega
      apply Performs.check (by simp)
      apply Performs.advance
      apply Performs.take (show Kind.word? .eof = none from rfl) rfl
      exact (ih hmore).map fun more => rfl
    · rename_i more hword
      have hselect : ∀ k ∈ more.head?, k.word? = none := by
        intro k hk
        obtain ⟨tail, rfl⟩ := List.head?_eq_some_iff.mp hk
        cases k with
        | word name => exact absurd rfl (hword name tail)
        | _ => rfl
      apply Performs.check (by simp)
      apply Performs.advance
      exact Performs.not_take rfl hselect
    · rename_i hword hdot
      have hhead : ks.head? ≠ some .dot := by
        intro hhead
        obtain ⟨more, rfl⟩ := List.head?_eq_some_iff.mp hhead
        exact hdot more rfl
      apply Performs.not_check (by simp) hhead
      exact Performs.pure []

/-- The machine reads a column as the parser does. -/
theorem performs_column (ks : List Kind) :
    m.Performs depth ks m.column (Parser.column.run ks) := by
  apply performs_kind.step
  cases ks with
  | nil => exact performs_unexpected .column
  | cons k ks =>
    cases k with
    | word first =>
      apply Performs.advance_run
      apply Performs.of_lt_turns
      intro hturns
      exact (performs_segments hturns).bind fun more _ => Performs.pure _
    | quotedName name => exact Performs.advance_run (Performs.pure _)
    | string raw => exact Performs.advance_run (Performs.pure _)
    | _ => exact performs_unexpected .column

/-- The loop over literals performs what the parser of literals does, as long as it has turns
enough. -/
theorem performs_literals (hfuel : ks.length < fuel) :
    m.Performs depth ks (m.literals fuel) (Parser.readLiterals ks) := by
  induction fuel generalizing ks with
  | zero => contradiction
  | succ fuel ih =>
    unfold Parser.readLiterals
    split
    · exact Performs.not_take rfl (by simp)
    · split
      · rename_i hk
        exact Performs.not_take rfl (by simpa using hk)
      · rename_i v more hk
        have hmore : more.length < fuel := by
          simp only [List.length_cons] at hfuel
          omega
        apply Performs.take rfl hk
        apply Performs.consume (by simp)
        exact (ih hmore).map fun values => rfl
      · rename_i tail _ _ v hk hcomma
        have hhead : tail.head? ≠ some .comma := by
          intro hhead
          obtain ⟨more, rfl⟩ := List.head?_eq_some_iff.mp hhead
          exact hcomma more rfl
        apply Performs.take rfl hk
        apply Performs.not_consume (by simp) hhead
        exact Performs.pure [v]

/-- The machine reads a set as the parser does. -/
theorem performs_membership (op : Membership) (c : Column) (ks : List Kind) :
    m.Performs depth ks (m.membership op c) ((Parser.membership op c).run ks) := by
  apply (performs_expect (by simp) .leftParen).bind
  intro _ _
  apply Performs.of_lt_turns
  intro hturns
  apply (performs_literals hturns).bind
  intro values _
  apply (performs_expect (by simp) .rightParen).bind
  intro _ _
  cases Predicate.ofMembers op c values with
  | ok p => exact Performs.pure p
  | error cause => exact performs_throw fun _ => rfl

/-- The machine reads and logs a pattern as the parser does. -/
theorem performs_pattern (negated : Bool) (c : Column) (ks : List Kind) :
    m.Performs depth ks (m.pattern negated c) ((Parser.pattern negated c).run ks) := by
  apply performs_kind.step
  cases ks with
  | nil => exact performs_unexpected .string
  | cons k ks =>
    cases k with
    | string raw =>
      apply Performs.advance_run
      cases Pattern.ofRaw? raw.toList with
      | some pattern => exact (performs_record _).bind fun _ _ => Performs.pure _
      | none => exact performs_throw fun _ => rfl
    | _ => exact performs_unexpected .string

/-- `IS` and `IS NOT` are told apart by the kind after `IS`. -/
theorem performs_columnTest (c : Column) (ks : List Kind) :
    m.Performs depth ks (m.columnTest c) ((Parser.afterColumn c).run (.keyword .is :: ks)) := by
  by_cases hnot : ks.head? = some (.keyword .not)
  · obtain ⟨more, rfl⟩ := List.head?_eq_some_iff.mp hnot
    apply Performs.consume (by simp)
    exact (performs_take rfl _).bind fun op _ => Performs.pure _
  · have hrun : (Parser.afterColumn c).run (.keyword .is :: ks) =
        (do
          let op ← Parser.take (Kind.columnTest? false) .nullTest
          return .test op c : Parser Predicate).run ks := by
      simp only [Parser.afterColumn, Parser.run_peek]
      split <;> simp_all
    rw [hrun]
    apply Performs.not_consume (by simp) hnot
    exact (performs_take rfl _).bind fun op _ => Performs.pure _

/-- The machine goes on after `NOT` as the parser does from the `NOT` on. -/
theorem performs_afterNot (c : Column) (ks : List Kind) :
    m.Performs depth ks (m.afterNot c) ((Parser.afterColumn c).run (.keyword .not :: ks)) := by
  apply performs_kind.step
  cases ks with
  | nil => exact performs_unexpected .testAfterNot
  | cons k ks =>
    cases k with
    | keyword word =>
      cases word with
      | inSet => exact (performs_membership .notInSet c ks).advance
      | like => exact (performs_pattern true c ks).advance
      | _ => exact performs_unexpected .testAfterNot
    | _ => exact performs_unexpected .testAfterNot

/-- The machine reads a comparison after its column as the parser does. -/
theorem performs_compare (c : Column) (ks : List Kind) :
    m.Performs depth ks (m.compare c)
      ((do
        let op ← Parser.comparison
        let value ← Parser.literal
        return .compare op c value : Parser Predicate).run ks) := by
  apply (performs_comparison ks).bind
  intro op _
  apply (performs_literal _).bind
  intro value _
  exact Performs.pure _

/-- The machine reads what is asked of a column as the parser does. -/
theorem performs_afterColumn (c : Column) (ks : List Kind) :
    m.Performs depth ks (m.afterColumn c) ((Parser.afterColumn c).run ks) := by
  apply performs_kind.step
  cases ks with
  | nil => exact performs_compare c []
  | cons k ks =>
    cases k with
    | keyword word =>
      cases word with
      | is => exact (performs_columnTest c ks).advance
      | not => exact (performs_afterNot c ks).advance
      | inSet => exact (performs_membership .inSet c ks).advance
      | like => exact (performs_pattern false c ks).advance
      | _ => exact performs_compare c _
    | _ => exact performs_compare c _

/-- The machine reads a leaf with its column in front as the parser does. -/
theorem performs_columnFirst (ks : List Kind) :
    m.Performs depth ks m.columnFirst (Parser.columnFirst.run ks) := by
  apply (performs_column ks).bind
  intro c _
  exact performs_afterColumn c _

/-- The machine reads a comparison with its literal in front as the parser does. -/
theorem performs_literalFirst (ks : List Kind) :
    m.Performs depth ks m.literalFirst (Parser.literalFirst.run ks) := by
  apply (performs_literal ks).bind
  intro value _
  apply (performs_comparison _).bind
  intro op _
  apply (performs_column _).bind
  intro c _
  exact Performs.pure _

/-- The machine reads a leaf as the parser does. -/
theorem performs_atom (ks : List Kind) :
    m.Performs depth ks m.atom (Parser.atom.run ks) := by
  apply performs_kind.step
  cases ks with
  | nil => exact performs_unexpected .operand
  | cons k ks =>
    cases k with
    | keyword word =>
      cases word with
      | bool b =>
        have hconst : m.Performs depth (.keyword (.bool b) :: ks)
            (m.advance >>= fun _ => pure (Predicate.const b)) ⟨.ok (.const b), ks, []⟩ :=
          Performs.advance (Performs.pure _)
        apply (performs_kindAhead 1).step
        cases ks with
        | nil => exact hconst
        | cons k ks =>
          cases k with
          | comparison op => exact performs_literalFirst _
          | _ => exact hconst
      | _ => exact performs_unexpected .operand
    | integer n => exact performs_literalFirst _
    | decimal d => exact performs_literalFirst _
    | string raw =>
      apply (performs_kindAhead 1).step
      apply (performs_kindAhead 2).step
      -- the text is a literal only if a sign and then a name follow
      cases ks with
      | nil => exact performs_columnFirst _
      | cons k ks =>
        cases k with
        | comparison op =>
          cases ks with
          | nil => exact performs_columnFirst _
          | cons k ks =>
            cases k with
            | word name => exact performs_literalFirst _
            | quotedName name => exact performs_literalFirst _
            | _ => exact performs_columnFirst _
        | _ => exact performs_columnFirst _
    | word name => exact performs_columnFirst _
    | quotedName name => exact performs_columnFirst _
    | _ => exact performs_unexpected .operand

end RowFilter.Machine
