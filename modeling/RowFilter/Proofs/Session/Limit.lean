import RowFilter.Proofs.Grammar.Exactness
import RowFilter.Proofs.Session.Outcome

/-!
# The limit of nesting

A lower limit of nesting only cuts off. Under it a text is either given up at the first place that
is too deep, or answered exactly as under any higher limit: with the same predicate, or with the
same error at the same position, and with the same log. The reason is that a reader that ran out of
levels reports this to the very top: where the operands of a chain are read, only a fault in the
tokens ends the chain, and any other fault ends the reading.
-/

set_option autoImplicit false

namespace RowFilter

/-! ## Outcomes -/

/-- The first outcome gives up at a place that is too deep, or else it is the second one. -/
def Outcome.CutFrom {α : Type} (o o' : Outcome α) : Prop :=
  o.result = .error .tooDeep ∨ o = o'

namespace Outcome.CutFrom

variable {α β : Type} {o o' : Outcome α}

/-- Every outcome is cut from itself. -/
theorem refl (o : Outcome α) : o.CutFrom o :=
  Or.inr rfl

/-- Outcomes in sequence are cut where the first one is, or where the second one is. -/
theorem andThen {f f' : α → List Kind → Outcome β} (h : o.CutFrom o')
    (hf : ∀ a ks, (f a ks).CutFrom (f' a ks)) : (o.andThen f).CutFrom (o'.andThen f') := by
  rcases h with htooDeep | rfl
  · left
    rw [Outcome.andThen, htooDeep]
  · obtain ⟨result, rest, log⟩ := o
    cases result with
    | error fault => exact refl _
    | ok a =>
      rw [andThen_ok, andThen_ok]
      rcases hf a rest with htooDeep | heq
      · exact Or.inl htooDeep
      · exact Or.inr (congrArg _ heq)

/-- What is done with the value does not change where an outcome is cut. -/
theorem map (f : α → β) (h : o.CutFrom o') : (o.map f).CutFrom (o'.map f) := by
  rcases h with htooDeep | rfl
  · left
    rw [Outcome.map, htooDeep]
    rfl
  · exact refl _

/-- A log in front does not change where an outcome is cut. -/
theorem logAfter (log : List LoweredPattern) (h : o.CutFrom o') :
    (o.logAfter log).CutFrom (o'.logAfter log) := by
  rcases h with htooDeep | rfl
  · exact Or.inl htooDeep
  · exact refl _

end Outcome.CutFrom

/-! ## Parsers -/

namespace Parser

open RowFilter.Grammar

/-- On all kinds the first parser gives up at a place that is too deep, or else it answers as the
second one. -/
def CutFrom {α : Type} (p p' : Parser α) : Prop :=
  ∀ ks, (p.run ks).CutFrom (p'.run ks)

/-- Parsers in sequence are cut where the first one is, or where the second one is. -/
theorem CutFrom.bind {α β : Type} {p p' : Parser α} {f f' : α → Parser β} (h : p.CutFrom p')
    (hf : ∀ a, (f a).CutFrom (f' a)) : (p >>= f).CutFrom (p' >>= f') :=
  fun ks => (h ks).andThen fun a => hf a

/-- Every parser is cut from itself. -/
theorem CutFrom.refl {α : Type} (p : Parser α) : p.CutFrom p :=
  fun _ => Outcome.CutFrom.refl _

/-- Every operand of a chain is cut off or the same, so the chain is. An operand that is cut off is
no fault in the tokens, so it cannot end the chain early. -/
theorem readOperands_cutFrom (op : Connective) {p p' : Parser Predicate} (h : p.CutFrom p')
    (ks : List Kind) : (readOperands op p ks).CutFrom (readOperands op p' ks) := by
  fun_induction readOperands op p ks with
  | case1 more o q hq hlen ih =>
    -- an operand that is read is not too deep, so the other parser reads it alike
    have hq : (p.run more).result = .ok q := hq
    rcases h more with htooDeep | heq
    · rw [htooDeep] at hq
      contradiction
    · have hq' : (p'.run more).result = .ok q := heq ▸ hq
      rw [readOperands_of_ok hq', ← heq]
      exact (ih.map _).logAfter _
  | case2 more o expected ho =>
    have ho : (p.run more).result = .error (.unexpected expected) := ho
    rcases h more with htooDeep | heq
    · -- an operand that is too deep is no malformed one
      rw [htooDeep] at ho
      cases ho
    · have ho' : (p'.run more).result = .error (.unexpected expected) := heq ▸ ho
      rw [readOperands_of_unexpected ho', ← heq]
      exact Outcome.CutFrom.refl _
  | case3 more o fault hfault ho =>
    have ho : (p.run more).result = .error fault := ho
    rcases h more with htooDeep | heq
    · rw [ho] at htooDeep
      cases htooDeep
      exact Or.inl rfl
    · have ho' : (p'.run more).result = .error fault := heq ▸ ho
      rw [readOperands_of_fault ho' hfault, ← heq]
      exact Outcome.CutFrom.refl _
  | case4 op' more hop =>
    rw [readOperands_of_head]
    · exact Outcome.CutFrom.refl _
    · intro hhead
      cases hhead
      exact hop rfl
  | case5 ks hks =>
    rw [readOperands_of_head]
    · exact Outcome.CutFrom.refl _
    · intro hhead
      obtain ⟨more, rfl⟩ := List.head?_eq_some_iff.mp hhead
      exact hks op more rfl

/-- A chain is cut where its operands are. -/
theorem CutFrom.chain (op : Connective) {p p' : Parser Predicate} (h : p.CutFrom p') :
    (chain op p).CutFrom (chain op p') := by
  have hoperands : (operands op p).CutFrom (operands op p') := readOperands_cutFrom op h
  apply h.bind
  intro first
  apply hoperands.bind
  intro more
  exact CutFrom.refl _

/-- Chains of both connectives are cut where the operands are. -/
theorem CutFrom.connected {p p' : Parser Predicate} (h : p.CutFrom p') :
    (connected p).CutFrom (connected p') :=
  (h.chain .and).chain .or

/-- Without levels of nesting only leaves are read, so an operand is cut from every parser that
reads leaves alike. -/
theorem operand_zero_cutFrom (p : Parser Predicate)
    (hp : ∀ ks, ks.head? ≠ some (.keyword .not) → ks.head? ≠ some .leftParen →
      p.run ks = atom.run ks) : (operand 0).CutFrom p := by
  intro ks
  by_cases hnot : ks.head? = some (.keyword .not)
  · obtain ⟨more, rfl⟩ := List.head?_eq_some_iff.mp hnot
    exact Or.inl rfl
  by_cases hparen : ks.head? = some .leftParen
  · obtain ⟨more, rfl⟩ := List.head?_eq_some_iff.mp hparen
    exact Or.inl rfl
  · right
    rw [operand_run_eq_atom 0 hnot hparen, hp ks hnot hparen]

/-- An operand that is read with fewer levels left is cut off or the same. -/
theorem operand_cutFrom {levels levels' : Nat} (h : levels ≤ levels') :
    (operand levels).CutFrom (operand levels') := by
  induction levels generalizing levels' with
  | zero => exact operand_zero_cutFrom _ fun ks => operand_run_eq_atom levels'
  | succ n ih =>
    obtain ⟨n', rfl⟩ : ∃ n', levels' = n' + 1 := ⟨levels' - 1, by omega⟩
    have hbelow := ih (Nat.le_of_succ_le_succ h)
    intro ks
    simp only [operand, run_peek]
    split
    · apply CutFrom.bind (CutFrom.refl _)
      intro _
      apply hbelow.bind
      intro p
      exact CutFrom.refl _
    · apply CutFrom.bind (CutFrom.refl _)
      intro _
      apply hbelow.connected.bind
      intro p
      exact CutFrom.refl _
    · exact Outcome.CutFrom.refl _

/-- With fewer levels of nesting the whole parser is cut from the one with more. -/
theorem expression_cutFrom {levels levels' : Nat} (h : levels ≤ levels') :
    (expression levels).CutFrom (expression levels') :=
  (operand_cutFrom h).connected

end Parser

/-! ## Sessions -/

/-- Only a place that is too deep is reported with the limit. -/
theorem ParseError.ofFault_eq {fault : Fault} (h : fault ≠ .tooDeep) (limit limit' : Nat)
    (token : Token) : ofFault limit token fault = ofFault limit' token fault := by
  cases fault with
  | tooDeep => contradiction
  | _ => rfl

namespace Session

/-- The session under another limit. -/
def withLimit (s : Session) (limit : Nat) : Session :=
  ⟨⟨limit⟩, s.stream, s.rest⟩

/-- The error of a fault that is no matter of the limit does not depend on the limit. -/
theorem errorOf_withLimit {fault : Fault} (h : fault ≠ .tooDeep) (s : Session) (limit : Nat) :
    (s.withLimit limit).errorOf fault = s.errorOf fault :=
  ParseError.ofFault_eq h _ _ _

end Session

/-- The answer of one reading, with the session after it under another limit. -/
def Reading.withLimit (r : Reading) (limit : Nat) : Reading :=
  ⟨r.result, r.log, r.session.withLimit limit⟩

/-- The reading failed at a place that is too deep for the limit. -/
def Reading.IsCut (r : Reading) (limit : Nat) : Prop :=
  ∃ position, r.result = .error (.nestingTooDeep limit position)

namespace Session

/-- A reading is cut off by the limit, or it is the same under another limit, as far as its outcome
is. -/
theorem readingOf_cut (s : Session) (limit : Nat) {o o' : Outcome Predicate} (h : o.CutFrom o') :
    (s.readingOf o).IsCut s.config.maxDepth ∨
      (s.withLimit limit).readingOf o' = (s.readingOf o).withLimit limit := by
  by_cases htooDeep : o.result = .error .tooDeep
  · left
    rw [Reading.IsCut, readingOf, htooDeep]
    exact ⟨_, rfl⟩
  · right
    rw [← h.resolve_left htooDeep]
    obtain ⟨result, rest, log⟩ := o
    cases result with
    | ok p => rfl
    | error fault =>
      have hne : fault ≠ .tooDeep := by
        rintro rfl
        exact htooDeep rfl
      have herror := errorOf_withLimit hne (s.leave rest.length) limit
      exact congrArg (fun error => Reading.mk (.error error) _ _) herror

/-- Reading the whole text is cut off by the limit, or a higher limit changes nothing. -/
theorem readAll_cut (s : Session) {limit : Nat} (h : s.config.maxDepth ≤ limit) :
    s.readAll.IsCut s.config.maxDepth ∨
      (s.withLimit limit).readAll = s.readAll.withLimit limit := by
  cases hinvalid : s.stream.firstInvalid? with
  | some invalid =>
    right
    have hinvalid' : (s.withLimit limit).stream.firstInvalid? = some invalid := hinvalid
    rw [readAll, readAll, hinvalid, hinvalid']
    rfl
  | none =>
    have hinvalid' : (s.withLimit limit).stream.firstInvalid? = none := hinvalid
    have hcut : s.outcome.CutFrom (s.withLimit limit).outcome := Parser.expression_cutFrom h _
    have hclosed : s.outcome.closed.CutFrom (s.withLimit limit).outcome.closed :=
      hcut.andThen fun p rest => Outcome.CutFrom.refl _
    rw [readAll_eq hinvalid, readAll_eq hinvalid']
    exact s.readingOf_cut limit hclosed

end Session

/-- The limit of nesting only cuts off: under a lower limit a text is given up because of it, or
answered as under a higher limit, with the same predicate or the same error. In particular a filter
stays the same filter under every higher limit. -/
theorem parseWith_eq_of_le {limit limit' : Nat} (h : limit ≤ limit') (text : String) :
    ((∃ position, parseWith ⟨limit⟩ text = .error (.nestingTooDeep limit position)) ∨
      parseWith ⟨limit⟩ text = parseWith ⟨limit'⟩ text) ∧
    ∀ p, parseWith ⟨limit⟩ text = .ok p → parseWith ⟨limit'⟩ text = .ok p := by
  have hcut : (∃ position, parseWith ⟨limit⟩ text = .error (.nestingTooDeep limit position)) ∨
      parseWith ⟨limit⟩ text = parseWith ⟨limit'⟩ text := by
    rcases (Session.start ⟨limit⟩ text).readAll_cut h with hposition | heq
    · exact Or.inl hposition
    · right
      exact (congrArg Reading.result heq).symm
  refine ⟨hcut, ?_⟩
  intro p hp
  rcases hcut with ⟨position, hposition⟩ | heq
  · rw [hposition] at hp
    contradiction
  · rw [← heq, hp]

/-- `NOT (a = 1)` needs two levels, and more of them change nothing. -/
theorem parseWith_eq_of_le_group :
    2 ≤ 256 ∧ ((∃ position, parseWith ⟨2⟩ "NOT (a = 1)" = .error (.nestingTooDeep 2 position)) ∨
        parseWith ⟨2⟩ "NOT (a = 1)" = parseWith ⟨256⟩ "NOT (a = 1)") ∧
      parseWith ⟨256⟩ "NOT (a = 1)" = .ok (.not (.compare .equal ⟨"a"⟩ (.integer 1))) := by
  have hle : 2 ≤ 256 := by decide
  have h := parseWith_eq_of_le hle "NOT (a = 1)"
  refine ⟨hle, h.1, h.2 _ ?_⟩
  rw [Grammar.parseWith_eq_ok_iff]
  let leaf : Grammar.Leaf := .compare (.path "a" []) .equal (.integer 1)
  let inner : Grammar.Phrase (.chain .or) := .chain (.chain (.leaf leaf) .done) .done
  refine ⟨?_, .chain (.chain (.not (.group inner)) .done) .done, ?_, ?_⟩
  · unfold TokenStream.Clean
    decide +kernel
  · decide +kernel
  · rfl

end RowFilter
