import RowFilter.Parser.Expression
import RowFilter.Proofs.Grammar.LeafReading
import RowFilter.Proofs.Grammar.Phrase

/-!
# Trees and their reading

The recursive reader and the trees of the grammar agree. In one direction every tree, followed by
something that may stand after it, is answered with what the tree is read as; this includes its
first fault. In the other direction whatever is read with success has a tree. Both directions follow
the mutual recursion of operands and chains, with the limit of nesting as a parameter.
-/

set_option autoImplicit false

namespace RowFilter.Grammar

open RowFilter.Parser

/-- The parser of a symbol with so many levels of nesting left. -/
def parser (levels : Nat) : Symbol → Parser Predicate
  | .operand => operand levels
  | .chain .and => chain .and (operand levels)
  | .chain .or => connected (operand levels)

/-- The parser of a chain reads operands with the parser of the symbol below. -/
theorem parser_chain (levels : Nat) (op : Connective) :
    parser levels (.chain op) = chain op (parser levels (.below op)) := by
  cases op <;> rfl

/-- The parser joins operands as the grammar does. -/
theorem combine_eq_joined (op : Connective) (p : Predicate) (ps : List Predicate) :
    combine op p ps = joined op p ps := by
  cases ps <;> rfl

/-- The kinds that may stand right after a phrase. -/
def Symbol.follows : Symbol → Kind → Prop
  | .chain .or, k => k = .rightParen
  | .chain .and, k => k = .rightParen ∨ k = .keyword (.connective .or)
  | .operand, k => k = .rightParen ∨ ∃ op, k = .keyword (.connective op)

/-- What is left begins with a kind that may stand after a phrase, or is nothing. -/
def Symbol.Ends (s : Symbol) (rest : List Kind) : Prop :=
  ∀ k, rest.head? = some k → s.follows k

/-- The end of the tokens may follow every phrase. -/
theorem Symbol.ends_nil (s : Symbol) : s.Ends [] := by
  intro k hk
  contradiction

/-- A closing parenthesis may follow every phrase. -/
theorem Symbol.ends_rightParen (s : Symbol) (rest : List Kind) : s.Ends (.rightParen :: rest) := by
  intro k hk
  cases hk
  cases s with
  | operand => exact Or.inl rfl
  | chain op =>
    cases op with
    | and => exact Or.inl rfl
    | or => rfl

/-- A connective may follow an operand of its chain. -/
theorem Symbol.ends_connective (op : Connective) (rest : List Kind) :
    (Symbol.below op).Ends (.keyword (.connective op) :: rest) := by
  intro k hk
  cases hk
  cases op with
  | and => exact Or.inr ⟨.and, rfl⟩
  | or => exact Or.inr rfl

/-- What may follow a chain may follow its last operand. -/
theorem Symbol.ends_below {op : Connective} {rest : List Kind} (h : (Symbol.chain op).Ends rest) :
    (Symbol.below op).Ends rest := by
  intro k hk
  have hfollows := h k hk
  cases op with
  | and =>
    rcases hfollows with rfl | rfl
    · exact Or.inl rfl
    · exact Or.inr ⟨.or, rfl⟩
  | or => exact Or.inl hfollows

/-- What may follow an operand does not go on with its leaf. -/
theorem Symbol.endsLeaf {rest : List Kind} (h : Symbol.operand.Ends rest) : EndsLeaf rest := by
  intro k hk
  rcases h k hk with rfl | ⟨op, rfl⟩
  · exact ⟨by simp, rfl⟩
  · exact ⟨by simp, rfl⟩

/-- The answer of a parser: the result, and after a value what is left to read. -/
def Answers {α : Type} (o : Outcome α) (result : Except Fault α) (rest : List Kind) : Prop :=
  o.result = result ∧ ∀ a, result = .ok a → o.rest = rest

/-- Answers in sequence: the second parser goes on where the first one has stopped. -/
theorem Answers.andThen {α β : Type} {o : Outcome α} {x : Except Fault α} {mid rest : List Kind}
    {f : α → List Kind → Outcome β} {g : α → Except Fault β} (ho : Answers o x mid)
    (hf : ∀ a, x = .ok a → Answers (f a mid) (g a) rest) :
    Answers (o.andThen f) (x >>= g) rest := by
  obtain ⟨result, left, log⟩ := o
  obtain ⟨rfl, hleft⟩ := ho
  cases result with
  | error fault =>
    exact ⟨rfl, by intro a ha; contradiction⟩
  | ok a =>
    cases hleft a rfl
    exact hf a rfl

/-- A log in front does not change the answer. -/
theorem Answers.logAfter {α : Type} {o : Outcome α} {x : Except Fault α} {rest : List Kind}
    (log : List LoweredPattern) (ho : Answers o x rest) : Answers (o.logAfter log) x rest :=
  ho

/-- What is done with the value does not change what is left. -/
theorem Answers.map {α β : Type} {o : Outcome α} {x : Except Fault α} {rest : List Kind}
    (f : α → β) (ho : Answers o x rest) : Answers (o.map f) (x >>= fun a => pure (f a)) rest := by
  obtain ⟨result, left, log⟩ := o
  obtain ⟨rfl, hleft⟩ := ho
  cases result with
  | error fault => exact ⟨rfl, by intro a ha; contradiction⟩
  | ok a => exact ⟨rfl, fun _ _ => hleft a rfl⟩

/-- Outside negations and groups an operand is a leaf. -/
theorem operand_run_eq_atom (levels : Nat) {ks : List Kind} (hnot : ks.head? ≠ some (.keyword .not))
    (hparen : ks.head? ≠ some .leftParen) : (operand levels).run ks = atom.run ks := by
  cases levels <;> simp only [operand, run_peek] <;> split <;> simp_all

/-- No column begins like a negation or a group. -/
theorem ColumnPhrase.head?_kinds (c : ColumnPhrase) (ks : List Kind) :
    (c.kinds ++ ks).head? ≠ some (.keyword .not) ∧ (c.kinds ++ ks).head? ≠ some .leftParen := by
  cases c <;> simp [ColumnPhrase.kinds]

/-- No leaf begins like a negation or a group. -/
theorem Leaf.head?_kinds (l : Leaf) (rest : List Kind) :
    (l.kinds ++ rest).head? ≠ some (.keyword .not) ∧ (l.kinds ++ rest).head? ≠ some .leftParen := by
  cases l with
  | const b => simp [Leaf.kinds]
  | reflected v op c distinct => cases v <;> simp [Leaf.kinds, LiteralPhrase.kind]
  | test c op | member c op first more | like c negated raw | compare c op v =>
    simp only [Leaf.kinds, List.append_assoc]
    exact c.head?_kinds _

/-! ## Repetitions -/

/-- If an operand is read after the connective, reading goes on behind it. -/
theorem readOperands_of_ok {op : Connective} {p : Parser Predicate} {ks : List Kind}
    {q : Predicate} (h : (p.run ks).result = .ok q) :
    readOperands op p (.keyword (.connective op) :: ks) =
      ((readOperands op p (p.run ks).rest).map (q :: ·)).logAfter (p.run ks).log := by
  rw [readOperands]
  simp only [↓reduceIte]
  split
  · rename_i q' hq
    rw [h] at hq
    cases hq
    rfl
  · rename_i expected hq
    rw [h] at hq
    contradiction
  · rename_i fault _ hq
    rw [h] at hq
    contradiction

/-- A fault in the tokens of an operand ends the chain before its connective. -/
theorem readOperands_of_unexpected {op : Connective} {p : Parser Predicate} {ks : List Kind}
    {expected : Expected} (h : (p.run ks).result = .error (.unexpected expected)) :
    readOperands op p (.keyword (.connective op) :: ks) =
      ⟨.ok [], .keyword (.connective op) :: ks, (p.run ks).log⟩ := by
  rw [readOperands]
  simp only [↓reduceIte]
  split
  · rename_i q hq
    rw [h] at hq
    contradiction
  · rfl
  · rename_i fault hfault hq
    rw [h] at hq
    cases hq
    exact absurd rfl (hfault expected)

/-- A fault other than an unexpected token ends the reading of operands. -/
theorem readOperands_of_fault {op : Connective} {p : Parser Predicate} {ks : List Kind}
    {fault : Fault} (h : (p.run ks).result = .error fault)
    (hfault : ∀ expected, fault ≠ .unexpected expected) :
    readOperands op p (.keyword (.connective op) :: ks) =
      ⟨.error fault, (p.run ks).rest, (p.run ks).log⟩ := by
  rw [readOperands]
  simp only [↓reduceIte]
  split
  · rename_i q' hq
    rw [h] at hq
    contradiction
  · rename_i expected hq
    rw [h] at hq
    cases hq
    exact absurd rfl (hfault expected)
  · rename_i fault' _ hq
    rw [h] at hq
    cases hq
    rfl

/-- Without the connective there are no more operands. -/
theorem readOperands_of_head {op : Connective} (p : Parser Predicate) {ks : List Kind}
    (h : ks.head? ≠ some (.keyword (.connective op))) :
    readOperands op p ks = ⟨.ok [], ks, []⟩ := by
  cases ks with
  | nil => rw [readOperands]; simp
  | cons k ks =>
    by_cases hk : ∃ op', k = .keyword (.connective op')
    · obtain ⟨op', rfl⟩ := hk
      have hop : op' ≠ op := by
        rintro rfl
        exact h rfl
      rw [readOperands, if_neg hop]
    · rw [readOperands]
      intro op' more hks
      cases hks
      exact hk ⟨op', rfl⟩

/-- What may follow a chain does not begin with its connective. -/
theorem Symbol.head?_of_ends {op : Connective} {rest : List Kind}
    (h : (Symbol.chain op).Ends rest) : rest.head? ≠ some (.keyword (.connective op)) := by
  intro hhead
  have hfollows := h _ hhead
  cases op <;> simp [Symbol.follows] at hfollows

/-! ## Trees are read -/

/-- After an operand of a chain the next connective stands, or what may stand after the chain. -/
theorem Rest.ends {op : Connective} {rest : List Kind} (more : Rest op)
    (hrest : (Symbol.chain op).Ends rest) : (Symbol.below op).Ends (more.kinds ++ rest) := by
  cases more with
  | done => exact Symbol.ends_below hrest
  | next t more => exact Symbol.ends_connective op _

mutual

/-- The tokens of a tree are answered with what the tree is read as. -/
theorem Phrase.answers {s : Symbol} {levels : Nat} {rest : List Kind} :
    (t : Phrase s) → s.Ends rest →
      Answers ((parser levels s).run (t.kinds ++ rest)) (t.read levels) rest
  | .leaf l, hrest => by
    rw [parser, Phrase.kinds,
      operand_run_eq_atom levels (l.head?_kinds rest).1 (l.head?_kinds rest).2,
      run_leaf l (Symbol.endsLeaf hrest)]
    exact ⟨rfl, fun _ _ => rfl⟩
  | .not t, hrest => by
    cases levels with
    | zero => exact ⟨rfl, by intro a ha; contradiction⟩
    | succ n =>
      have ht := @Phrase.answers _ n _ t hrest
      exact ht.andThen fun p hp => ⟨rfl, fun _ _ => rfl⟩
  | .group t, hrest => by
    cases levels with
    | zero => exact ⟨rfl, by intro a ha; contradiction⟩
    | succ n =>
      -- whatever follows the group, its content is ended by the parenthesis
      have ht := @Phrase.answers _ n _ t (Symbol.ends_rightParen _ rest)
      have hkinds : (Phrase.group t).kinds ++ rest =
          .leftParen :: (t.kinds ++ .rightParen :: rest) := by
        simp [Phrase.kinds]
      rw [hkinds, Phrase.read, ← bind_pure (t.read n)]
      refine ht.andThen fun p hp => ?_
      simp only [run_bind, run_expect, Outcome.andThen_ok, run_pure, Outcome.logAfter_nil]
      exact ⟨rfl, fun _ _ => rfl⟩
  | @Phrase.chain op first more, hrest => by
    rw [parser_chain, Phrase.kinds, List.append_assoc]
    have hfirst := @Phrase.answers _ levels _ first (more.ends hrest)
    refine hfirst.andThen fun p hp => (Rest.answers more hrest).andThen fun ps hps => ?_
    exact ⟨congrArg Except.ok (combine_eq_joined op p ps), fun _ _ => rfl⟩

/-- The tokens of a repetition are answered with what the repetition is read as. -/
theorem Rest.answers {op : Connective} {levels : Nat} {rest : List Kind} :
    (t : Rest op) → (Symbol.chain op).Ends rest →
      Answers (readOperands op (parser levels (.below op)) (t.kinds ++ rest)) (t.read levels) rest
  | .done, hrest => by
    rw [Rest.kinds, List.nil_append, readOperands_of_head _ (Symbol.head?_of_ends hrest)]
    exact ⟨rfl, fun _ _ => rfl⟩
  | .next t more, hrest => by
    obtain ⟨hresult, hleft⟩ := @Phrase.answers _ levels _ t (more.ends hrest)
    have hmore := @Rest.answers _ levels rest more hrest
    rw [Rest.kinds, List.cons_append, List.append_assoc]
    cases hq : t.read levels with
    | error fault =>
      rw [hq] at hresult
      rw [readOperands_of_fault hresult, Rest.read, hq]
      · exact ⟨rfl, by intro a ha; contradiction⟩
      · rintro expected rfl
        exact t.failure?_read_ne (failure?_eq_some.mpr hq)
    | ok q =>
      rw [hq] at hresult
      rw [readOperands_of_ok hresult, hleft q hq, Rest.read, hq]
      exact (hmore.map (q :: ·)).logAfter _

end

/-- The tokens of a tree that is read as a predicate are read as this predicate. -/
theorem Phrase.reads {s : Symbol} {levels : Nat} {rest : List Kind} {t : Phrase s}
    (hrest : s.Ends rest) {p : Predicate} (h : t.read levels = .ok p) :
    Reads (parser levels s) (t.kinds ++ rest) p rest := by
  obtain ⟨hresult, hleft⟩ := @Phrase.answers s levels rest t hrest
  rw [h] at hresult
  exact ⟨hresult, hleft p h⟩

/-- Two trees of the same tokens are read alike: the grammar is not ambiguous. -/
theorem Phrase.read_eq_of_kinds_eq {s : Symbol} {t u : Phrase s} (h : t.kinds = u.kinds)
    (levels : Nat) : t.read levels = u.read levels := by
  have ht := (@Phrase.answers s levels [] t s.ends_nil).1
  have hu := (@Phrase.answers s levels [] u s.ends_nil).1
  rw [h, hu] at ht
  exact ht.symm

/-! ## What is read has a tree -/

/-- The parser reads only what has a tree of the symbol, and reads it as the tree is read. -/
def ReadsTrees (levels : Nat) (s : Symbol) (p : Parser Predicate) : Prop :=
  ∀ ks q rest, Reads p ks q rest → ∃ t : Phrase s, ks = t.kinds ++ rest ∧ t.read levels = .ok q

/-- The operands that are read have the tokens of a repetition. -/
theorem rest_of_readOperands {levels : Nat} {op : Connective} {p : Parser Predicate}
    (hp : ReadsTrees levels (.below op) p) (ks : List Kind) {qs : List Predicate}
    (h : (readOperands op p ks).result = .ok qs) :
    ∃ t : Rest op, ks = t.kinds ++ (readOperands op p ks).rest ∧ t.read levels = .ok qs := by
  fun_induction readOperands op p ks generalizing qs with
  | case1 more o q hq =>
    rename_i ih
    cases hrest : (readOperands op p o.rest).result with
    | error fault => simp [Outcome.map, Outcome.logAfter, Except.map, hrest] at h
    | ok tail =>
      simp only [Outcome.map, Outcome.logAfter, Except.map, hrest] at h
      cases h
      obtain ⟨t, hmore, hread⟩ := hp more q o.rest ⟨hq, rfl⟩
      obtain ⟨r, htail, hrread⟩ := ih hrest
      refine ⟨.next t r, ?_, ?_⟩
      · simp only [Rest.kinds, Outcome.map, Outcome.logAfter, List.cons_append, List.append_assoc]
        rw [← htail, ← hmore]
      · rw [Rest.read, hread, hrread]
        rfl
  | case2 | case4 | case5 =>
    cases h
    exact ⟨.done, rfl, rfl⟩
  | case3 => contradiction

/-- A chain reads trees if its operands are read from trees. -/
theorem readsTrees_chain {levels : Nat} {op : Connective} {p : Parser Predicate}
    (hp : ReadsTrees levels (.below op) p) : ReadsTrees levels (.chain op) (chain op p) := by
  intro ks q rest h
  simp only [chain, reads_bind, reads_pure] at h
  obtain ⟨first, mid, hfirst, qs, _, ⟨hqs, rfl⟩, rfl, rfl⟩ := h
  obtain ⟨t, rfl, ht⟩ := hp ks first mid hfirst
  obtain ⟨r, hmid, hr⟩ := rest_of_readOperands hp mid hqs
  refine ⟨.chain t r, ?_, ?_⟩
  · rw [Phrase.kinds, List.append_assoc]
    exact congrArg (t.kinds ++ ·) hmid
  · rw [Phrase.read, ht, combine_eq_joined]
    show (r.read levels >>= fun ps => pure (joined op first ps)) = _
    rw [hr]
    rfl

/-- Chains of both connectives read trees if the operands are read from trees. -/
theorem readsTrees_connected {levels : Nat} {p : Parser Predicate}
    (hp : ReadsTrees levels .operand p) : ReadsTrees levels (.chain .or) (connected p) :=
  readsTrees_chain (readsTrees_chain hp)

/-- Operands are read from trees, at every level of nesting. -/
theorem readsTrees_operand (levels : Nat) : ReadsTrees levels .operand (operand levels) := by
  induction levels with
  | zero =>
    intro ks q rest h
    simp only [operand, reads_peek] at h
    split at h
    · simp at h
    · simp at h
    · obtain ⟨l, rfl, hl⟩ := leaf_of_reads h
      exact ⟨.leaf l, rfl, mapError_eq_ok.mpr hl⟩
  | succ n ih =>
    intro ks q rest h
    simp only [operand, reads_peek] at h
    split at h
    · rw [reads_advance_bind] at h
      simp only [reads_bind, reads_pure] at h
      obtain ⟨p, _, hp, rfl, rfl⟩ := h
      obtain ⟨t, rfl, ht⟩ := ih _ _ _ hp
      refine ⟨.not t, rfl, ?_⟩
      rw [Phrase.read, ht]
      rfl
    · rw [reads_advance_bind] at h
      simp only [reads_bind, reads_expect, reads_pure] at h
      obtain ⟨p, _, hp, _, _, rfl, rfl, rfl⟩ := h
      obtain ⟨t, rfl, ht⟩ := readsTrees_connected ih _ _ _ hp
      exact ⟨.group t, by simp [Phrase.kinds], ht⟩
    · obtain ⟨l, rfl, hl⟩ := leaf_of_reads h
      exact ⟨.leaf l, rfl, mapError_eq_ok.mpr hl⟩

/-- Whatever is read as an expression has the tokens of a tree and is what that tree is read as. -/
theorem phrase_of_reads {levels : Nat} {ks : List Kind} {p : Predicate} {rest : List Kind}
    (h : Reads (expression levels) ks p rest) :
    ∃ t : Phrase (.chain .or), ks = t.kinds ++ rest ∧ t.read levels = .ok p :=
  readsTrees_connected (readsTrees_operand levels) ks p rest h

end RowFilter.Grammar
