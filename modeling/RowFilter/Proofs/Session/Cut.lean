import RowFilter.Predicate.Printer
import RowFilter.Proofs.Grammar.Exactness
import RowFilter.Proofs.Machine.Calls

/-!
# What is read stands alone

A reading that goes back before a connective leaves no trace of the operand that it gave up. The
tokens between the place where a reading begins and the place where it ends are a filter by
themselves, with the same answer, wherever in the text the reading began and whatever was called
before. So an error that asks for the end of the text stands after a complete filter. Conversely,
once a filter is followed by a connective, there is no other error about an unexpected token.
-/

set_option autoImplicit false

namespace RowFilter

/-! ## Trees at the beginning of what is left -/

namespace Grammar

/-- What may stand after an operand may stand after further operands. -/
theorem Rest.ends_operand {op : Connective} {rest : List Kind} (more : Rest op)
    (hrest : Symbol.operand.Ends rest) : Symbol.operand.Ends (more.kinds ++ rest) := by
  cases more with
  | done => exact hrest
  | next t more =>
    intro k hk
    cases hk
    exact Or.inr ⟨op, rfl⟩

/-- An expression begins with an operand, which is read if the expression is. -/
theorem Phrase.exists_first {levels : Nat} {p : Predicate} :
    (t : Phrase (.chain .or)) → t.read levels = .ok p →
      ∃ (first : Phrase .operand) (more : Rest .and) (others : Rest .or) (q : Predicate),
        t.kinds = first.kinds ++ more.kinds ++ others.kinds ∧ first.read levels = .ok q
  | .chain (.chain first more) others, h => by
    obtain ⟨_, hchain, -⟩ := bind_eq_ok.mp h
    obtain ⟨q, hq, -⟩ := bind_eq_ok.mp hchain
    exact ⟨first, more, others, q, rfl, hq⟩

/-- If a tree that can be read is followed by a connective, no token is rejected: its first operand
is read, and the operands after it are given up where they are not. -/
theorem not_rejects_of_read {levels : Nat} {t : Phrase (.chain .or)} {p : Predicate}
    (h : t.read levels = .ok p) (op : Connective) (rest : List Kind) (expected : Expected)
    (left : List Kind) :
    ¬ Parser.Rejects (Parser.expression levels) (t.kinds ++ .keyword (.connective op) :: rest)
      expected left := by
  obtain ⟨first, more, others, q, hkinds, hq⟩ := t.exists_first h
  have hends : Symbol.operand.Ends (.keyword (.connective op) :: rest) := by
    intro k hk
    cases hk
    exact Or.inr ⟨op, rfl⟩
  have hread := first.reads (more.ends_operand (others.ends_operand hends)) hq
  intro hrejects
  have hfirst := Parser.rejects_expression.mp hrejects
  rw [hkinds, List.append_assoc, List.append_assoc] at hfirst
  exact absurd (hread.1.symm.trans hfirst.1) (by simp)

end Grammar

/-! ## Sessions over some tokens -/

/-- The tokens from one index of a stream up to another one. -/
def TokenStream.between (s : TokenStream) (i j : Nat) : List Token :=
  (s.tokens.take j).drop i

namespace Session

open Grammar

/-- A session at the beginning of some tokens. -/
def ofTokens (config : Config) (tokens : List Token) (stop : Position) : Session :=
  ⟨config, ⟨tokens, stop⟩, tokens⟩

/-- The tokens are read as the predicate when nothing is around them, wherever they end. -/
def Accepts (config : Config) (tokens : List Token) (p : Predicate) : Prop :=
  ∀ stop, (ofTokens config tokens stop).readAll.result = .ok p

/-- A list of tokens is a filter exactly if its tokens are valid and have a tree that is read as the
predicate. -/
theorem accepts_iff {config : Config} {tokens : List Token} {p : Predicate} :
    Accepts config tokens p ↔ (∀ t ∈ tokens, t.kind.error? = none) ∧
      ∃ t : Phrase (.chain .or), t.kinds = tokens.map Token.kind ∧
        t.read config.maxDepth = .ok p := by
  constructor
  · intro h
    exact readAll_eq_ok_iff.mp (h Position.start)
  · intro h stop
    exact readAll_eq_ok_iff.mpr h

/-- The session after some calls, whatever they have answered. -/
def afterCalls (s : Session) (cs : List Machine.Call) : Session :=
  cs.foldl (fun s c => (s.read c).session) s

/-- The session is reached from the beginning of the text by some calls. -/
def Reached (config : Config) (text : String) (s : Session) : Prop :=
  ∃ cs, s = (start config text).afterCalls cs

/-! ## What calls keep -/

/-- The session is one of this text under this bound: it has moved past some of the tokens. -/
structure Within (config : Config) (stream : TokenStream) (s : Session) : Prop where
  config_eq : s.config = config
  stream_eq : s.stream = stream
  suffix : s.rest <:+ stream.tokens

section

variable {config : Config} {stream : TokenStream} {s : Session}

/-- A session begins before the whole stream. -/
theorem within_start (config : Config) (text : String) :
    Within config (TokenStream.ofText text) (start config text) :=
  ⟨rfl, rfl, List.suffix_refl _⟩

/-- A session that leaves tokens unread is still within its stream. -/
theorem Within.leave (h : Within config stream s) (count : Nat) :
    Within config stream (s.leave count) :=
  ⟨h.config_eq, h.stream_eq, (s.rest_leave_suffix count).trans h.suffix⟩

/-- A call moves past some tokens, and past none if it finds an invalid one. -/
theorem Within.read (h : Within config stream s) (c : Machine.Call) :
    Within config stream (s.read c).session := by
  cases c with
  | expression => exact h.leave _
  | whole =>
    cases hinvalid : s.stream.firstInvalid? with
    | some invalid => simpa [Session.read, readAll, hinvalid] using h
    | none =>
      rw [Session.read, readAll_eq hinvalid]
      exact h.leave _

/-- The induction is on the calls, each of which begins where the one before it ended. -/
theorem Within.afterCalls (h : Within config stream s) (cs : List Machine.Call) :
    Within config stream (s.afterCalls cs) := by
  induction cs generalizing s with
  | nil => exact h
  | cons c cs ih => exact ih (h.read c)

end

/-! ## Readings and what they have read -/

section

variable {config : Config} {stream : TokenStream} {s : Session}

/-- The tokens between the indices before and after a reading are those that it has read. -/
theorem map_kind_between (hs : s.rest <:+ s.stream.tokens) {read rest : List Kind}
    (h : s.rest.map Token.kind = read ++ rest) :
    (s.stream.between s.index (s.index + read.length)).map Token.kind = read := by
  obtain ⟨before, hbefore⟩ := hs
  have hbetween : s.stream.between s.index (s.index + read.length) = s.rest.take read.length := by
    rw [TokenStream.between, index_eq_length hbefore, ← hbefore, List.take_length_add_append,
      List.drop_left]
  rw [hbetween, List.map_take, h, List.take_left]

/-- What was read as a predicate is at least one token, and is accepted as this predicate when
nothing is around it. -/
theorem Within.accepts_of_reads (h : Within config stream s) {p : Predicate} {rest : List Kind}
    (hreads : Parser.Reads (Parser.expression config.maxDepth) (s.rest.map Token.kind) p rest) :
    s.index < (s.leave rest.length).index ∧
      Accepts config (stream.between s.index (s.leave rest.length).index) p := by
  obtain ⟨rfl, rfl, hs⟩ := h
  obtain ⟨t, hkinds, hread⟩ := phrase_of_reads hreads
  have hbetween := map_kind_between hs hkinds
  rw [index_leave hs hkinds]
  refine ⟨Nat.lt_add_of_pos_right (List.length_pos_iff.mpr t.kinds_ne_nil), accepts_iff.mpr ⟨?_, t,
    hbetween.symm, hread⟩⟩
  intro token htoken
  apply t.error?_of_mem_kinds
  rw [← hbetween]
  exact List.mem_map_of_mem htoken

/-- After an accepted beginning and a connective, only the end of the text can be expected. -/
theorem expected_eq_endOfText {before after : List Token} {t : Token} {stop : Position}
    {op : Connective} {p : Predicate} (ht : t.kind = .keyword (.connective op))
    (hbefore : Accepts config before p) {expected : Expected} {found : Token}
    (h : (ofTokens config (before ++ t :: after) stop).readAll.result =
      .error (.unexpectedToken expected found)) : expected = .endOfText := by
  obtain ⟨-, rest, -, -, hrest⟩ := readAll_unexpected h
  rcases hrest with hrejects | ⟨rfl, -⟩
  · obtain ⟨-, tree, hkinds, hread⟩ := accepts_iff.mp hbefore
    have hall : (ofTokens config (before ++ t :: after) stop).rest.map Token.kind =
        tree.kinds ++ .keyword (.connective op) :: after.map Token.kind := by
      rw [hkinds, ← ht, ofTokens, List.map_append, List.map_cons]
    rw [hall] at hrejects
    exact absurd hrejects (not_rejects_of_read hread op _ _ _)
  · rfl

end

/-- What is read stands alone. Let a session be reached by any calls. If it reads one expression, it
moves on, and the tokens that it has passed are accepted as the same predicate when nothing is
around them. If it reads up to the end and asks for the end at some token, this token is the next
one, and the tokens passed are accepted. And if accepted tokens are followed by a connective,
reading from their beginning asks for nothing else at a token than the end. -/
theorem reading_alone {config : Config} {text : String} {s : Session}
    (hs : Reached config text s) :
    (∀ p, s.readExpression.result = .ok p →
      s.index < s.readExpression.session.index ∧
        Accepts config
          ((TokenStream.ofText text).between s.index s.readExpression.session.index) p) ∧
    (∀ found, s.readAll.result = .error (.unexpectedToken .endOfText found) →
      (TokenStream.ofText text).withEnd[s.readAll.session.index]? = some found ∧
        ∃ p, Accepts config
          ((TokenStream.ofText text).between s.index s.readAll.session.index) p) ∧
    ∀ (before : List Token) (t : Token) (after : List Token) (stop : Position) (op : Connective)
      (p : Predicate), t.kind = .keyword (.connective op) → Accepts config before p →
      ∀ expected found, (ofTokens config (before ++ t :: after) stop).readAll.result =
        .error (.unexpectedToken expected found) → expected = .endOfText := by
  have hwithin : Within config (TokenStream.ofText text) s := by
    obtain ⟨cs, rfl⟩ := hs
    exact (within_start config text).afterCalls cs
  refine ⟨?_, ?_, ?_⟩
  · intro p h
    rw [readExpression_eq, readingOf, mapError_eq_ok] at h
    apply hwithin.accepts_of_reads
    rw [← hwithin.config_eq]
    exact ⟨h, rfl⟩
  · intro found h
    obtain ⟨-, rest, hsession, rfl, hrest⟩ := readAll_unexpected h
    rw [hsession]
    refine ⟨?_, ?_⟩
    · have hleave := hwithin.leave rest.length
      rw [← hleave.stream_eq]
      exact getElem?_withEnd_index (hleave.stream_eq ▸ hleave.suffix)
    · -- nothing within an expression asks for the end, so a whole one was read
      rcases hrest with hrejects | ⟨-, p, hreads⟩
      · exact absurd hrejects Parser.not_rejects_expression_endOfText
      · rw [hwithin.config_eq] at hreads
        exact ⟨p, (hwithin.accepts_of_reads hreads).2⟩
  · intro before t after stop op p ht hbefore expected found h
    exact expected_eq_endOfText ht hbefore h

/-- In `a = 1 b = 2 AND (c` the second call reads `b = 2` and goes back before the group that is not
closed. Read up to the end instead, the rest of the text is refused at the connective. -/
theorem reading_alone_rewound :
    ∃ s p, Reached ⟨1⟩ "a = 1 b = 2 AND (c" s ∧ s.readExpression.result = .ok p ∧
      p.render = "b = 2" ∧
      Accepts ⟨1⟩ ((TokenStream.ofText "a = 1 b = 2 AND (c").between 3 6) p ∧
      s.readAll.result = .error (.unexpectedToken .endOfText
        ⟨.keyword (.connective .and), "AND", ⟨1, 13⟩⟩) ∧
      ∀ after stop expected found,
        (ofTokens ⟨1⟩ ((TokenStream.ofText "a = 1 b = 2 AND (c").between 3 6 ++
            ⟨.keyword (.connective .and), "AND", ⟨1, 13⟩⟩ :: after) stop).readAll.result =
          .error (.unexpectedToken expected found) → expected = .endOfText := by
  let s := (start ⟨1⟩ "a = 1 b = 2 AND (c").afterCalls [.expression]
  have hs : Reached ⟨1⟩ "a = 1 b = 2 AND (c" s := ⟨_, rfl⟩
  have hrender : s.readExpression.result.map Predicate.render = .ok "b = 2" := by
    decide +kernel
  obtain ⟨p, hp, hpRender⟩ : ∃ p, s.readExpression.result = .ok p ∧ p.render = "b = 2" := by
    cases hresult : s.readExpression.result with
    | error e => simp [hresult, Except.map] at hrender
    | ok p => exact ⟨p, rfl, by simpa [hresult, Except.map] using hrender⟩
  have hindex : s.index = 3 := by decide +kernel
  have hafter : s.readExpression.session.index = 6 := by decide +kernel
  obtain ⟨hread, -, hconnective⟩ := reading_alone hs
  obtain ⟨-, haccepts⟩ := hread p hp
  rw [hindex, hafter] at haccepts
  have herror : s.readAll.result = .error (.unexpectedToken .endOfText
      ⟨.keyword (.connective .and), "AND", ⟨1, 13⟩⟩) := by
    rw [← failure?_eq_some]
    decide +kernel
  refine ⟨s, p, hs, hp, hpRender, haccepts, herror, ?_⟩
  intro after stop expected found h
  exact hconnective _ _ after stop .and p rfl haccepts expected found h

end Session

end RowFilter
