import Mathlib.Data.List.Forall2
import RowFilter.Proofs.Grammar.Exactness

/-!
# The log of a reading

The entries of the log tell the patterns of a text in the order in which they are written, each of
them once: they are about the first so many occurrences of `LIKE`, and about all of them if the text
is a filter. When the operand of a connective is given up, the patterns that were understood in it
stay in the log although the reader goes back before them. They are not told again, since nothing is
read after that: what is left begins with the connective, and no parser that goes on from there
takes a connective.
-/

set_option autoImplicit false

namespace RowFilter

/-- What stands directly after each `LIKE`, from left to right. -/
def Kind.afterLikes : List Kind → List (Option Kind)
  | [] => []
  | .keyword .like :: ks => ks.head? :: afterLikes ks
  | _ :: ks => afterLikes ks

/-- A token in front that is no `LIKE` adds no pattern. -/
theorem Kind.afterLikes_cons {k : Kind} (h : k ≠ .keyword .like) (ks : List Kind) :
    afterLikes (k :: ks) = afterLikes ks := by
  rw [afterLikes]
  exact h

/-- A connective in front adds no pattern. -/
theorem Kind.afterLikes_connective (op : Connective) (ks : List Kind) :
    afterLikes (.keyword (.connective op) :: ks) = afterLikes ks :=
  rfl

/-- The entry gives the raw body of the string that stands after a `LIKE`, and what was understood
by it. -/
def LoweredPattern.Reports (entry : LoweredPattern) (next : Option Kind) : Prop :=
  next = some (.string entry.raw) ∧ Pattern.ofRaw? entry.raw.toList = some entry.pattern

/-! ## Outcomes -/

namespace Outcome

open Kind

variable {α β : Type}

/-- The log is about the first patterns of what was given. -/
def LogsFirst (o : Outcome α) (ks : List Kind) : Prop :=
  ∃ segment, segment <+: afterLikes ks ∧ List.Forall₂ LoweredPattern.Reports o.log segment

/-- The log is about the patterns of what was read. -/
def LogsRead (o : Outcome α) (ks : List Kind) : Prop :=
  ∃ segment, afterLikes ks = segment ++ afterLikes o.rest ∧
    List.Forall₂ LoweredPattern.Reports o.log segment

/-- What is left begins with one of the connectives. -/
def StopsAt (o : Outcome α) (stops : List Connective) : Prop :=
  ∃ op ∈ stops, o.rest.head? = some (.keyword (.connective op))

/-- The log is about the first patterns of what was given. If a value is read, it is about the
patterns that were read, unless the reader went back before one of the connectives. -/
structure Follows (stops : List Connective) (o : Outcome α) (ks : List Kind) : Prop where
  first : o.LogsFirst ks
  read : ∀ a, o.result = .ok a → o.LogsRead ks ∨ o.StopsAt stops

/-- A log about what was read is about the first patterns of what was given. -/
theorem LogsRead.first {o : Outcome α} {ks : List Kind} (h : o.LogsRead ks) : o.LogsFirst ks := by
  obtain ⟨segment, hks, hlog⟩ := h
  exact ⟨segment, ⟨_, hks.symm⟩, hlog⟩

/-- A log about what was read follows what was given, wherever the reader stops. -/
theorem LogsRead.follows {o : Outcome α} {ks : List Kind} (h : o.LogsRead ks)
    (stops : List Connective) : o.Follows stops ks :=
  ⟨h.first, fun _ _ => Or.inl h⟩

/-- An empty log is about the first patterns of everything. -/
theorem logsFirst_of_log_eq_nil {o : Outcome α} (h : o.log = []) (ks : List Kind) :
    o.LogsFirst ks :=
  ⟨[], List.nil_prefix, h ▸ .nil⟩

/-- Without patterns in what was read, an empty log is about it. -/
theorem logsRead_of_log_eq_nil {o : Outcome α} {ks : List Kind} (hlog : o.log = [])
    (hks : afterLikes ks = afterLikes o.rest) : o.LogsRead ks :=
  ⟨[], hks, hlog ▸ .nil⟩

/-- A fault without a log follows everything. -/
theorem follows_error (stops : List Connective) (fault : Fault) (ks rest : List Kind) :
    (⟨.error fault, rest, []⟩ : Outcome α).Follows stops ks :=
  ⟨logsFirst_of_log_eq_nil rfl ks, by simp⟩

/-- More connectives to stop at make no difference. -/
theorem StopsAt.cons {stops : List Connective} {o : Outcome α} (h : o.StopsAt stops)
    (op : Connective) : o.StopsAt (op :: stops) := by
  obtain ⟨op', hop', hhead⟩ := h
  exact ⟨op', List.mem_cons_of_mem _ hop', hhead⟩

/-- Entries about what was read, and then entries about the first patterns of what is left. -/
theorem LogsRead.logsFirst_logAfter {o : Outcome α} {ks : List Kind} (ho : o.LogsRead ks)
    {o' : Outcome β} (ho' : o'.LogsFirst o.rest) : (o'.logAfter o.log).LogsFirst ks := by
  obtain ⟨segment, hks, hlog⟩ := ho
  obtain ⟨segment', hrest, hlog'⟩ := ho'
  refine ⟨segment ++ segment', ?_, List.rel_append hlog hlog'⟩
  rw [hks]
  exact (List.prefix_append_right_inj segment).mpr hrest

/-- Logs about what was read one after the other are about all that was read. -/
theorem LogsRead.logsRead_logAfter {o : Outcome α} {ks : List Kind} (ho : o.LogsRead ks)
    {o' : Outcome β} (ho' : o'.LogsRead o.rest) : (o'.logAfter o.log).LogsRead ks := by
  obtain ⟨segment, hks, hlog⟩ := ho
  obtain ⟨segment', hrest, hlog'⟩ := ho'
  refine ⟨segment ++ segment', ?_, List.rel_append hlog hlog'⟩
  rw [hks, hrest, List.append_assoc]
  rfl

/-- After a log about what was read a log that follows the rest follows the whole. -/
theorem Follows.logAfter {stops : List Connective} {o : Outcome α} {ks : List Kind}
    (ho : o.LogsRead ks) {o' : Outcome β} (ho' : o'.Follows stops o.rest) :
    (o'.logAfter o.log).Follows stops ks := by
  refine ⟨ho.logsFirst_logAfter ho'.first, fun b hb => ?_⟩
  rcases ho'.read b hb with hread | hstop
  · exact Or.inl (ho.logsRead_logAfter hread)
  · exact Or.inr hstop

/-- What is done with the value does not change what the log follows. -/
theorem Follows.map {stops : List Connective} {o : Outcome α} {ks : List Kind} (f : α → β)
    (ho : o.Follows stops ks) : (o.map f).Follows stops ks := by
  refine ⟨ho.first, fun b hb => ?_⟩
  cases hresult : o.result with
  | error fault =>
    rw [Outcome.map, hresult] at hb
    contradiction
  | ok a => exact ho.read a hresult

/-- What is given may be replaced by kinds with the same patterns. -/
theorem Follows.of_afterLikes_eq {stops : List Connective} {o : Outcome α} {ks more : List Kind}
    (h : o.Follows stops ks) (heq : afterLikes more = afterLikes ks) : o.Follows stops more := by
  obtain ⟨hfirst, hread⟩ := h
  unfold LogsFirst LogsRead at *
  rw [← heq] at hfirst hread
  exact ⟨hfirst, hread⟩

/-- Outcomes in sequence: the second log follows what the first outcome has left. Where the first
reader went back, the second one must neither log anything nor go on. -/
theorem Follows.andThen {stops more : List Connective} {o : Outcome α} {ks : List Kind}
    {f : α → List Kind → Outcome β} (ho : o.Follows stops ks)
    (hread : ∀ a, o.result = .ok a → (f a o.rest).Follows more o.rest)
    (hstop : ∀ a, o.StopsAt stops → (f a o.rest).log = [] ∧
      ∀ b, (f a o.rest).result = .ok b → (f a o.rest).StopsAt more) :
    (o.andThen f).Follows more ks := by
  obtain ⟨result, rest, log⟩ := o
  cases result with
  | error fault => exact ⟨ho.first, by simp⟩
  | ok a =>
    rw [andThen_ok]
    rcases ho.read a rfl with hlog | hrest
    · exact (hread a rfl).logAfter hlog
    · obtain ⟨hlog, hstops⟩ := hstop a hrest
      refine ⟨?_, fun b hb => Or.inr (hstops b hb)⟩
      show LogsFirst (⟨.ok a, rest, log ++ _⟩ : Outcome α) ks
      rw [hlog, List.append_nil]
      exact ho.first

end Outcome

/-! ## Parsers -/

namespace Parser

open Kind

variable {α β : Type} {stops : List Connective}

/-- The log of the parser follows what it is given, whatever this is. -/
def Follows (stops : List Connective) (p : Parser α) : Prop :=
  ∀ ks, (p.run ks).Follows stops ks

/-- Returning a value logs nothing. -/
theorem follows_pure (a : α) : Follows stops (pure a) :=
  fun _ => (Outcome.logsRead_of_log_eq_nil rfl rfl).follows stops

/-- Failing logs nothing. -/
theorem follows_fail (fault : Fault) : Follows stops (fail fault : Parser α) :=
  fun ks => Outcome.follows_error stops fault ks ks

/-- Parsers in sequence: the first one must not go back. -/
theorem Follows.bind {p : Parser α} {f : α → Parser β} (hp : Follows [] p)
    (hf : ∀ a, Follows stops (f a)) : Follows stops (p >>= f) := by
  intro ks
  rw [run_bind]
  apply (hp ks).andThen
  · intro a _
    exact hf a _
  · rintro a ⟨op, hop, -⟩
    contradiction

/-- Taking a token other than `LIKE` passes no pattern. -/
theorem follows_take {select : Kind → Option α} (h : select (.keyword .like) = none)
    (expected : Expected) : Follows stops (take select expected) := by
  intro ks
  cases ks with
  | nil => exact Outcome.follows_error stops _ _ _
  | cons k ks =>
    cases hk : select k with
    | none =>
      rw [run_take_of_none hk]
      exact Outcome.follows_error stops _ _ _
    | some a =>
      have hlike : k ≠ .keyword .like := by
        rintro rfl
        rw [h] at hk
        contradiction
      rw [run_take_of_some hk]
      exact (Outcome.logsRead_of_log_eq_nil rfl (afterLikes_cons hlike ks)).follows stops

/-- Expecting a token other than `LIKE` passes no pattern. -/
theorem follows_expect {kind : Kind} (h : kind ≠ .keyword .like) (expected : Expected) :
    Follows stops (expect kind expected) :=
  follows_take (if_neg h.symm) expected

/-- Giving an answer logs nothing. -/
theorem follows_ofExcept {ε : Type} (fault : ε → Fault) (answer : Except ε α) :
    Follows stops (ofExcept fault answer) := by
  cases answer with
  | ok a => exact follows_pure a
  | error e => exact follows_fail (fault e)

/-- A kind other than `LIKE` may be skipped. -/
theorem Follows.advance_bind {f : Unit → Parser α} {k : Kind} (hk : k ≠ .keyword .like)
    {ks : List Kind} (h : ((f ()).run ks).Follows stops ks) :
    ((advance >>= f).run (k :: ks)).Follows stops (k :: ks) :=
  h.of_afterLikes_eq (afterLikes_cons hk ks)

/-! ### Leaves -/

/-- Reading a literal passes no pattern. -/
theorem follows_literal : Follows stops literal :=
  follows_take rfl .literal

/-- Reading a comparison passes no pattern. -/
theorem follows_comparison : Follows stops comparison :=
  follows_take rfl .comparison

/-- Reading the segments of a path passes no pattern. -/
theorem follows_segments : Follows stops segments := by
  intro ks
  show (readSegments ks).Follows stops ks
  fun_induction readSegments ks with
  | case1 name ks ih =>
    apply (ih.map (name :: ·)).of_afterLikes_eq
    rw [afterLikes_cons (by simp), afterLikes_cons (by simp)]
  | case2 => exact Outcome.follows_error stops _ _ _
  | case3 => exact follows_pure [] _

/-- Reading literals passes no pattern. -/
theorem follows_literals : Follows stops literals := by
  intro ks
  show (readLiterals ks).Follows stops ks
  fun_induction readLiterals ks with
  | case1 | case2 => exact Outcome.follows_error stops _ _ _
  | case3 k v hk more ih =>
    have hlike : k ≠ .keyword .like := by
      rintro rfl
      contradiction
    apply (ih.map (v :: ·)).of_afterLikes_eq
    rw [afterLikes_cons hlike, afterLikes_cons (by simp)]
  | case4 k v ks hk _ =>
    have hlike : k ≠ .keyword .like := by
      rintro rfl
      contradiction
    exact (follows_pure [v] ks).of_afterLikes_eq (afterLikes_cons hlike ks)

/-- Reading a column passes no pattern. -/
theorem follows_column : Follows stops column := by
  intro ks
  simp only [column, run_peek]
  split
  · exact Follows.advance_bind (by simp) (follows_segments.bind (fun _ => follows_pure _) _)
  · exact Follows.advance_bind (by simp) (follows_pure _ _)
  · exact Follows.advance_bind (by simp) (follows_pure _ _)
  · exact follows_fail _ _

/-- Reading a set passes no pattern. -/
theorem follows_membership (op : Membership) (c : Column) : Follows stops (membership op c) :=
  (follows_expect (by simp) _).bind fun _ => follows_literals.bind fun _ =>
    (follows_expect (by simp) _).bind fun _ => follows_ofExcept _ _

/-- After `LIKE` the one entry that is made is about the string that follows. -/
theorem follows_pattern (negated : Bool) (c : Column) (ks : List Kind) :
    ((pattern negated c).run ks).Follows stops (.keyword .like :: ks) := by
  simp only [pattern, run_peek]
  split
  · rename_i raw ks
    rw [run_bind, run_advance, Outcome.andThen_ok, List.tail_cons, Outcome.logAfter_nil]
    cases hpattern : Pattern.ofRaw? raw.toList with
    | none => exact Outcome.follows_error stops _ _ _
    | some p =>
      apply Outcome.LogsRead.follows
      exact ⟨[some (.string raw)], rfl, .cons ⟨rfl, hpattern⟩ .nil⟩
  · exact Outcome.follows_error stops _ _ _

/-- What is read after a column passes at most one pattern, and logs it. -/
theorem follows_afterColumn (c : Column) : Follows stops (afterColumn c) := by
  have htest (negated : Bool) (expected : Expected) :
      Follows stops (take (Kind.columnTest? negated) expected >>= fun op =>
        pure (.test op c : Predicate)) :=
    (follows_take rfl expected).bind fun _ => follows_pure _
  intro ks
  simp only [afterColumn, run_peek]
  split
  · exact Follows.advance_bind (by simp) (Follows.advance_bind (by simp) (htest _ _ _))
  · exact Follows.advance_bind (by simp) (htest _ _ _)
  · exact Follows.advance_bind (by simp) (Follows.advance_bind (by simp) (follows_membership _ c _))
  · exact Follows.advance_bind (by simp) (follows_pattern true c _)
  · exact Follows.advance_bind (by simp) (follows_fail _ _)
  · exact Follows.advance_bind (by simp) (follows_membership _ c _)
  · exact follows_pattern false c _
  · exact follows_comparison.bind (fun _ => follows_literal.bind fun _ => follows_pure _) _

/-- A leaf with its column in front logs its pattern, if it has one. -/
theorem follows_columnFirst : Follows stops columnFirst :=
  follows_column.bind fun c => follows_afterColumn c

/-- A comparison with its literal in front passes no pattern. -/
theorem follows_literalFirst : Follows stops literalFirst :=
  follows_literal.bind fun _ => follows_comparison.bind fun _ => follows_column.bind fun _ =>
    follows_pure _

/-- A leaf logs its pattern, if it has one. -/
theorem follows_atom : Follows stops atom := by
  intro ks
  simp only [atom, run_peek]
  split
  · exact follows_literalFirst _
  · exact Follows.advance_bind (by simp) (follows_pure _ _)
  · exact follows_literalFirst _
  · exact follows_literalFirst _
  · exact follows_literalFirst _
  · exact follows_literalFirst _
  · exact follows_columnFirst _
  · exact follows_columnFirst _
  · exact follows_columnFirst _
  · exact follows_fail _ _

/-! ### Expressions -/

/-- The value of a parser may be changed. -/
theorem Follows.bind_pure {p : Parser α} (hp : Follows stops p) (f : α → β) :
    Follows stops (p >>= fun a => pure (f a)) := by
  intro ks
  rw [run_bind]
  apply (hp ks).andThen
  · intro a _
    exact follows_pure (f a) _
  · intro a hstop
    exact ⟨rfl, fun _ _ => hstop⟩

/-- Where the last reader went back before another connective, there are no more operands. -/
theorem readOperands_of_stopsAt {op : Connective} (hop : op ∉ stops) (p : Parser Predicate)
    {o : Outcome α} (h : o.StopsAt stops) : readOperands op p o.rest = ⟨.ok [], o.rest, []⟩ := by
  obtain ⟨op', hop', hhead⟩ := h
  apply Grammar.readOperands_of_head
  rw [hhead]
  rintro ⟨⟩
  exact hop hop'

/-- Of the operands of a chain all but the last one are read completely, and after an operand that
is given up the chain ends before its connective. An operand that ends before another connective
ends the chain there. -/
theorem Follows.operands {op : Connective} {p : Parser Predicate} (hp : Follows stops p)
    (hop : op ∉ stops) : Follows (op :: stops) (operands op p) := by
  intro ks
  show (readOperands op p ks).Follows (op :: stops) ks
  fun_induction readOperands op p ks with
  | case1 more o q hq hlen ih =>
    have ho : o.Follows stops more := hp more
    have hrun : ((readOperands op p o.rest).map (q :: ·)).logAfter o.log =
        o.andThen fun _ rest => (readOperands op p rest).map (q :: ·) := by
      rw [Outcome.andThen, hq]
    rw [hrun]
    apply Outcome.Follows.of_afterLikes_eq _ (afterLikes_connective op more)
    apply ho.andThen
    · intro _ _
      exact ih.map _
    · intro _ hstop
      rw [readOperands_of_stopsAt hop p hstop]
      exact ⟨rfl, fun _ _ => hstop.cons op⟩
  | case2 more o expected ho =>
    have hfirst := ((hp more).of_afterLikes_eq (afterLikes_connective op more)).first
    exact ⟨hfirst, fun _ _ => Or.inr ⟨op, List.mem_cons_self, rfl⟩⟩
  | case3 more o fault _ ho =>
    have hfirst := ((hp more).of_afterLikes_eq (afterLikes_connective op more)).first
    exact ⟨hfirst, by simp⟩
  | case4 | case5 => exact follows_pure [] _

/-- A chain logs the patterns of its operands, and may go back before its own connective too. -/
theorem Follows.chain {op : Connective} {p : Parser Predicate} (hp : Follows stops p)
    (hop : op ∉ stops) : Follows (op :: stops) (chain op p) := by
  intro ks
  rw [Parser.chain, run_bind]
  apply (hp ks).andThen
  · intro first _
    exact (hp.operands hop).bind_pure (combine op first) _
  · intro first hstop
    have hrun : (Parser.operands op p >>= fun more => pure (combine op first more)).run
        (p.run ks).rest = ⟨.ok (combine op first []), (p.run ks).rest, []⟩ := by
      show (readOperands op p (p.run ks).rest).andThen _ = _
      rw [readOperands_of_stopsAt hop p hstop]
      rfl
    rw [hrun]
    exact ⟨rfl, fun _ _ => hstop.cons op⟩

/-- Chains of both connectives log the patterns of the operands. -/
theorem Follows.connected {p : Parser Predicate} (hp : Follows [] p) :
    Follows [.or, .and] (connected p) :=
  (hp.chain (by simp)).chain (by simp)

/-- A group that ends before a connective is not closed, so an operand is read completely or not at
all. -/
theorem Follows.group {p : Parser Predicate} (hp : Follows stops p) :
    Follows [] (do
      let q ← p
      expect .rightParen .rightParen
      return q) := by
  intro ks
  rw [run_bind]
  apply (hp ks).andThen
  · intro q _
    exact (follows_expect (by simp) _).bind (fun _ => follows_pure q) _
  · rintro q ⟨op, -, hhead⟩
    obtain ⟨left, hleft⟩ := List.head?_eq_some_iff.mp hhead
    rw [hleft, run_bind, expect, run_take_of_none (if_neg (by simp))]
    exact ⟨rfl, by simp⟩

/-- An operand logs its patterns and never ends by going back. -/
theorem follows_operand (levels : Nat) : Follows [] (operand levels) := by
  induction levels with
  | zero =>
    intro ks
    simp only [operand, run_peek]
    split
    · exact Follows.advance_bind (by simp) (follows_fail _ _)
    · exact Follows.advance_bind (by simp) (follows_fail _ _)
    · exact follows_atom _
  | succ levels ih =>
    intro ks
    simp only [operand, run_peek]
    split
    · exact Follows.advance_bind (by simp) (ih.bind_pure _ _)
    · exact Follows.advance_bind (by simp) (ih.connected.group _)
    · exact follows_atom _

/-- The whole parser logs the patterns that it reads, at every level of nesting. -/
theorem follows_expression (levels : Nat) : Follows [.or, .and] (expression levels) :=
  (follows_operand levels).connected

end Parser

/-! ## Texts -/

/-- A reader that went back before a connective is not at the end. -/
theorem Outcome.Follows.closed {α : Type} {stops : List Connective} {o : Outcome α}
    {ks : List Kind} (h : o.Follows stops ks) : o.closed.Follows [] ks := by
  apply h.andThen
  · intro a _
    split
    · exact Parser.follows_pure a _
    · exact follows_error [] _ _ _
  · rintro a ⟨op, -, hhead⟩
    obtain ⟨left, hleft⟩ := List.head?_eq_some_iff.mp hhead
    rw [hleft]
    exact ⟨rfl, by simp⟩

/-- What is read up to the end has all its patterns in the log. -/
theorem Outcome.Follows.all {α : Type} {o : Outcome α} {ks : List Kind} (h : o.Follows [] ks)
    {a : α} (ha : o.result = .ok a) (hrest : o.rest = []) :
    List.Forall₂ LoweredPattern.Reports o.log (Kind.afterLikes ks) := by
  rcases h.read a ha with ⟨segment, hks, hlog⟩ | ⟨op, hop, -⟩
  · rw [hks, hrest]
    exact (List.append_nil segment).symm ▸ hlog
  · contradiction

namespace Session

/-- A reading up to the end has the first so many patterns in its log, and all of them if it gives a
value. -/
theorem exists_log_readAll (s : Session) :
    ∃ segment, segment <+: Kind.afterLikes (s.rest.map Token.kind) ∧
      List.Forall₂ LoweredPattern.Reports s.readAll.log segment ∧
      ∀ p, s.readAll.result = .ok p → segment = Kind.afterLikes (s.rest.map Token.kind) := by
  cases hinvalid : s.stream.firstInvalid? with
  | some invalid =>
    have hread : s.readAll = ⟨.error (.invalidToken invalid.1 invalid.2), [], s⟩ := by
      rw [readAll, hinvalid]
    rw [hread]
    exact ⟨[], List.nil_prefix, .nil, by simp⟩
  | none =>
    have hfollows : s.outcome.closed.Follows [] (s.rest.map Token.kind) :=
      (Parser.follows_expression s.config.maxDepth _).closed
    rw [readAll_eq hinvalid]
    cases hresult : s.outcome.closed.result with
    | ok p =>
      have hrest : s.outcome.closed.rest = [] := by
        rw [Outcome.rest_closed]
        exact (Outcome.closed_eq_ok_iff.mp hresult).2
      exact ⟨_, List.prefix_refl _, hfollows.all hresult hrest, fun _ _ => rfl⟩
    | error fault =>
      obtain ⟨segment, hsegment, hlog⟩ := hfollows.first
      refine ⟨segment, hsegment, hlog, fun p hp => ?_⟩
      rw [readingOf, Grammar.mapError_eq_ok, hresult] at hp
      contradiction

/-- An invalid token is reported before any pattern is read. -/
theorem log_readAll_of_not_clean (s : Session) (h : ¬ s.stream.Clean) : s.readAll.log = [] := by
  rw [← TokenStream.firstInvalid?_eq_none_iff, ← ne_eq, Option.ne_none_iff_exists'] at h
  obtain ⟨invalid, hinvalid⟩ := h
  rw [readAll, hinvalid]

end Session

/-- The log follows the text. There is one entry for each of the first so many patterns, in the
order in which they are written, and it gives the raw body of the pattern and what was understood by
it. If the text is a filter, these are all the patterns, and there are no other entries. If it is
not, there is one entry more, the last one, which gives the error; and if some token is invalid, it
is the only one. -/
theorem parseLogged_entries (config : Config) (text : String) :
    ∃ log segment, segment <+: Kind.afterLikes (TokenStream.ofText text).kinds ∧
      List.Forall₂ LoweredPattern.Reports log segment ∧
      (∀ p, parseWith config text = .ok p →
        segment = Kind.afterLikes (TokenStream.ofText text).kinds ∧
          (parseLogged config text).2 = log.map .lowered) ∧
      (∀ e, parseWith config text = .error e →
        (parseLogged config text).2 = log.map .lowered ++ [.failed text.utf8ByteSize e]) ∧
      (¬ (TokenStream.ofText text).Clean → log = []) := by
  obtain ⟨segment, hsegment, hlog, hall⟩ := (Session.start config text).exists_log_readAll
  refine ⟨_, segment, hsegment, hlog, ?_, ?_,
    (Session.start config text).log_readAll_of_not_clean⟩
  · intro p hp
    have hresult : (Session.start config text).readAll.result = .ok p := hp
    refine ⟨hall p hresult, ?_⟩
    rw [parseLogged, Reading.entries, hresult]
    exact List.append_nil _
  · intro e he
    have hresult : (Session.start config text).readAll.result = .error e := he
    rw [parseLogged, Reading.entries, hresult]

/-- The second pattern is in the group that is given up at the third one, so it stays in the log.
The reader goes back twice, first before `OR` and then before `AND`. -/
theorem parseLogged_entries_rewound :
    let text := "a LIKE 'x%' AND (b LIKE 'y' OR c LIKE)"
    let error := ParseError.unexpectedToken .endOfText
      ⟨.keyword (.connective .and), "AND", ⟨1, 13⟩⟩
    parseWith ⟨1⟩ text = .error error ∧
      ∃ log segment, segment <+: [some (.string "x%"), some (.string "y"), some .rightParen] ∧
        List.Forall₂ LoweredPattern.Reports log segment ∧ log.length = 2 ∧
        (parseLogged ⟨1⟩ text).2 = log.map .lowered ++ [.failed 38 error] := by
  intro text error
  have herror : parseWith ⟨1⟩ text = .error error := by
    rw [← Grammar.failure?_eq_some]
    decide +kernel
  have hpatterns : Kind.afterLikes (TokenStream.ofText text).kinds =
      [some (.string "x%"), some (.string "y"), some .rightParen] := by
    decide +kernel
  have hcount : (parseLogged ⟨1⟩ text).2.length = 3 := by decide +kernel
  obtain ⟨log, segment, hsegment, hlog, -, hfailed, -⟩ := parseLogged_entries ⟨1⟩ text
  have hentries := hfailed error herror
  rw [hentries] at hcount
  refine ⟨herror, log, segment, hpatterns ▸ hsegment, hlog, ?_, hentries⟩
  simpa using hcount

end RowFilter
