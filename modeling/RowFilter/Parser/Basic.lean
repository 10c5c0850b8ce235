import RowFilter.Pattern
import RowFilter.Token.Basic
import RowFilter.TypeError

/-!
# Parsers over token kinds

A parser reads token kinds from the front of a list. It answers with a value or a fault, with the
kinds that it has not read, and with a log of the patterns that it understood on the way. A fault is
found at the first kind that is left, so faults carry no positions. What is left is always the end
of what was given: this is part of the type, and each combinator below keeps it.
-/

set_option autoImplicit false

namespace RowFilter

/-- What a parser could have read at the place of a fault. -/
inductive Expected where
  | operand
  | comparison
  | nullTest
  | nullTestAfterNot
  | testAfterNot
  | leftParen
  | rightParen
  | literal
  | string
  | column
  | segment
  | endOfText
  deriving DecidableEq, Repr

/-- How a message names what was expected. -/
def Expected.text : Expected → String
  | .operand => "TRUE | FALSE | NOT | ( | column | literal"
  | .comparison => "<= | <> | < | >= | > | == | = | !="
  | .nullTest => "NOT | NULL | NAN"
  | .nullTestAfterNot => "NULL | NAN"
  | .testAfterNot => "IN | LIKE"
  | .leftParen => "("
  | .rightParen => ")"
  | .literal => "literal"
  | .string => "string literal"
  | .column => "column"
  | .segment => "identifier"
  | .endOfText => "end of text"

/-- Why a parser gave up. -/
inductive Fault where
  /-- The next token is none of those expected. -/
  | unexpected (expected : Expected)
  /-- A negation or a parenthesis is nested too deeply. -/
  | tooDeep
  /-- The literals in parentheses make up no set. -/
  | invalidSet (cause : TypeError)
  /-- A pattern has a wildcard before its end. -/
  | invalidPattern (raw : String)
  deriving DecidableEq, Repr

/-- A pattern that was understood, with the raw body that it was read from. -/
structure LoweredPattern where
  raw : String
  pattern : Pattern
  deriving DecidableEq, Repr

/-- The answer of a parser: a value or a fault, what is left to read, and the log. -/
structure Outcome (α : Type) where
  result : Except Fault α
  rest : List Kind
  log : List LoweredPattern

namespace Outcome

/-- The outcome with a function applied to its value. -/
def map {α β : Type} (f : α → β) (o : Outcome α) : Outcome β :=
  ⟨o.result.map f, o.rest, o.log⟩

/-- The outcome with earlier entries in front of its log. -/
def logAfter {α : Type} (earlier : List LoweredPattern) (o : Outcome α) : Outcome α :=
  ⟨o.result, o.rest, earlier ++ o.log⟩

/-- Goes on with the value and what is left; a fault ends the reading. -/
def andThen {α β : Type} (o : Outcome α) (f : α → List Kind → Outcome β) : Outcome β :=
  match o.result with
  | .ok a => (f a o.rest).logAfter o.log
  | .error fault => ⟨.error fault, o.rest, o.log⟩

/-- An empty log in front changes nothing. -/
@[simp]
theorem logAfter_nil {α : Type} (o : Outcome α) : o.logAfter [] = o :=
  rfl

/-- After a success the second reader goes on with the tokens that are left, and its log follows. -/
@[simp]
theorem andThen_ok {α β : Type} (a : α) (ks : List Kind) (log : List LoweredPattern)
    (f : α → List Kind → Outcome β) :
    (⟨.ok a, ks, log⟩ : Outcome α).andThen f = (f a ks).logAfter log :=
  rfl

/-- After a fault nothing more is read. -/
@[simp]
theorem andThen_error {α β : Type} (fault : Fault) (ks : List Kind) (log : List LoweredPattern)
    (f : α → List Kind → Outcome β) :
    (⟨.error fault, ks, log⟩ : Outcome α).andThen f = ⟨.error fault, ks, log⟩ :=
  rfl

end Outcome

/-- A reader of token kinds that leaves the end of what it is given. -/
structure Parser (α : Type) where
  run : List Kind → Outcome α
  rest_suffix : ∀ ks, (run ks).rest <:+ ks

namespace Parser

/-- Reads nothing and answers with the value. -/
def succeed {α : Type} (a : α) : Parser α where
  run ks := ⟨.ok a, ks, []⟩
  rest_suffix ks := ks.suffix_refl

/-- Reads nothing and gives up. -/
def fail {α : Type} (fault : Fault) : Parser α where
  run ks := ⟨.error fault, ks, []⟩
  rest_suffix ks := ks.suffix_refl

/-- One parser after another. -/
def andThen {α β : Type} (p : Parser α) (f : α → Parser β) : Parser β where
  run ks := (p.run ks).andThen fun a rest => (f a).run rest
  rest_suffix ks := by
    unfold Outcome.andThen
    split
    · exact ((f _).rest_suffix _).trans (p.rest_suffix ks)
    · exact p.rest_suffix ks

/-- Parsers run one after the other, and the first fault ends the run. -/
instance : Monad Parser where
  pure := succeed
  bind := andThen

/-- Chooses a parser by what is to be read. -/
def peek {α : Type} (f : List Kind → Parser α) : Parser α where
  run ks := (f ks).run ks
  rest_suffix ks := (f ks).rest_suffix ks

/-- Skips the next kind. -/
def advance : Parser Unit where
  run ks := ⟨.ok (), ks.tail, []⟩
  rest_suffix ks := ks.tail_suffix

/-- Reads a kind that is as asked for, or gives up before it. -/
def take {α : Type} (select : Kind → Option α) (expected : Expected) : Parser α :=
  peek fun
    | [] => fail (.unexpected expected)
    | k :: _ =>
      match select k with
      | some a => do advance; return a
      | none => fail (.unexpected expected)

/-- Reads exactly this kind, or gives up before it. -/
def expect (kind : Kind) (expected : Expected) : Parser Unit :=
  take (fun k => if k = kind then some () else none) expected

/-- Adds an entry to the log. -/
def record (entry : LoweredPattern) : Parser Unit where
  run ks := ⟨.ok (), ks, [entry]⟩
  rest_suffix ks := ks.suffix_refl

/-- Answers with a value, or gives up for a reason that is no matter of tokens. -/
def ofExcept {ε α : Type} (fault : ε → Fault) : Except ε α → Parser α
  | .ok a => succeed a
  | .error e => fail (fault e)

/-- A parser that only returns a value reads nothing. -/
@[simp]
theorem run_pure {α : Type} (a : α) (ks : List Kind) :
    (pure a : Parser α).run ks = ⟨.ok a, ks, []⟩ :=
  rfl

/-- Parsers in sequence read one after the other. -/
@[simp]
theorem run_bind {α β : Type} (p : Parser α) (f : α → Parser β) (ks : List Kind) :
    (p >>= f).run ks = (p.run ks).andThen fun a rest => (f a).run rest :=
  rfl

/-- A failing parser reads nothing. -/
@[simp]
theorem run_fail {α : Type} (fault : Fault) (ks : List Kind) :
    (fail fault : Parser α).run ks = ⟨.error fault, ks, []⟩ :=
  rfl

/-- A parser that looks at the tokens is run on the very tokens it saw. -/
@[simp]
theorem run_peek {α : Type} (f : List Kind → Parser α) (ks : List Kind) :
    (peek f).run ks = (f ks).run ks :=
  rfl

/-- Passing a token leaves the tokens after it. -/
@[simp]
theorem run_advance (ks : List Kind) : advance.run ks = ⟨.ok (), ks.tail, []⟩ :=
  rfl

/-- Logging a pattern reads nothing. -/
@[simp]
theorem run_record (entry : LoweredPattern) (ks : List Kind) :
    (record entry).run ks = ⟨.ok (), ks, [entry]⟩ :=
  rfl

/-- At the end of the tokens no token can be taken. -/
@[simp]
theorem run_take_nil {α : Type} (select : Kind → Option α) (expected : Expected) :
    (take select expected).run [] = ⟨.error (.unexpected expected), [], []⟩ :=
  rfl

/-- A token of the kind that is asked for is taken. -/
theorem run_take_of_some {α : Type} {select : Kind → Option α} {k : Kind} {a : α}
    (h : select k = some a) (expected : Expected) (ks : List Kind) :
    (take select expected).run (k :: ks) = ⟨.ok a, ks, []⟩ := by
  simp [take, h]

/-- A token of another kind is left where it is and reported. -/
theorem run_take_of_none {α : Type} {select : Kind → Option α} {k : Kind}
    (h : select k = none) (expected : Expected) (ks : List Kind) :
    (take select expected).run (k :: ks) = ⟨.error (.unexpected expected), k :: ks, []⟩ := by
  simp [take, h]

end Parser

end RowFilter
