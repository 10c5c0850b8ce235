import RowFilter.Proofs.Token.Spelling
import RowFilter.Session

/-!
# A machine that reads filters

Filters are read here step by step, with a state that outlives every call: a position in the tokens
of a text, the end token included, and a depth of nesting. Loops and calls move these two about; an
error ends a call and leaves them where they are, and a connective whose operand is malformed moves
the position back. The state keeps every place at which the machine has ever been.

A machine has no answer where it looks for a token at a position that has none, and where it leaves
a level of nesting at depth zero. Its loops and its recursion have no bound of their own. They are
followed for some number of turns, which may be any that is greater than the number of tokens, and
a machine that is not at an end by then has no answer either.
-/

set_option autoImplicit false

namespace RowFilter

namespace Kind

/-- The text of a word. -/
def word? : Kind → Option String
  | word name => some name
  | _ => none

/-- The kind is that of a name, bare or in double quotes. -/
def isName : Kind → Bool
  | word _ => true
  | quotedName _ => true
  | _ => false

end Kind

/-- What a machine works on: the tokens of a text, none of which is the end token, and the bound on
nesting. -/
structure Machine where
  stream : TokenStream
  noEnd : ∀ t ∈ stream.tokens, t.kind ≠ .eof
  maxDepth : Nat
  /-- For how many turns a loop is followed. -/
  turns : Nat
  enough : stream.tokens.length < turns

namespace Machine

/-- The machine for a text, with so many turns more than are enough. -/
def ofText (config : Config) (text : String) (extra : Nat) : Machine where
  stream := TokenStream.ofText text
  noEnd := TokenStream.kind_ne_eof text
  maxDepth := config.maxDepth
  turns := (TokenStream.ofText text).tokens.length + 1 + extra
  enough := Nat.lt_of_lt_of_le (Nat.lt_succ_self _) (Nat.le_add_right _ _)

/-- Where a machine stands: at a token, and below so many negations and parentheses. -/
structure Place where
  position : Nat
  depth : Nat
  deriving DecidableEq, Repr

/-- The state of a machine: where it stands, where it has been, and what it has logged. -/
structure State where
  place : Place
  /-- The places before this one, the latest first. -/
  earlier : List Place
  log : List LoweredPattern

namespace State

/-- The state before the first call: at the first token and at depth zero. -/
def start : State :=
  ⟨⟨0, 0⟩, [], []⟩

/-- All the places up to now, the latest first. -/
def places (s : State) : List Place :=
  s.place :: s.earlier

/-- The state after a move; the place before it is kept. -/
def moveTo (s : State) (place : Place) : State :=
  ⟨place, s.places, s.log⟩

end State

/-- A computation on the state that may have no answer. -/
abbrev Run (α : Type) : Type :=
  StateT State Option α

/-- A computation that may end with an error, which keeps the state that was reached. -/
abbrev Action (α : Type) : Type :=
  ExceptT ParseError (StateT State Option) α

/-- No answer at all. -/
def stuck {α : Type} : Action α :=
  liftM (none : Option α)

/-- Does an action and goes on with its answer, be it a value or an error. -/
def answerOf {α : Type} (action : Action α) : Action (Except ParseError α) :=
  ExceptT.lift action.run

variable (m : Machine)

/-- The tokens with the end token after them. -/
def tokens : List Token :=
  m.stream.withEnd

/-! ## Steps -/

/-- The token at the position. -/
def token : Action Token := do
  let s ← get
  m.tokens[s.place.position]?

/-- The kind of the token at the position. -/
def kind : Action Kind := do
  return (← m.token).kind

/-- The kind so many tokens after the position, or that of the last token. -/
def kindAhead (offset : Nat) : Action Kind := do
  let s ← get
  let t ← m.tokens[min (s.place.position + offset) (m.tokens.length - 1)]?
  return t.kind

/-- Moves to the next token, unless the machine is at the end. -/
def advance : Action Unit := do
  if (← m.kind) ≠ .eof then
    modify fun s => s.moveTo ⟨s.place.position + 1, s.place.depth⟩

/-- Moves back to a position, at the depth that has been reached. -/
def rewind (position : Nat) : Action Unit :=
  modify fun s => s.moveTo ⟨position, s.place.depth⟩

/-- The machine is at this kind, and not at the end. -/
def check (k : Kind) : Action Bool := do
  let found ← m.kind
  return found ≠ .eof && found = k

/-- Moves past this kind if the machine is at it, and says whether it was. -/
def consume (k : Kind) : Action Bool := do
  if ← m.check k then
    m.advance
    return true
  else
    return false

/-- Gives up at the token at the position. -/
def unexpected {α : Type} (expected : Expected) : Action α := do
  throw (.unexpectedToken expected (← m.token))

/-- Moves past a kind that is as asked for, or gives up before it. -/
def take {α : Type} (select : Kind → Option α) (expected : Expected) : Action α := do
  match select (← m.kind) with
  | some a =>
    m.advance
    return a
  | none => m.unexpected expected

/-- Moves past this kind, or gives up before it. -/
def expect (k : Kind) (expected : Expected) : Action Unit := do
  if ← m.consume k then
    return ()
  else
    m.unexpected expected

/-- Logs how a pattern was understood. -/
def record (entry : LoweredPattern) : Action Unit :=
  modify fun s => { s with log := s.log ++ [entry] }

/-- Goes one level down, unless it is too deep. -/
def enter : Action Unit := do
  let s ← get
  if s.place.depth ≥ m.maxDepth then
    throw (.nestingTooDeep m.maxDepth (← m.token).position)
  else
    set (s.moveTo ⟨s.place.position, s.place.depth + 1⟩)

/-- Goes one level up; at depth zero there is none. -/
def leave : Action Unit := do
  let s ← get
  match s.place.depth with
  | 0 => stuck
  | depth + 1 => set (s.moveTo ⟨s.place.position, depth⟩)

/-- Does an action one level down. The level is left again whatever the answer is. -/
def nested {α : Type} (action : Action α) : Action α := do
  m.enter
  let answer ← answerOf action
  leave
  match answer with
  | .ok a => return a
  | .error error => throw error

/-! ## Leaves -/

/-- Reads a literal. -/
def literal : Action Literal :=
  m.take Kind.literal? .literal

/-- Reads the sign of a comparison. -/
def comparison : Action Comparison :=
  m.take Kind.comparison? .comparison

/-- Reads the segments of a dotted name after the first one. -/
def segments : Nat → Action (List String)
  | 0 => stuck
  | fuel + 1 => do
    if ← m.check .dot then
      m.advance
      let name ← m.take Kind.word? .segment
      let more ← segments fuel
      return name :: more
    else
      return []

/-- Reads a column in any of its three forms. -/
def column : Action Column := do
  match ← m.kind with
  | .word first =>
    m.advance
    let more ← m.segments m.turns
    return ⟨Text.join "." (first :: more)⟩
  | .quotedName name =>
    m.advance
    return ⟨name⟩
  | .string raw =>
    m.advance
    return ⟨Kind.unescaped raw⟩
  | _ => m.unexpected .column

/-- Reads literals with commas between them. -/
def literals : Nat → Action (List Literal)
  | 0 => stuck
  | fuel + 1 => do
    let value ← m.literal
    if ← m.consume .comma then
      let more ← literals fuel
      return value :: more
    else
      return [value]

/-- Reads the list of a membership test and makes a set of it. -/
def membership (op : Membership) (c : Column) : Action Predicate := do
  m.expect .leftParen .leftParen
  let values ← m.literals m.turns
  m.expect .rightParen .rightParen
  match Predicate.ofMembers op c values with
  | .ok p => return p
  | .error cause => throw (.invalidSet cause)

/-- Reads the pattern of a `LIKE` test and logs how it was understood. -/
def pattern (negated : Bool) (c : Column) : Action Predicate := do
  match ← m.kind with
  | .string raw =>
    m.advance
    match Pattern.ofRaw? raw.toList with
    | some pattern =>
      record ⟨raw, pattern⟩
      return pattern.toPredicate negated c
    | none => throw (.invalidPattern raw)
  | _ => m.unexpected .string

/-- Reads a column test after its `IS`. -/
def columnTest (c : Column) : Action Predicate := do
  let negated ← m.consume (.keyword .not)
  let op ← m.take (Kind.columnTest? negated) (if negated then .nullTestAfterNot else .nullTest)
  return .test op c

/-- Reads a negated test after its `NOT`. -/
def afterNot (c : Column) : Action Predicate := do
  match ← m.kind with
  | .keyword .inSet =>
    m.advance
    m.membership .notInSet c
  | .keyword .like =>
    m.advance
    m.pattern true c
  | _ => m.unexpected .testAfterNot

/-- Reads a comparison after its column. -/
def compare (c : Column) : Action Predicate := do
  let op ← m.comparison
  let value ← m.literal
  return .compare op c value

/-- Reads what is asked of a column after the column itself. -/
def afterColumn (c : Column) : Action Predicate := do
  match ← m.kind with
  | .keyword .is =>
    m.advance
    m.columnTest c
  | .keyword .not =>
    m.advance
    m.afterNot c
  | .keyword .inSet =>
    m.advance
    m.membership .inSet c
  | .keyword .like =>
    m.advance
    m.pattern false c
  | _ => m.compare c

/-- Reads a leaf that begins with its column. -/
def columnFirst : Action Predicate := do
  let c ← m.column
  m.afterColumn c

/-- Reads a comparison that begins with its literal, and turns it round. -/
def literalFirst : Action Predicate := do
  let value ← m.literal
  let op ← m.comparison
  let c ← m.column
  return .compare op.flipped c value

/-- Reads a leaf. One or two tokens ahead decide between a constant, a literal and a column. -/
def atom : Action Predicate := do
  match ← m.kind with
  | .keyword (.bool b) =>
    if (← m.kindAhead 1).isComparison then
      m.literalFirst
    else
      m.advance
      return .const b
  | .integer _ | .decimal _ => m.literalFirst
  | .string _ =>
    if (← m.kindAhead 1).isComparison && (← m.kindAhead 2).isName then
      m.literalFirst
    else
      m.columnFirst
  | .word _ | .quotedName _ => m.columnFirst
  | _ => m.unexpected .operand

/-! ## Expressions -/

/-- Reads the operand after a connective. If it is malformed, the machine moves back to the
connective. -/
def nextOperand (operand : Action Predicate) : Action (Option Predicate) := do
  let checkpoint := (← get).place.position
  -- past the connective
  m.advance
  match ← answerOf operand with
  | .ok p => return some p
  | .error (.unexpectedToken _ _) =>
    rewind checkpoint
    return none
  | .error error => throw error

/-- Reads operands, each of them after the connective, until there is none. -/
def moreOperands (op : Connective) (operand : Action Predicate) : Nat → Action (List Predicate)
  | 0 => stuck
  | fuel + 1 => do
    if ← m.check (.keyword (.connective op)) then
      match ← m.nextOperand operand with
      | some p =>
        let more ← moreOperands op operand fuel
        return p :: more
      | none => return []
    else
      return []

/-- Reads the operands of one connective and joins them. -/
def chain (op : Connective) (operand : Action Predicate) : Action Predicate := do
  let first ← operand
  let more ← m.moreOperands op operand m.turns
  return Parser.combine op first more

/-- Reads a disjunction of conjunctions of operands. -/
def connected (operand : Action Predicate) : Action Predicate :=
  m.chain .or (m.chain .and operand)

/-- Reads an expression in parentheses one level down, or a leaf. -/
def primary (expression : Action Predicate) : Action Predicate := do
  if ← m.check .leftParen then
    m.advance
    let p ← m.nested expression
    m.expect .rightParen .rightParen
    return p
  else
    m.atom

/-- Reads a negation, or what stands below negations. -/
def negation : Nat → Action Predicate
  | 0 => stuck
  | fuel + 1 => do
    if ← m.check (.keyword .not) then
      m.advance
      let p ← m.nested (negation fuel)
      return .not p
    else
      m.primary (m.connected (negation fuel))

/-! ## Calls -/

/-- Reads one expression and leaves the tokens after it. -/
def expression : Action Predicate :=
  m.connected (m.negation m.turns)

/-- Reads one expression up to the end of the text. An invalid token anywhere in the text is
reported before anything is read. -/
def whole : Action Predicate :=
  match m.stream.firstInvalid? with
  | some (error, position) => throw (.invalidToken error position)
  | none => do
    let p ← m.expression
    if (← m.kind) ≠ .eof then
      m.unexpected .endOfText
    else
      return p

/-- The two calls of a machine. -/
inductive Call where
  | expression
  | whole
  deriving DecidableEq, Repr

/-- What is done for a call. -/
def action : Call → Action Predicate
  | .expression => m.expression
  | .whole => m.whole

/-- The answer of a call and the place at which the machine then stands. -/
structure Return where
  result : Except ParseError Predicate
  place : Place

/-- Makes a call. The state that it reaches is kept also if it fails. -/
def call (c : Call) : Run Return := do
  let result ← (m.action c).run
  return ⟨result, (← get).place⟩

/-- Call after call, also after calls that failed. -/
def calls (cs : List Call) : Run (List Return) :=
  cs.mapM (m.call)

end Machine

end RowFilter
