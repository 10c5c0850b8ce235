import RowFilter.Error
import RowFilter.Parser.Expression
import RowFilter.Token.Stream

/-!
# Reading filters

A session reads predicates from the tokens of one text. It remembers where it stands, also after a
fault, so that further reading goes on from there; nesting is counted anew in each reading. Reading
a filter is one reading of the whole text.
-/

set_option autoImplicit false

namespace RowFilter

/-- How filters are read. -/
structure Config where
  /-- How many negations and parentheses may surround any place. -/
  maxDepth : Nat := 256
  deriving DecidableEq, Repr, Inhabited

/-- The bound that no text reaches. -/
def Config.unbounded : Config :=
  ⟨UInt64.size - 1⟩

/-- The tokens of a text, and those of them that are still to be read. -/
structure Session where
  config : Config
  stream : TokenStream
  rest : List Token
  deriving DecidableEq

/-- The answer of one reading, with the patterns that were understood, and the session after it. -/
structure Reading where
  result : Except ParseError Predicate
  log : List LoweredPattern
  session : Session

namespace Session

/-- A session at the beginning of a text. -/
def start (config : Config) (text : String) : Session :=
  ⟨config, TokenStream.ofText text, (TokenStream.ofText text).tokens⟩

/-- The next token to read; at the end of the text the end token. -/
def current (s : Session) : Token :=
  s.rest.headD (Token.atEnd s.stream.stop)

/-- The number of tokens before the next one to read. -/
def index (s : Session) : Nat :=
  s.stream.tokens.length - s.rest.length

/-- The session when only so many tokens are left to read. -/
def leave (s : Session) (count : Nat) : Session :=
  ⟨s.config, s.stream, s.rest.drop (s.rest.length - count)⟩

/-- The error of a fault at the next token. -/
def errorOf (s : Session) (fault : Fault) : ParseError :=
  ParseError.ofFault s.config.maxDepth s.current fault

/-- Reads one expression and leaves the tokens after it. -/
def readExpression (s : Session) : Reading :=
  let o := (Parser.expression s.config.maxDepth).run (s.rest.map Token.kind)
  let after := s.leave o.rest.length
  ⟨o.result.mapError after.errorOf, o.log, after⟩

/-- Leaving tokens unread only takes tokens off the front. -/
theorem rest_leave_suffix (s : Session) (count : Nat) : (s.leave count).rest <:+ s.rest :=
  List.drop_suffix _ _

/-- What an outcome leaves of the kinds is what the session leaves of the tokens. -/
theorem map_kind_leave {s : Session} {ks : List Kind} (h : ks <:+ s.rest.map Token.kind) :
    (s.leave ks.length).rest.map Token.kind = ks := by
  obtain ⟨read, hread⟩ := h
  have hlength := congrArg List.length hread
  simp only [List.length_append, List.length_map] at hlength
  have hcount : s.rest.length - ks.length = read.length := by omega
  simp [leave, hcount, List.map_drop, ← hread]

/-- Reads one expression up to the end of the text. An invalid token anywhere in the text is
reported before anything is read. -/
def readAll (s : Session) : Reading :=
  match s.stream.firstInvalid? with
  | some (error, position) => ⟨.error (.invalidToken error position), [], s⟩
  | none =>
    let reading := s.readExpression
    match reading.result with
    | .error _ => reading
    | .ok _ =>
      if reading.session.rest.isEmpty then reading
      else
        ⟨.error (reading.session.errorOf (.unexpected .endOfText)), reading.log, reading.session⟩

end Session

/-- What the library tells about the reading of a filter. -/
inductive LogEntry where
  /-- A pattern was understood. -/
  | lowered (pattern : LoweredPattern)
  /-- The text is no filter; its size is in bytes. -/
  | failed (size : Nat) (error : ParseError)
  deriving DecidableEq

/-- The log of reading a text. -/
def Reading.entries (text : String) (reading : Reading) : List LogEntry :=
  reading.log.map .lowered ++
    match reading.result with
    | .ok _ => []
    | .error error => [.failed text.utf8ByteSize error]

/-- Reads a text as a filter and tells what happened on the way. -/
def parseLogged (config : Config) (text : String) : Except ParseError Predicate × List LogEntry :=
  let reading := (Session.start config text).readAll
  (reading.result, reading.entries text)

/-- Reads a text as a filter. -/
def parseWith (config : Config) (text : String) : Except ParseError Predicate :=
  (parseLogged config text).1

/-- Reads a text as a filter under the usual bound on nesting. -/
def parse (text : String) : Except ParseError Predicate :=
  parseWith {} text

end RowFilter
